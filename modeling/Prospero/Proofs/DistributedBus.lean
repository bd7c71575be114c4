import Prospero.DistributedBus
import Prospero.Lib.Decimal
import Prospero.Lib.Machine
import Prospero.Lib.Tail
import Prospero.Proofs.Store

namespace Prospero.Proofs.DistributedBus
open Prospero.DistributedBus
open Prospero.Proofs.Store (append_eq_ok append_nodup mem_replay replay_sorted eq_of_seq)

theorem dropWhile_digits (digits rest : List Char) (h : ∀ c ∈ digits, c ≠ ':') :
    (digits ++ ':' :: rest).dropWhile (fun c => c ≠ ':') = ':' :: rest := by
  induction digits with
  | nil => simp
  | cons c cs ih =>
    have hc : c ≠ ':' := h c (by simp)
    have hcs := ih fun d hd => h d (by simp [hd])
    simpa [hc] using hcs

/-- Whatever its stream key holds, a doorbell is read back as that key. -/
theorem rsplitOnce_payload (e : FleetEvent) : rsplitOnce (payload e) = some e.streamKey := by
  have hrev : (payload e).toList.reverse =
      (toString e.seq).toList.reverse ++ ':' :: e.streamKey.toList.reverse := by
    simp [payload]
  have hdigits : ∀ c ∈ (toString e.seq).toList.reverse, c ≠ ':' := by
    intro c hc he
    subst he
    exact Decimal.not_mem_toString (by decide) e.seq (List.mem_reverse.mp hc)
  simp only [rsplitOnce, hrev, dropWhile_digits _ _ hdigits]
  simp

/-- The subscription's progress on one stream. -/
def tailOf (w : World) (key : StreamKey) : Tail.State FleetEvent Nat :=
  ⟨w.sub.lastSeq key, if w.sub.key = key then w.sub.pending else [],
    w.yielded.filter fun e => e.streamKey = key⟩

theorem reach_tailOf (w : World) (key : StreamKey) :
    Tail.reach FleetEvent.seq (tailOf w key) = w.sub.readUpTo key := by
  unfold Tail.reach tailOf Subscription.readUpTo
  split <;> rfl

/-- The stream whose doorbell an action processes successfully. -/
def rings (w : World) : Action → Option StreamKey
  | .doorbell payload true =>
    (rsplitOnce payload).filter fun key => w.sub.heeds key
  | _ => none

theorem doorbell_cases (w : World) (payload : String) (replayOk : Bool) :
    (rings w (.doorbell payload replayOk) = none ∧ w.doorbell payload replayOk = w) ∨
    ∃ key, rings w (.doorbell payload replayOk) = some key ∧
      w.doorbell payload replayOk = w.replay key := by
  unfold World.doorbell
  cases hp : rsplitOnce payload with
  | none => exact Or.inl ⟨by cases replayOk <;> simp [rings, hp], rfl⟩
  | some key =>
    cases replayOk with
    | false => exact Or.inl ⟨rfl, by simp⟩
    | true =>
      by_cases hh : w.sub.heeds key = true
      · exact Or.inr ⟨key, by simp [rings, hp, hh], by simp [hh]⟩
      · exact Or.inl ⟨by simp [rings, hp, hh], by simp [hh]⟩

/-- What a step does, with its enabling condition. -/
inductive Effect (w w' : World) : Action → Prop
  | commit (e : FleetEvent) (fresh : e.key ∉ w.log.map FleetEvent.key) (positive : 0 < e.seq)
      (log : w'.log = w.log ++ [e]) (sub : w'.sub = w.sub) (yielded : w'.yielded = w.yielded)
      (rung : w'.rung = w.rung)
      (late : w'.late = if e.seq ≤ w.sub.readUpTo e.streamKey then e :: w.late else w.late) :
      Effect w w' (.commit e)
  | quiet {a : Action} (quiet : rings w a = none) (log : w'.log = w.log)
      (key : w'.sub.key = w.sub.key) (lastSeq : w'.sub.lastSeq = w.sub.lastSeq)
      (pending : w'.sub.pending = w.sub.pending) (yielded : w'.yielded = w.yielded)
      (rung : w'.rung = w.rung) (late : w'.late = w.late) : Effect w w' a
  | replay (payload : String) (key : StreamKey) (idle : w.sub.pending = [])
      (rings : rings w (.doorbell payload true) = some key) (eq : w' = w.replay key) :
      Effect w w' (.doorbell payload true)
  | next (e : FleetEvent) (rest : List FleetEvent) (head : w.sub.pending = e :: rest)
      (eq : w' = w.next e rest) : Effect w w' .next

theorem step_effect {w w' : World} {a : Action} (h : w.step a = some w') : Effect w w' a := by
  cases a with
  | commit e =>
    simp only [World.step, World.commit] at h
    split at h
    · rename_i log hs
      split at h <;> cases h
      obtain ⟨hfresh, rfl⟩ := append_eq_ok.mp hs
      exact .commit e hfresh ‹_› rfl rfl rfl rfl rfl
    · cases h
  | publish e =>
    cases h
    exact .quiet rfl rfl rfl rfl rfl rfl rfl rfl
  | doorbell payload replayOk =>
    simp only [World.step] at h
    split at h
    · rename_i hidle
      split at h <;> cases h
      rcases doorbell_cases w payload replayOk with ⟨hq, he⟩ | ⟨key, hr, he⟩
      · rw [he]
        exact .quiet hq rfl rfl rfl rfl rfl rfl rfl
      · cases replayOk with
        | false => cases hr
        | true => exact .replay payload key hidle hr he
    · cases h
  | next =>
    simp only [World.step] at h
    split at h
    · rename_i e rest hp
      cases h
      exact .next e rest hp rfl
    · cases h
  | recvFailed =>
    simp only [World.step] at h
    split at h <;> cases h
    exact .quiet rfl rfl rfl rfl rfl rfl rfl rfl

/-- What every run keeps up, on time or not. -/
structure Base (w : World) : Prop where
  unique : (w.log.map FleetEvent.key).Nodup
  positive : ∀ e ∈ w.log, 0 < e.seq
  ordered : ∀ key, Tail.Ordered FleetEvent.seq (tailOf w key)
  pending : ∀ e ∈ w.sub.pending, e ∈ w.log ∧ e.streamKey = w.sub.key
  yielded : ∀ e ∈ w.yielded, e ∈ w.log
  rung : ∀ e ∈ w.rung, e ∈ w.log
  late : ∀ e ∈ w.late, e ∈ w.log ∧ e.seq ≤ w.sub.readUpTo e.streamKey ∧
    e ∉ w.yielded ∧ e ∉ w.sub.pending
  covered : ∀ e ∈ w.log, e ∈ w.late ∨ e ∈ w.yielded ∨ e ∈ w.sub.pending ∨
    w.sub.readUpTo e.streamKey < e.seq

theorem Base.start {log : List FleetEvent} (h : (log.map FleetEvent.key).Nodup)
    (hpos : ∀ e ∈ log, 0 < e.seq) (only : Option StreamKey) : Base (World.start log only) where
  unique := h
  positive := hpos
  ordered := by
    intro key
    have hstart : tailOf (World.start log only) key = ⟨0, [], []⟩ := by
      simp [tailOf, World.start]
    rw [hstart]
    exact .start 0
  pending := by simp [World.start]
  yielded := by simp [World.start]
  rung := by simp [World.start]
  late := by simp [World.start]
  covered := by
    intro e he
    refine Or.inr (Or.inr (Or.inr ?_))
    simpa [World.start, Subscription.readUpTo] using hpos e he

theorem Base.next_eq {w : World} (h : Base w) {e : FleetEvent} {rest : List FleetEvent}
    (head : w.sub.pending = e :: rest) : w.next e rest =
      { w with
        sub := { w.sub with
          lastSeq := Function.update w.sub.lastSeq w.sub.key e.seq
          pending := rest }
        yielded := w.yielded ++ [e] } := by
  have habove := (h.ordered w.sub.key).above e (by simp [tailOf, head])
  have hlt : w.sub.lastSeq w.sub.key < e.seq := habove
  simp [World.next, Nat.not_le.mpr hlt]

/-- On each stream the subscription is a tail reader. -/
theorem Base.move {w w' : World} {a : Action} (h : Base w) (he : Effect w w' a)
    (key : StreamKey) : Tail.Move FleetEvent.seq (tailOf w key) (tailOf w' key) := by
  cases he with
  | commit e fresh positive log sub yielded =>
    have hsame : tailOf w' key = tailOf w key := by simp [tailOf, sub, yielded]
    exact hsame ▸ .stay
  | quiet quiet log key' lastSeq pending yielded =>
    have hsame : tailOf w' key = tailOf w key := by simp [tailOf, key', lastSeq, pending, yielded]
    exact hsame ▸ .stay
  | replay payload k idle rings eq =>
    subst eq
    by_cases hk : k = key
    · subst hk
      have hbatch : tailOf (w.replay k) k =
          { tailOf w k with batch := Store.replay w.log k (w.sub.lastSeq k + 1) } := by
        simp [tailOf, World.replay]
      rw [hbatch]
      apply Tail.Move.read
      · simp [tailOf, idle]
      · intro e he
        exact (mem_replay.mp he).2.2
      · exact replay_sorted h.unique k _
    · have hsame : tailOf (w.replay k) key = tailOf w key := by
        simp [tailOf, World.replay, hk, idle]
      exact hsame ▸ .stay
  | next e rest head eq =>
    rw [eq, h.next_eq head]
    have hkey := (h.pending e (by simp [head])).2
    by_cases hk : w.sub.key = key
    · subst hk
      have hpass : Tail.Move FleetEvent.seq (tailOf w w.sub.key)
          ⟨e.seq, rest, (tailOf w w.sub.key).passed ++ [e]⟩ := .pass e rest (by simp [tailOf, head])
      simpa [tailOf, hkey] using hpass
    · have hne : e.streamKey ≠ key := hkey ▸ hk
      have hsame : tailOf { w with
          sub := { w.sub with
            lastSeq := Function.update w.sub.lastSeq w.sub.key e.seq
            pending := rest }
          yielded := w.yielded ++ [e] } key = tailOf w key := by
        simp [tailOf, hk, Ne.symm hk, hne]
      exact hsame ▸ .stay

theorem readUpTo_idle {s : Subscription} (h : s.pending = []) (key : StreamKey) :
    s.readUpTo key = s.lastSeq key := by
  simp [Subscription.readUpTo, h]

/-- Yielding an event does not change how far its stream has been read. -/
theorem readUpTo_next {s : Subscription} {e : FleetEvent} {rest : List FleetEvent}
    (head : s.pending = e :: rest) (key : StreamKey) :
    Subscription.readUpTo { s with
      lastSeq := Function.update s.lastSeq s.key e.seq
      pending := rest } key = s.readUpTo key := by
  unfold Subscription.readUpTo
  by_cases hk : s.key = key
  · simp [head, hk]
  · simp [hk, Ne.symm hk]

theorem readUpTo_replay {w : World} (idle : w.sub.pending = []) (key other : StreamKey) :
    (w.replay key).sub.readUpTo other =
      if key = other then
        (Store.replay w.log key (w.sub.lastSeq key + 1)).foldl (fun _ e => e.seq) (w.sub.lastSeq key)
      else w.sub.readUpTo other := by
  by_cases hk : key = other
  · subst hk
    simp [Subscription.readUpTo, World.replay]
  · simp [Subscription.readUpTo, World.replay, hk, idle]

section Keep

variable {w w' : World} (h : Base w)
include h

theorem Base.commit (hordered : ∀ key, Tail.Ordered FleetEvent.seq (tailOf w' key))
    {e : FleetEvent} (fresh : e.key ∉ w.log.map FleetEvent.key) (positive : 0 < e.seq)
    (log : w'.log = w.log ++ [e]) (sub : w'.sub = w.sub) (yielded : w'.yielded = w.yielded)
    (rung : w'.rung = w.rung)
    (late : w'.late = if e.seq ≤ w.sub.readUpTo e.streamKey then e :: w.late else w.late) :
    Base w' := by
  have hnew : e ∉ w.log := fun hm => fresh (List.mem_map_of_mem hm)
  refine ⟨?_, ?_, hordered, ?_, ?_, ?_, ?_, ?_⟩
  · rw [log, List.map_append]
    exact List.Nodup.append h.unique (List.nodup_singleton _) (by simpa using fresh)
  · intro x hx
    rw [log] at hx
    rcases List.mem_append.mp hx with hx | hx
    · exact h.positive x hx
    · rw [List.mem_singleton.mp hx]
      exact positive
  · intro x hx
    rw [sub] at hx ⊢
    exact ⟨log ▸ List.mem_append_left _ (h.pending x hx).1, (h.pending x hx).2⟩
  · intro x hx
    rw [yielded] at hx
    exact log ▸ List.mem_append_left _ (h.yielded x hx)
  · intro x hx
    rw [rung] at hx
    exact log ▸ List.mem_append_left _ (h.rung x hx)
  · intro x hx
    rw [log, sub, yielded]
    have hold : x ∈ w.late ∨ x = e ∧ e.seq ≤ w.sub.readUpTo e.streamKey := by
      rw [late] at hx
      split at hx
      · rcases List.mem_cons.mp hx with he | hx
        · exact Or.inr ⟨he, ‹_›⟩
        · exact Or.inl hx
      · exact Or.inl hx
    rcases hold with hx | ⟨he, hle⟩
    · obtain ⟨hm, hrest⟩ := h.late x hx
      exact ⟨List.mem_append_left _ hm, hrest⟩
    · subst he
      refine ⟨by simp, hle, ?_, ?_⟩
      · exact fun hy => hnew (h.yielded x hy)
      · exact fun hp => hnew (h.pending x hp).1
  · intro x hx
    rw [log] at hx
    rw [sub, yielded, late]
    rcases List.mem_append.mp hx with hx | hx
    · apply (h.covered x hx).imp_left
      intro hl
      split
      · exact List.mem_cons_of_mem _ hl
      · exact hl
    · rw [List.mem_singleton.mp hx]
      split
      · exact Or.inl (by simp)
      · exact Or.inr (Or.inr (Or.inr (by omega)))

theorem Base.quiet (hordered : ∀ key, Tail.Ordered FleetEvent.seq (tailOf w' key))
    (log : w'.log = w.log) (key : w'.sub.key = w.sub.key)
    (lastSeq : w'.sub.lastSeq = w.sub.lastSeq) (pending : w'.sub.pending = w.sub.pending)
    (yielded : w'.yielded = w.yielded) (rung : w'.rung = w.rung) (late : w'.late = w.late) :
    Base w' := by
  have hread : ∀ k, w'.sub.readUpTo k = w.sub.readUpTo k := by
    intro k
    simp only [Subscription.readUpTo, key, lastSeq, pending]
  refine ⟨log ▸ h.unique, log ▸ h.positive, hordered, ?_, ?_, ?_, ?_, ?_⟩
  · rw [pending, log, key]
    exact h.pending
  · rw [yielded, log]
    exact h.yielded
  · rw [rung, log]
    exact h.rung
  · intro e he
    rw [late] at he
    rw [log, hread, yielded, pending]
    exact h.late e he
  · intro e he
    rw [log] at he
    rw [late, hread, yielded, pending]
    exact h.covered e he

theorem Base.replay {key : StreamKey}
    (hordered : ∀ k, Tail.Ordered FleetEvent.seq (tailOf (w.replay key) k))
    (idle : w.sub.pending = []) : Base (w.replay key) := by
  have hidle : ∀ k, w.sub.readUpTo k = w.sub.lastSeq k := readUpTo_idle idle
  have hmono : ∀ k, w.sub.readUpTo k ≤ (w.replay key).sub.readUpTo k := by
    intro k
    rw [hidle k]
    by_cases hk : key = k
    · subst hk
      rw [← reach_tailOf]
      exact (hordered key).mark_le_reach
    · rw [readUpTo_replay idle, if_neg hk, hidle k]
  refine ⟨h.unique, h.positive, hordered, ?_, h.yielded, ?_, ?_, ?_⟩
  · intro e he
    obtain ⟨hm, hk, -⟩ := mem_replay.mp he
    exact ⟨hm, hk⟩
  · intro e he
    rcases List.mem_append.mp he with he | he
    · exact List.mem_of_mem_filter he
    · exact h.rung e he
  · intro e he
    obtain ⟨hm, hle, hy, -⟩ := h.late e he
    refine ⟨hm, Nat.le_trans hle (hmono _), hy, ?_⟩
    intro hp
    obtain ⟨-, hk, hlt⟩ := mem_replay.mp hp
    rw [hidle, hk] at hle
    omega
  · intro e he
    rcases h.covered e he with hl | hy | hp | hlt
    · exact Or.inl hl
    · exact Or.inr (Or.inl hy)
    · simp [idle] at hp
    · by_cases hk : e.streamKey = key
      · refine Or.inr (Or.inr (Or.inl ?_))
        rw [hidle, hk] at hlt
        exact mem_replay.mpr ⟨he, hk, hlt⟩
      · refine Or.inr (Or.inr (Or.inr ?_))
        rwa [readUpTo_replay idle, if_neg (Ne.symm hk)]

theorem Base.next {e : FleetEvent} {rest : List FleetEvent}
    (hordered : ∀ key, Tail.Ordered FleetEvent.seq (tailOf (w.next e rest) key))
    (head : w.sub.pending = e :: rest) : Base (w.next e rest) := by
  obtain ⟨hm, hkey⟩ := h.pending e (by simp [head])
  rw [h.next_eq head] at hordered ⊢
  have hread := readUpTo_next head
  refine ⟨h.unique, h.positive, hordered, ?_, ?_, h.rung, ?_, ?_⟩
  · intro x hx
    exact h.pending x (by simp [head, show x ∈ rest from hx])
  · intro x hx
    rcases List.mem_append.mp hx with hx | hx
    · exact h.yielded x hx
    · rw [List.mem_singleton.mp hx]
      exact hm
  · intro x hx
    obtain ⟨hxm, hle, hy, hp⟩ := h.late x hx
    rw [head, List.mem_cons, not_or] at hp
    refine ⟨hxm, ?_, ?_, hp.2⟩
    · exact (hread x.streamKey).symm ▸ hle
    · intro hn
      rcases List.mem_append.mp hn with hn | hn
      · exact hy hn
      · exact hp.1 (List.mem_singleton.mp hn)
  · intro x hx
    rcases h.covered x hx with hl | hy | hp | hlt
    · exact Or.inl hl
    · exact Or.inr (Or.inl (List.mem_append_left _ hy))
    · rw [head, List.mem_cons] at hp
      rcases hp with he | hp
      · exact Or.inr (Or.inl (by simp [he]))
      · exact Or.inr (Or.inr (Or.inl hp))
    · exact Or.inr (Or.inr (Or.inr ((hread x.streamKey).symm ▸ hlt)))

theorem Base.effect {a : Action} (he : Effect w w' a) : Base w' := by
  have hordered : ∀ key, Tail.Ordered FleetEvent.seq (tailOf w' key) := fun key =>
    (h.ordered key).move (h.move he key)
  cases he with
  | commit e fresh positive log sub yielded rung late =>
    exact h.commit hordered fresh positive log sub yielded rung late
  | quiet quiet log key lastSeq pending yielded rung late =>
    exact h.quiet hordered log key lastSeq pending yielded rung late
  | replay payload key idle rings eq =>
    subst eq
    exact h.replay hordered idle
  | next e rest head eq =>
    subst eq
    exact h.next hordered head

end Keep

/-- A doorbell that is processed finds no event of its stream that was
committed after the subscription had read the stream further. -/
def Punctual (w : World) (a : Action) : Prop :=
  ∀ key, rings w a = some key → ∀ e ∈ w.late, e.streamKey ≠ key

/-- Between drains: every stream's seqs have come out in strict order, and what
was committed when a doorbell for its stream was processed has come out. -/
def Delivered (w : World) : Prop :=
  (∀ key, (w.yielded.filter fun e => e.streamKey = key).Pairwise fun a b => a.seq < b.seq) ∧
  ∀ e ∈ w.rung, e ∈ w.yielded

/-- All that has been rung for is out or on its way. -/
def OnTime (w : World) : Prop :=
  Base w ∧ ∀ e ∈ w.rung, e ∈ w.yielded ∨ e ∈ w.sub.pending

/-- Some event was rung for and can no longer come out. -/
def Missed (w : World) : Prop :=
  Base w ∧ ∃ e ∈ w.rung, Tail.Lost FleetEvent.seq (tailOf w e.streamKey) e

theorem Effect.rung_mono {w w' : World} {a : Action} (he : Effect w w' a) :
    ∀ e ∈ w.rung, e ∈ w'.rung := by
  intro x hx
  cases he with
  | commit e fresh positive log sub yielded rung => exact rung ▸ hx
  | quiet quiet log key lastSeq pending yielded rung => exact rung ▸ hx
  | replay payload key idle rings eq =>
    rw [eq]
    exact List.mem_append_right _ hx
  | next e rest head eq =>
    rw [eq, World.next]
    split <;> exact hx

theorem OnTime.step {w w' : World} {a : Action} (h : OnTime w) (hok : Punctual w a)
    (hs : w.step a = some w') : OnTime w' := by
  have he := step_effect hs
  obtain ⟨hbase, hrung⟩ := h
  refine ⟨hbase.effect he, ?_⟩
  intro x hx
  cases he with
  | commit e fresh positive log sub yielded rung =>
    rw [rung] at hx
    rw [sub, yielded]
    exact hrung x hx
  | quiet quiet log key lastSeq pending yielded rung =>
    rw [rung] at hx
    rw [pending, yielded]
    exact hrung x hx
  | replay payload key idle rings eq =>
    subst eq
    rcases List.mem_append.mp hx with hx | hx
    · obtain ⟨hm, hk⟩ := List.mem_filter.mp hx
      have hkey : x.streamKey = key := by simpa using hk
      rcases hbase.covered x hm with hl | hy | hp | hlt
      · exact absurd hkey (hok key rings x hl)
      · exact Or.inl hy
      · simp [idle] at hp
      · rw [readUpTo_idle idle, hkey] at hlt
        exact Or.inr (mem_replay.mpr ⟨hm, hkey, hlt⟩)
    · refine Or.inl ((hrung x hx).resolve_right ?_)
      simp [idle]
  | next e rest head eq =>
    rw [hbase.next_eq head] at eq
    subst eq
    rcases hrung x hx with hy | hp
    · exact Or.inl (List.mem_append_left _ hy)
    · rw [head, List.mem_cons] at hp
      rcases hp with hp | hp
      · exact Or.inl (by simp [hp])
      · exact Or.inr hp

theorem OnTime.late {w w' : World} {a : Action} (h : OnTime w) (hok : ¬Punctual w a)
    (hs : w.step a = some w') : Missed w' := by
  have he := step_effect hs
  have hbase := h.1
  simp only [Punctual, not_forall, not_not] at hok
  obtain ⟨key, hrings, e, hl, hkey⟩ := hok
  cases he with
  | commit | next => cases hrings
  | quiet quiet => cases quiet.symm.trans hrings
  | replay payload k idle rings eq =>
    obtain rfl := Option.some.inj (rings.symm.trans hrings)
    refine ⟨hbase.effect (.replay payload k idle rings eq), e, ?_, ?_⟩
    · rw [eq]
      apply List.mem_append_left
      exact List.mem_filter.mpr ⟨(hbase.late e hl).1, by simpa using hkey⟩
    · obtain ⟨-, hle, hy, -⟩ := hbase.late e hl
      rw [readUpTo_idle idle] at hle
      subst eq
      refine ⟨hle, ?_⟩
      exact fun hm => hy (List.mem_of_mem_filter hm)

theorem Missed.step {w w' : World} {a : Action} (h : Missed w) (hs : w.step a = some w') :
    Missed w' := by
  have he := step_effect hs
  obtain ⟨hbase, e, hr, hlost⟩ := h
  exact ⟨hbase.effect he, e, he.rung_mono e hr, hlost.move (hbase.ordered _) (hbase.move he _)⟩

/-- A subscription misses nothing it was rung for exactly when no doorbell
finds an event that was committed behind the subscription's back. -/
theorem doorbells_deliver_iff (log : List FleetEvent) (only : Option StreamKey)
    (as : List Action) (w : World) (hlog : (log.map FleetEvent.key).Nodup)
    (hpos : ∀ e ∈ log, 0 < e.seq)
    (h : Machine.run World.step (World.start log only) as = some w) (hend : w.sub.pending = []) :
    Delivered w ↔ Machine.Steps World.step Punctual (World.start log only) as := by
  have hstart : OnTime (World.start log only) :=
    ⟨.start hlog hpos only, by simp [World.start]⟩
  rcases Machine.run_verdict (fun _ _ _ => OnTime.step) (fun _ _ _ => OnTime.late)
    (fun _ _ _ => Missed.step) hstart h with ⟨⟨hbase, hrung⟩, hsteps⟩ | ⟨⟨hbase, e, hr, hlost⟩, hsteps⟩
  · refine iff_of_true ⟨fun key => (hbase.ordered key).passed, ?_⟩ hsteps
    intro e he
    apply (hrung e he).resolve_right
    simp [hend]
  · refine iff_of_false ?_ hsteps
    intro hd
    apply hlost.2
    exact List.mem_filter.mpr ⟨hd.2 e hr, by simp⟩

def eventAt (seq : Nat) : FleetEvent := ⟨seq, "t", "r", "a", .agentGone, none, none⟩

/-- Two events of one stream, each rung for and drained as it commits. -/
def commitsInTurn (first second : Nat) : List Action :=
  [.commit (eventAt first), .publish (eventAt first), .doorbell (payload (eventAt first)) true,
    .next, .commit (eventAt second), .publish (eventAt second),
    .doorbell (payload (eventAt second)) true]

theorem doorbells_deliver_in_turn :
    ∃ w, Machine.run World.step (World.start [] (some "a")) (commitsInTurn 1 2 ++ [.next]) = some w ∧
      (Delivered w ↔ Machine.Steps World.step Punctual (World.start [] (some "a"))
        (commitsInTurn 1 2 ++ [.next])) :=
  ⟨_, rfl, doorbells_deliver_iff [] (some "a") (commitsInTurn 1 2 ++ [.next]) _ (by decide)
    (by simp) rfl rfl⟩

/-- Seq 2 commits and is drained before seq 1; the doorbell for seq 1 then
replays from 3. -/
theorem doorbell_misses_late_commit :
    ¬∀ (log : List FleetEvent) (only : Option StreamKey) (as : List Action) (w : World),
      (log.map FleetEvent.key).Nodup → (∀ e ∈ log, 0 < e.seq) →
      Machine.run World.step (World.start log only) as = some w → w.sub.pending = [] →
      Delivered w := by
  intro h
  have hd := h [] (some "a") (commitsInTurn 2 1) _ (by decide) (by simp) rfl rfl
  have hm : eventAt 1 ∈ [eventAt 2] := hd.2 (eventAt 1) (.tail _ (.head _))
  have hseq := congrArg FleetEvent.seq (List.mem_singleton.mp hm)
  cases hseq

end Prospero.Proofs.DistributedBus
