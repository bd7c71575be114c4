import Prospero.HeldMirror
import Prospero.Proofs.Leases

namespace Prospero.Proofs.HeldMirror
open Prospero.HeldMirror
open Prospero.Leases hiding World World.step World.start
open Prospero.Proofs.Leases

/-- No call of the replica's is between two of its steps. -/
def Quiet (w : World) (me : ReplicaId) : Prop := ∀ call c, w.leases.calls call ≠ some (me, c)

/-- What `owns` answers agrees with the lease table. -/
def Agrees (w : World) : Prop :=
  ∀ me key,
    (Quiet w me → w.acquired me key = true → w.leases.owns me key = true) ∧
    (foreign w.leases.table me key = true → w.noticed me key = true →
      w.leases.owns me key = false)

/-- No entry is dropped, and no release fails, while the replica owns the row,
no lease is recorded after another replica has taken it, and no acquire comes
back empty-handed while the mirror still has an entry for another's row. -/
def Sound (w : World) : Action → Prop
  | .dropLost call => ∀ me lease rest, w.leases.calls call = some (me, .lost lease rest) →
      ¬Owns w.leases.table me lease.streamKey
  | .release call false => ∀ me key, w.leases.calls call = some (me, .released key) →
      ¬Owns w.leases.table me key
  | .recordHeld call => ∀ me lease, w.leases.calls call = some (me, .acquired lease) →
      foreign w.leases.table me lease.streamKey = false
  | .tryAcquire call me key ok => w.leases.owns me key = true →
      foreign w.leases.table me key = true →
      granted w.leases (.tryAcquire call me key ok) = some (me, key)
  | _ => True

section Mirror

theorem mem_owns {w : Leases.World} {me : ReplicaId} {key : StreamKey} :
    w.owns me key = true ↔ key ∈ (w.held me).map Lease.streamKey := by
  simp [Leases.World.owns]

theorem mem_insertHeld {held : List Lease} {lease : Lease} {key : StreamKey} :
    key ∈ (insertHeld held lease).map Lease.streamKey ↔
      key = lease.streamKey ∨ key ∈ held.map Lease.streamKey := by
  unfold insertHeld
  by_cases he : key = lease.streamKey
  · simp [he]
  · simp only [List.map_cons, List.mem_cons, he, false_or, List.mem_map, List.mem_filter]
    constructor
    · intro h
      obtain ⟨l, ⟨hl, -⟩, hk⟩ := h
      exact ⟨l, hl, hk⟩
    · intro h
      obtain ⟨l, hl, rfl⟩ := h
      exact ⟨l, ⟨hl, by simpa using he⟩, rfl⟩

theorem mem_removeHeld {held : List Lease} {key other : StreamKey} :
    key ∈ (removeHeld held other).map Lease.streamKey ↔
      key ≠ other ∧ key ∈ held.map Lease.streamKey := by
  simp only [removeHeld, List.mem_map, List.mem_filter, bne_iff_ne]
  constructor
  · intro h
    obtain ⟨l, ⟨hl, hne⟩, rfl⟩ := h
    exact ⟨hne, l, hl, rfl⟩
  · intro h
    obtain ⟨hne, l, hl, rfl⟩ := h
    exact ⟨l, ⟨hl, hne⟩, rfl⟩

end Mirror

section Table

variable {t : Table} {me : ReplicaId} {key : StreamKey}

theorem foreign_iff : foreign t me key = true ↔ ∃ row, t key = some row ∧ row.owner ≠ me := by
  unfold foreign
  cases t key <;> simp

variable {l l' : Leases.World} {a : Action}

/-- A row becomes another's by that replica's acquire alone. -/
theorem foreign_step (h : l.step a = some l') (hf : foreign l'.table me key = true) :
    foreign l.table me key = true ∨
    ∃ call other, other ≠ me ∧ a = .tryAcquire call other key true ∧
      granted l a = some (other, key) := by
  obtain ⟨row, hrow, hne⟩ := foreign_iff.mp hf
  cases step_effect h key with
  | same quiet table => exact Or.inl (foreign_iff.mpr ⟨row, table ▸ hrow, hne⟩)
  | claim call other epoch action grant step table =>
    cases table.symm.trans hrow
    exact Or.inr ⟨call, other, hne, action, grant⟩
  | renew other r who grant row_eq own table =>
    cases table.symm.trans hrow
    exact Or.inl (foreign_iff.mpr ⟨r, row_eq, hne⟩)
  | delete other r who release row_eq own table =>
    cases table.symm.trans hrow

theorem renew_foreign (hf : foreign l.table me key = true) {lease : Lease}
    (hk : lease.streamKey = key) (ok : Bool) : (l.renew me lease ok).2 = false := by
  obtain ⟨row, hrow, hne⟩ := foreign_iff.mp hf
  subst hk
  unfold Leases.World.renew
  cases ok with
  | false => rfl
  | true => simp [renewSql, hrow, hne]

end Table

section Held

variable {l l' : Leases.World} {a : Action} {me : ReplicaId} {key : StreamKey}

theorem renew_held (l : Leases.World) (me : ReplicaId) (lease : Lease) (ok : Bool) :
    (l.renew me lease ok).1.held = l.held := by
  cases ok <;> rfl

/-- The three steps that write to a mirror. -/
inductive HeldStep (l l' : Leases.World) : Action → Prop
  | same {a : Action} (held : l'.held = l.held) : HeldStep l l' a
  | record (call : Nat) (me : ReplicaId) (lease : Lease)
      (call_eq : l.calls call = some (me, .acquired lease))
      (held : l'.held = Function.update l.held me (insertHeld (l.held me) lease)) :
      HeldStep l l' (.recordHeld call)
  | forget (call : Nat) (me : ReplicaId) (key : StreamKey)
      (held : l'.held = Function.update l.held me (removeHeld (l.held me) key)) :
      HeldStep l l' (.forgetHeld call me key)
  | drop (call : Nat) (me : ReplicaId) (lease : Lease) (rest : List Lease)
      (call_eq : l.calls call = some (me, .lost lease rest))
      (held : l'.held = Function.update l.held me (removeHeld (l.held me) lease.streamKey)) :
      HeldStep l l' (.dropLost call)

theorem step_held (h : l.step a = some l') : HeldStep l l' a := by
  cases a with
  | tick elapsed =>
    cases h
    exact .same rfl
  | renew me lease ok =>
    cases h
    exact .same (renew_held l me lease ok)
  | heartbeatRenew call ok =>
    simp only [Leases.World.step] at h
    split at h
    · rename_i me lease rest _
      have hr := renew_held l me lease ok
      split at h <;> rename_i l₁ hl <;> cases h
      all_goals
        rw [hl] at hr
        exact .same hr
    · cases h
      exact .same rfl
    · cases h
  | recordHeld call =>
    simp only [Leases.World.step] at h
    split at h <;> cases h
    exact .record call _ _ ‹_› rfl
  | forgetHeld call me key =>
    simp only [Leases.World.step] at h
    split at h <;> cases h
    exact .forget call me key rfl
  | dropLost call =>
    simp only [Leases.World.step] at h
    split at h <;> cases h
    exact .drop call _ _ _ ‹_› rfl
  | _ =>
    simp only [Leases.World.step, Leases.World.tryAcquire] at h
    repeat' first | split at h | cases h
    all_goals exact .same rfl

/-- An entry appears only when an acquired lease is recorded. -/
theorem owns_origin (h : l.step a = some l') (ho : l'.owns me key = true) :
    l.owns me key = true ∨ ∃ call epoch, a = .recordHeld call ∧
      l.calls call = some (me, .acquired ⟨key, epoch⟩) := by
  rw [mem_owns] at ho ⊢
  cases step_held h with
  | same held =>
    rw [held] at ho
    exact Or.inl ho
  | record call who lease call_eq held =>
    rw [held] at ho
    by_cases hw : me = who
    · subst hw
      rw [Function.update_self, mem_insertHeld] at ho
      rcases ho with rfl | ho
      · exact Or.inr ⟨call, lease.epoch, rfl, call_eq⟩
      · exact Or.inl ho
    · rw [Function.update_of_ne hw] at ho
      exact Or.inl ho
  | forget call who k held | drop call who lease rest call_eq held =>
    rw [held] at ho
    by_cases hw : me = who
    · subst hw
      rw [Function.update_self, mem_removeHeld] at ho
      exact Or.inl ho.2
    · rw [Function.update_of_ne hw] at ho
      exact Or.inl ho

/-- An entry disappears with a release or with a lease given up for lost. -/
theorem owns_kept (h : l.step a = some l') (ho : l.owns me key = true)
    (hforget : ∀ call, a ≠ .forgetHeld call me key)
    (hdrop : ∀ call lease rest, a = .dropLost call → l.calls call = some (me, .lost lease rest) →
      lease.streamKey ≠ key) : l'.owns me key = true := by
  rw [mem_owns] at ho ⊢
  cases step_held h with
  | same held =>
    rw [held]
    exact ho
  | record call who lease call_eq held =>
    rw [held]
    by_cases hw : me = who
    · subst hw
      rw [Function.update_self, mem_insertHeld]
      exact Or.inr ho
    · rw [Function.update_of_ne hw]
      exact ho
  | forget call who k held =>
    rw [held]
    by_cases hw : me = who
    · subst hw
      rw [Function.update_self, mem_removeHeld]
      refine ⟨?_, ho⟩
      intro he
      exact hforget call (by rw [he])
    · rw [Function.update_of_ne hw]
      exact ho
  | drop call who lease rest call_eq held =>
    rw [held]
    by_cases hw : me = who
    · subst hw
      rw [Function.update_self, mem_removeHeld]
      exact ⟨fun he => hdrop call lease rest rfl call_eq he.symm, ho⟩
    · rw [Function.update_of_ne hw]
      exact ho

theorem owns_recorded {call epoch : Nat} (h : l.step (.recordHeld call) = some l')
    (hcall : l.calls call = some (me, .acquired ⟨key, epoch⟩)) : l'.owns me key = true := by
  simp only [Leases.World.step, hcall, Option.some.injEq] at h
  subst h
  simp [Leases.World.owns, insertHeld]

end Held

section Beat

/-- The streams a heartbeat has yet to renew or to drop. -/
def pendingKeys : Call → Option (List StreamKey)
  | .renewing rest => some (rest.map Lease.streamKey)
  | .lost lease rest => some (lease.streamKey :: rest.map Lease.streamKey)
  | _ => none

variable {l l' : Leases.World} {a : Action} {me : ReplicaId} {call : Nat}

/-- How a heartbeat comes to be where it is. -/
inductive BeatStep (l : Leases.World) (call : Nat) (me : ReplicaId) : Action → Call → Prop
  | same {a : Action} {c : Call} (idle : l.calls call = some (me, c)) : BeatStep l call me a c
  | begin {leases : List Lease} (held : leases.Perm (l.held me)) :
      BeatStep l call me (.heartbeat call me leases) (.renewing leases)
  | renewed {lease : Lease} {rest : List Lease} {ok : Bool}
      (call_eq : l.calls call = some (me, .renewing (lease :: rest)))
      (renewed : (l.renew me lease ok).2 = true) :
      BeatStep l call me (.heartbeatRenew call ok) (.renewing rest)
  | lost {lease : Lease} {rest : List Lease} {ok : Bool}
      (call_eq : l.calls call = some (me, .renewing (lease :: rest))) :
      BeatStep l call me (.heartbeatRenew call ok) (.lost lease rest)
  | dropped {lease : Lease} {rest : List Lease}
      (call_eq : l.calls call = some (me, .lost lease rest)) :
      BeatStep l call me (.dropLost call) (.renewing rest)

theorem step_beat (h : l.step a = some l') {c : Call} {keys : List StreamKey}
    (hcall : l'.calls call = some (me, c)) (hkeys : pendingKeys c = some keys) :
    BeatStep l call me a c := by
  by_cases hof : callOf a = some call
  · cases a with
    | tick elapsed | renew => cases hof
    | tryAcquire _ who key ok =>
      cases hof
      simp only [Leases.World.step, Leases.World.tryAcquire] at h
      repeat' first | split at h | cases h
      all_goals first
        | exact .same hcall
        | (simp only [Function.update_self, Option.some.injEq, Prod.mk.injEq] at hcall
           obtain ⟨-, rfl⟩ := hcall
           cases hkeys)
    | recordHeld =>
      cases hof
      simp only [Leases.World.step] at h
      split at h <;> cases h
      simp [Leases.World.setCall] at hcall
    | forgetHeld =>
      cases hof
      simp only [Leases.World.step] at h
      split at h <;> cases h
      simp only [Leases.World.setCall, Function.update_self] at hcall
      cases hcall
      cases hkeys
    | release =>
      cases hof
      simp only [Leases.World.step] at h
      split at h <;> cases h
      simp [Leases.World.setCall] at hcall
    | heartbeat _ who leases =>
      cases hof
      simp only [Leases.World.step] at h
      split at h
      · split at h
        · rename_i hperm
          cases h
          simp only [Leases.World.setCall, Function.update_self] at hcall
          cases hcall
          exact .begin hperm
        · cases h
      · cases h
    | heartbeatRenew _ ok =>
      cases hof
      simp only [Leases.World.step] at h
      split at h
      · rename_i who lease rest hc
        split at h <;> rename_i l₁ hr <;> cases h
        all_goals
          simp only [Leases.World.setCall, Function.update_self] at hcall
          cases hcall
        · exact .renewed hc (by rw [hr])
        · exact .lost hc
      · cases h
        simp [Leases.World.setCall] at hcall
      · cases h
    | dropLost =>
      cases hof
      simp only [Leases.World.step] at h
      split at h
      · rename_i hc
        cases h
        simp only [Leases.World.setCall, Function.update_self] at hcall
        cases hcall
        exact .dropped hc
      · cases h
  · rw [calls_frame h hof] at hcall
    exact .same hcall

end Beat

section Calls

variable {l l' : Leases.World} {a : Action} {me : ReplicaId} {key : StreamKey} {call : Nat}

/-- An acquire is granted and waits to be recorded, or leaves no trace. -/
theorem tryAcquire_reply {ok : Bool} (h : l.step (.tryAcquire call me key ok) = some l') :
    (∃ epoch, granted l (.tryAcquire call me key ok) = some (me, key) ∧
      l'.calls call = some (me, .acquired ⟨key, epoch⟩)) ∨
    (granted l (.tryAcquire call me key ok) = none ∧ l' = l ∧ l.calls call = none) := by
  have hnone : l.calls call = none := by
    cases hc : l.calls call with
    | none => rfl
    | some c => simp [Leases.World.step, Leases.World.tryAcquire, hc] at h
  simp only [Leases.World.step, Leases.World.tryAcquire, hnone] at h
  cases ok with
  | false =>
    cases h
    exact Or.inr ⟨by simp [granted], rfl, hnone⟩
  | true =>
    rcases tryAcquireSql_spec l.now (l.ttl me) me key l.table with he | ⟨epoch, he, _⟩
    · simp only [he, ↓reduceIte, Option.some.injEq] at h
      exact Or.inr ⟨by simp [granted, he], h.symm, hnone⟩
    · simp only [he, ↓reduceIte, Option.some.injEq] at h
      subst h
      exact Or.inl ⟨epoch, by simp [granted, he, hnone], Function.update_self ..⟩

/-- An acquired lease waits to be recorded and a release for its `DELETE`,
whatever else happens. -/
theorem parked_frame {c : Call} (h : l.step a = some l') (hcall : l.calls call = some (me, c))
    (hc : c = .released key ∨ ∃ epoch, c = .acquired ⟨key, epoch⟩) (hrec : a ≠ .recordHeld call)
    (hrel : ∀ ok, a ≠ .release call ok) : l'.calls call = some (me, c) := by
  rw [← hcall]
  apply calls_frame h
  intro hof
  cases a with
  | tick | renew => cases hof
  | recordHeld =>
    cases hof
    exact hrec rfl
  | release _ ok =>
    cases hof
    exact hrel ok rfl
  | _ =>
    cases hof
    rcases hc with rfl | ⟨epoch, rfl⟩ <;>
      simp [Leases.World.step, Leases.World.tryAcquire, hcall] at h

end Calls

/-- A lease that counts as acquired is the replica's in the table, and in the
mirror unless a call is about to see to it. An entry for another's row has gone
unnoticed so far, and every heartbeat begun since has yet to come to it. -/
structure Inv (w : World) : Prop where
  acquired : ∀ me key, w.acquired me key = true → Owns w.leases.table me key ∧
    (w.leases.owns me key = true ∨ ∃ call c, w.leases.calls call = some (me, c) ∧
      (c = .released key ∨ ∃ epoch, c = .acquired ⟨key, epoch⟩))
  stale : ∀ me key, foreign w.leases.table me key = true → w.leases.owns me key = true →
    w.noticed me key = false ∧ ∀ call ∈ w.begun me key, ∀ c keys,
      w.leases.calls call = some (me, c) → pendingKeys c = some keys → key ∈ keys
  own : ∀ me key, foreign w.leases.table me key = false →
    w.begun me key = [] ∧ w.noticed me key = false

theorem Inv.agrees {w : World} (h : Inv w) : Agrees w := by
  intro me key
  constructor
  · intro hquiet hacq
    rcases (h.acquired me key hacq).2 with ho | ⟨call, c, hc, _⟩
    · exact ho
    · exact absurd hc (hquiet call c)
  · intro hf hn
    by_contra ho
    rw [Bool.not_eq_false] at ho
    have hunnoticed := (h.stale me key hf ho).1
    rw [hn] at hunnoticed
    cases hunnoticed

theorem Inv.start (now : Int) (table : Table) (ttl : ReplicaId → Int) :
    Inv (World.start now table ttl) := by
  refine ⟨?_, ?_, fun _ _ _ => ⟨rfl, rfl⟩⟩
  · intro me key h
    cases h
  · intro me key _ h
    cases h

section Step

variable {w w' : World} {a : Action}

theorem step_eq (h : w.step a = some w') :
    ∃ l, w.leases.step a = some l ∧ w' = w.observe a l := by
  obtain ⟨l, hl, rfl⟩ := Option.map_eq_some_iff.mp h
  exact ⟨l, hl, rfl⟩

/-- What makes a lease count as acquired. -/
theorem nowAcquired_cases {l : Leases.World} {me : ReplicaId} {key : StreamKey}
    (hl : w.leases.step a = some l) (h : w.nowAcquired l a me key = true) :
    (∃ call epoch, a = .tryAcquire call me key true ∧ granted w.leases a = some (me, key) ∧
      l.calls call = some (me, .acquired ⟨key, epoch⟩)) ∨
    (w.acquired me key = true ∧
      (∀ call other, a = .tryAcquire call other key true →
        granted w.leases a = some (other, key) → other = me) ∧
      ∀ call, a = .release call true → w.leases.calls call ≠ some (me, .released key)) := by
  cases a with
  | tryAcquire call who k ok =>
    cases ok with
    | false => exact Or.inr ⟨h, by simp, by simp⟩
    | true =>
      by_cases hk : key = k
      · subst hk
        simp only [World.nowAcquired, ↓reduceIte] at h
        rcases tryAcquire_reply hl with ⟨epoch, hgrant, hcall⟩ | ⟨hrefused, rfl, hnone⟩
        · have hme : me = who := by simpa [hcall] using h
          subst hme
          exact Or.inl ⟨call, epoch, rfl, hgrant, hcall⟩
        · simp only [hnone, Option.isSome_none, Bool.false_eq_true, ↓reduceIte,
            Bool.and_eq_true] at h
          refine Or.inr ⟨h.2, ?_, by simp⟩
          intro c other _ hgrant
          rw [hrefused] at hgrant
          cases hgrant
      · simp only [World.nowAcquired, hk, ↓reduceIte] at h
        refine Or.inr ⟨h, ?_, by simp⟩
        intro c other ha
        cases ha
        exact absurd rfl hk
  | release call ok =>
    cases ok with
    | false => exact Or.inr ⟨h, by simp, by simp⟩
    | true =>
      simp only [World.nowAcquired, Bool.and_eq_true, decide_eq_true_eq] at h
      refine Or.inr ⟨h.1, by simp, ?_⟩
      intro c ha
      cases ha
      exact h.2
  | _ => exact Or.inr ⟨h, by simp, by simp⟩

theorem Inv.acquired_step (h : Inv w) (hok : Sound w a) (hs : w.step a = some w')
    (me : ReplicaId) (key : StreamKey) (hacq : w'.acquired me key = true) :
    Owns w'.leases.table me key ∧
    (w'.leases.owns me key = true ∨ ∃ call c, w'.leases.calls call = some (me, c) ∧
      (c = .released key ∨ ∃ epoch, c = .acquired ⟨key, epoch⟩)) := by
  obtain ⟨l, hl, rfl⟩ := step_eq hs
  rcases nowAcquired_cases hl hacq with ⟨call, epoch, rfl, hgrant, hcall⟩ | ⟨hold, hother, hrel⟩
  · exact ⟨owns_of_granted hl hgrant, Or.inr ⟨call, _, hcall, Or.inr ⟨epoch, rfl⟩⟩⟩
  · obtain ⟨hrow, hmirror⟩ := h.acquired me key hold
    constructor
    · apply owns_step hl hrow hrel
      intro call other ha htake
      subst ha
      obtain ⟨row, hat, hown, hne, _⟩ := htake
      rcases tryAcquire_reply hl with ⟨_, hgrant, _⟩ | ⟨_, rfl, _⟩
      · exact hne (hother call other rfl hgrant).symm
      · exact hne (Owns.unique ⟨row, hat, hown⟩ (owns_of_takesOver hl ⟨row, hat, hown, hne, ‹_›⟩))
    · rcases hmirror with ho | ⟨call, c, hcall, hc⟩
      · by_cases hforget : ∃ call, a = .forgetHeld call me key
        · obtain ⟨call, rfl⟩ := hforget
          exact Or.inr ⟨call, _, forgetHeld_calls hl, Or.inl rfl⟩
        · refine Or.inl (owns_kept hl ho (fun call ha => hforget ⟨call, ha⟩) ?_)
          intro call lease rest ha hcall hk
          subst ha hk
          exact hok me lease rest hcall hrow
      · by_cases hrec : a = .recordHeld call
        · subst hrec
          rcases hc with rfl | ⟨epoch, rfl⟩
          · simp [Leases.World.step, hcall] at hl
          · exact Or.inl (owns_recorded hl hcall)
        · refine Or.inr ⟨call, c, parked_frame hl hcall hc hrec ?_, hc⟩
          intro ok ha
          subst ha
          rcases hc with rfl | ⟨epoch, rfl⟩
          · cases ok with
            | true => exact hrel call rfl hcall
            | false => exact hok me key hcall hrow
          · simp [Leases.World.step, hcall] at hl

/-- A replica with an entry for another's row is not told of it in a sound step. -/
theorem Inv.not_notices (h : Inv w) (hok : Sound w a) {l : Leases.World}
    (hl : w.leases.step a = some l) {me : ReplicaId} {key : StreamKey}
    (hf : foreign w.leases.table me key = true) (ho : w.leases.owns me key = true) :
    w.notices l a me key = false := by
  cases a with
  | tryAcquire call who k ok =>
    simp only [World.notices, Bool.and_eq_false_iff, decide_eq_false_iff_not]
    by_cases hkey : me = who ∧ key = k
    · obtain ⟨rfl, rfl⟩ := hkey
      right
      have hgrant := hok ho hf
      rcases tryAcquire_reply hl with ⟨epoch, _, hcall⟩ | ⟨hrefused, _⟩
      · simp [hcall]
      · rw [hrefused] at hgrant
        cases hgrant
    · left
      exact not_and_or.mp hkey
  | heartbeatRenew call ok =>
    simp only [World.notices, Bool.and_eq_false_iff, decide_eq_false_iff_not]
    by_cases hcall : w.leases.calls call = some (me, .renewing [])
    · right
      rw [Bool.eq_false_iff]
      intro hmem
      have hpending := (h.stale me key hf ho).2 call (by simpa using hmem) _ _ hcall rfl
      cases hpending
    · exact Or.inl hcall
  | _ => rfl

/-- A heartbeat begun since the row became another's has yet to come to it. -/
theorem Inv.pending_step (h : Inv w) {l : Leases.World} (hl : w.leases.step a = some l)
    {me : ReplicaId} {key : StreamKey} (hf : foreign w.leases.table me key = true)
    (ho : w.leases.owns me key = true) (ho' : l.owns me key = true) {call : Nat} {c : Call}
    {keys : List StreamKey} (hmem : call ∈ w.nowBegun a me key)
    (hcall : l.calls call = some (me, c)) (hkeys : pendingKeys c = some keys) : key ∈ keys := by
  have hpending := (h.stale me key hf ho).2
  cases step_beat hl hcall hkeys with
  | same idle =>
    apply hpending call ?_ c keys idle hkeys
    cases a with
    | heartbeat k who leases =>
      simp only [World.nowBegun] at hmem
      split at hmem
      · rcases List.mem_cons.mp hmem with rfl | hmem
        · simp [Leases.World.step, idle] at hl
        · exact hmem
      · exact hmem
    | _ => exact hmem
  | begin held =>
    cases hkeys
    exact (held.map Lease.streamKey).mem_iff.mpr (mem_owns.mp ho)
  | renewed call_eq renewed =>
    cases hkeys
    rcases List.mem_cons.mp (hpending call hmem _ _ call_eq rfl) with he | hrest
    · rw [renew_foreign hf he.symm] at renewed
      cases renewed
    · exact hrest
  | lost call_eq =>
    cases hkeys
    exact hpending call hmem _ _ call_eq rfl
  | @dropped lease rest call_eq =>
    cases hkeys
    rcases List.mem_cons.mp (hpending call hmem _ _ call_eq rfl) with he | hrest
    · simp only [Leases.World.step, call_eq, Option.some.injEq] at hl
      subst hl he
      rw [mem_owns] at ho'
      simp only [Function.update_self, mem_removeHeld] at ho'
      exact absurd rfl ho'.1
    · exact hrest

theorem Inv.stale_step (h : Inv w) (hok : Sound w a) (hs : w.step a = some w')
    (me : ReplicaId) (key : StreamKey) (hf : foreign w'.leases.table me key = true)
    (ho : w'.leases.owns me key = true) :
    w'.noticed me key = false ∧ ∀ call ∈ w'.begun me key, ∀ c keys,
      w'.leases.calls call = some (me, c) → pendingKeys c = some keys → key ∈ keys := by
  obtain ⟨l, hl, rfl⟩ := step_eq hs
  simp only [World.observe] at hf ho ⊢
  simp only [hf, Bool.true_and, ↓reduceIte]
  cases hwas : foreign w.leases.table me key with
  | false =>
    obtain ⟨hbegun, hnoticed⟩ := h.own me key hwas
    rcases foreign_step hl hf with hfold | ⟨call, other, hne, rfl, _⟩
    · rw [hwas] at hfold
      cases hfold
    · simp [World.notices, World.nowBegun, hbegun, hnoticed, hne.symm]
  | true =>
    have hown : w.leases.owns me key = true := by
      rcases owns_origin hl ho with hown | ⟨call, epoch, rfl, hcall⟩
      · exact hown
      · have hours := hok me ⟨key, epoch⟩ hcall
        rw [hwas] at hours
        cases hours
    refine ⟨?_, fun call hmem c keys hcall hkeys => ?_⟩
    · rw [(h.stale me key hwas hown).1, h.not_notices hok hl hwas hown]
      rfl
    · exact h.pending_step hl hwas hown ho hmem hcall hkeys

theorem Inv.step (h : Inv w) (hok : Sound w a) (hs : w.step a = some w') : Inv w' := by
  refine ⟨h.acquired_step hok hs, h.stale_step hok hs, ?_⟩
  intro me key hf
  obtain ⟨l, _, rfl⟩ := step_eq hs
  simp only [World.observe] at hf ⊢
  simp [hf]

end Step

/-- The mirror agrees with the lease table throughout every run that drops no
entry and fails no release while the row is the replica's own, records no lease
that another replica has taken meanwhile, and has no acquire refused while an
entry for the stream is left. -/
theorem held_mirror_agrees (now : Int) (table : Table) (ttl : ReplicaId → Int) (as : List Action)
    (h : Machine.Steps World.step Sound (World.start now table ttl) as) :
    Machine.Always World.step Agrees (World.start now table ttl) as :=
  Machine.always_mono (fun _ => Inv.agrees)
    (Machine.always_of_steps (fun _ _ _ hi hok hs => hi.step hok hs) (.start now table ttl) h)

/-- `b` takes an expired lease over from `a`, whose next heartbeat finds out. -/
def takenOver : List Action :=
  [.tryAcquire 0 "a" "s" true, .recordHeld 0, .tick 31, .tryAcquire 1 "b" "s" true,
    .recordHeld 1, .heartbeat 2 "a" [⟨"s", 1⟩], .heartbeatRenew 2 true, .dropLost 2,
    .heartbeatRenew 2 true]

def noLeases : World := World.start 0 (fun _ => none) fun _ => 30

theorem takenOver_sound : Machine.Steps World.step Sound noLeases takenOver := by
  refine Machine.steps_cons ?_ rfl (Machine.steps_cons ?_ rfl (Machine.steps_cons trivial rfl
    (Machine.steps_cons ?_ rfl (Machine.steps_cons ?_ rfl (Machine.steps_cons trivial rfl
    (Machine.steps_cons trivial rfl (Machine.steps_cons ?_ rfl
    (Machine.steps_cons trivial rfl trivial))))))))
  · intro howns
    cases howns
  · intro me lease hcall
    cases hcall
    rfl
  · intro howns
    cases howns
  · intro me lease hcall
    cases hcall
    rfl
  · intro me lease rest hcall howns
    cases hcall
    obtain ⟨row, hrow, hown⟩ := howns
    cases hrow
    revert hown
    decide

theorem takenOver_agrees : Machine.Always World.step Agrees noLeases takenOver :=
  held_mirror_agrees 0 (fun _ => none) (fun _ => 30) takenOver takenOver_sound

/-- A heartbeat's renewal fails, the stream is acquired again, and the entry of
the new lease is dropped for the old one. -/
def droppedAnew : List Action :=
  [.tryAcquire 0 "a" "s" true, .recordHeld 0, .heartbeat 1 "a" [⟨"s", 1⟩],
    .heartbeatRenew 1 false, .tryAcquire 2 "a" "s" true, .recordHeld 2, .dropLost 1,
    .heartbeatRenew 1 true]

theorem heartbeat_drops_new_lease :
    ¬∀ (now : Int) (table : Table) (ttl : ReplicaId → Int) (as : List Action) (w : World),
      Machine.run World.step (World.start now table ttl) as = some w →
      Machine.Always World.step Agrees (World.start now table ttl) as := by
  intro h
  have hall := h 0 (fun _ => none) (fun _ => 30) droppedAnew _ rfl
  have hend := Machine.always_end hall rfl
  have howns := (hend "a" "s").1 ?_ rfl
  · cases howns
  · intro call c hcall
    match call with
    | 0 | 1 | 2 => cases hcall
    | n + 3 => cases hcall

end Prospero.Proofs.HeldMirror
