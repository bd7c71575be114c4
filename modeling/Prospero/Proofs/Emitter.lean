import Prospero.Emitter
import Prospero.Lib.Machine
import Prospero.Proofs.Store

namespace Prospero.Proofs.Emitter
open Prospero.Emitter

variable {π : Type}

/-- Phases in which the write has yet to see its `append` succeed or give up. -/
def Pending : Phase → Prop
  | .publish _ | .done => False
  | _ => True

theorem Pending.not_done {phase : Phase} (h : Pending phase) : phase ≠ .done := by
  intro he
  rw [he] at h
  exact h

/-- What a step does to the one write that takes it, to the log and to the bus. -/
inductive Effect (w w' : World π) : Action π → Prop
  | begin (task : Nat) (process : π) (draft : FleetEvent) (idle : w.writes (.event task) = none)
      (writes : w'.writes = Function.update w.writes (.event task) (some (.begin process draft)))
      (log : w'.log = w.log) (published : w'.published = w.published) :
      Effect w w' (.emit task process draft)
  | advance {a : Action π} (id : WriteId) (x : Write π) (seq : Nat) (phase : Phase)
      (slot : w.writes id = some x) (pending : Pending x.phase) (pending' : Pending phase)
      (numbered : phase = .append → 0 < seq)
      (writes : w'.writes = Function.update w.writes id
        (some { x with event := { x.event with seq := seq }, phase := phase }))
      (log : w'.log = w.log) (published : w'.published = w.published) : Effect w w' a
  | append (id : WriteId) (reply : Reply) (x : Write π) (result : Except CoreError Unit)
      (rows : List Row) (slot : w.writes id = some x) (phase : x.phase = .append)
      (ran : reply = .ran → result = (Store.append x.event w.events).map fun _ => ())
      (stored : result = .ok () → rows = [⟨x.event, some id⟩])
      (rejected : result = .error .seqConflict → rows = [])
      (fresh : rows = [] ∨
        rows = [⟨x.event, some id⟩] ∧ x.event.key ∉ w.events.map FleetEvent.key)
      (writes : w'.writes = Function.update w.writes id (some (x.appended result)))
      (log : w'.log = w.log ++ rows) (published : w'.published = w.published) :
      Effect w w' (.append id reply)
  | publish (id : WriteId) (markerTs : String) (x : Write π) (err : Option CoreError)
      (slot : w.writes id = some x) (phase : x.phase = .publish err)
      (eq : w' = w.publish id x err markerTs) : Effect w w' (.publish id markerTs)

theorem append_effect {w : World π} {id : WriteId} {x : Write π} (reply : Reply)
    (hx : w.writes id = some x) (hphase : x.phase = .append) :
    Effect w (w.append id x reply) (.append id reply) := by
  cases reply with
  | ran =>
    cases hstore : Store.append x.event w.events with
    | ok log =>
      refine .append id _ x (.ok ()) [⟨x.event, some id⟩] hx hphase (fun _ => by rw [hstore]; rfl)
        (fun _ => rfl) (by simp) (.inr ⟨rfl, (Store.append_eq_ok.mp hstore).1⟩) ?_ ?_ ?_
      all_goals simp [World.append, hstore, World.setWrite, World.insert]
    | error e =>
      refine .append id _ x (.error e) [] hx hphase (fun _ => by rw [hstore]; rfl)
        (by simp) (fun _ => rfl) (.inl rfl) ?_ ?_ ?_
      all_goals simp [World.append, hstore, World.setWrite]
  | failed message applied =>
    by_cases happ : applied = true ∧ ∃ log, Store.append x.event w.events = .ok log
    · obtain ⟨rfl, log, hstore⟩ := happ
      refine .append id _ x (.error (Store.mapAppendError (.other message))) [⟨x.event, some id⟩] hx
        hphase (by simp) (by simp) (by simp [Store.mapAppendError])
        (.inr ⟨rfl, (Store.append_eq_ok.mp hstore).1⟩) ?_ ?_ ?_
      all_goals simp [World.append, hstore, World.setWrite, World.insert]
    · have hw : w.append id x (.failed message applied) =
          w.setWrite id (x.appended (.error (Store.mapAppendError (.other message)))) := by
        simp only [World.append]
        split
        · exact absurd ⟨rfl, _, ‹_›⟩ happ
        · rfl
      rw [hw]
      exact .append id _ x (.error _) [] hx hphase (by simp) (by simp) (fun _ => rfl) (.inl rfl) rfl
        (by simp [World.setWrite]) rfl

section

variable [DecidableEq π]

/-- What an enabled action finds, and the world it leaves. -/
inductive Performs (w : World π) : Action π → World π → Prop
  | emit (task : Nat) (process : π) (draft : FleetEvent) (idle : w.writes (.event task) = none) :
      Performs w (.emit task process draft) (w.setWrite (.event task) (.begin process draft))
  | next (id : WriteId) (x : Write π) (n : Nat) (slot : w.writes id = some x)
      (phase : x.phase = .nextSeq) (known : w.seqs x.process x.streamKey = some n) :
      Performs w (.nextSeq id) (w.allocate id x (n + 1))
  | unseeded (id : WriteId) (x : Write π) (slot : w.writes id = some x)
      (phase : x.phase = .nextSeq) :
      Performs w (.nextSeq id) (w.setWrite id { x with phase := .highWater })
  | highWater (id : WriteId) (ok : Bool) (x : Write π) (slot : w.writes id = some x)
      (phase : x.phase = .highWater) : Performs w (.highWater id ok) (w.highWater id x ok)
  | seed (id : WriteId) (x : Write π) (seeded : Nat) (slot : w.writes id = some x)
      (phase : x.phase = .seeded seeded) :
      Performs w (.seed id) (w.allocate id x ((w.seqs x.process x.streamKey).getD seeded + 1))
  | append (id : WriteId) (reply : Reply) (x : Write π) (slot : w.writes id = some x)
      (phase : x.phase = .append) : Performs w (.append id reply) (w.append id x reply)
  | reseed (id : WriteId) (x : Write π) (slot : w.writes id = some x)
      (phase : x.phase = .reseed) : Performs w (.reseed id) (w.reseed id x)
  | publish (id : WriteId) (markerTs : String) (x : Write π) (err : Option CoreError)
      (slot : w.writes id = some x) (phase : x.phase = .publish err) :
      Performs w (.publish id markerTs) (w.publish id x err markerTs)

theorem step_performs {w w' : World π} {a : Action π} (h : w.step a = some w') :
    Performs w a w' := by
  cases a with
  | emit task process draft =>
    simp only [World.step] at h
    split at h <;> cases h
    exact .emit task process draft ‹_›
  | nextSeq id =>
    obtain ⟨x, hx, h⟩ := Option.bind_eq_some_iff.mp h
    split at h <;> cases h
    unfold World.nextSeq
    split
    · exact .next id x _ hx ‹_› ‹_›
    · exact .unseeded id x hx ‹_›
  | seed id =>
    obtain ⟨x, hx, h⟩ := Option.bind_eq_some_iff.mp h
    split at h <;> cases h
    rename_i seeded hseeded
    have hseed : w.seed id x seeded =
        w.allocate id x ((w.seqs x.process x.streamKey).getD seeded + 1) := by
      unfold World.seed
      split <;> simp [*]
    exact hseed ▸ .seed id x seeded hx hseeded
  | highWater id ok | append id reply | reseed id | publish id markerTs =>
    obtain ⟨x, hx, h⟩ := Option.bind_eq_some_iff.mp h
    split at h <;> cases h
    constructor <;> assumption

theorem step_effect {w w' : World π} {a : Action π} (h : w.step a = some w') : Effect w w' a := by
  cases step_performs h with
  | emit task process draft idle => exact .begin task process draft idle rfl rfl rfl
  | next id x n slot phase known =>
    exact .advance id x (n + 1) .append slot (by simp [phase, Pending]) trivial
      (fun _ => Nat.succ_pos _) rfl rfl rfl
  | unseeded id x slot phase =>
    exact .advance id x x.event.seq .highWater slot (by simp [phase, Pending]) trivial (by simp)
      rfl rfl rfl
  | highWater id ok x slot phase =>
    exact .advance id x x.event.seq (.seeded _) slot (by simp [phase, Pending]) trivial (by simp)
      rfl rfl rfl
  | seed id x seeded slot phase =>
    exact .advance id x _ .append slot (by simp [phase, Pending]) trivial
      (fun _ => Nat.succ_pos _) rfl rfl rfl
  | append id reply x slot phase => exact append_effect reply slot phase
  | reseed id x slot phase =>
    exact .advance id x x.event.seq .nextSeq slot (by simp [phase, Pending]) trivial (by simp)
      rfl rfl rfl
  | publish id markerTs x err slot phase => exact .publish id markerTs x err slot phase rfl

end

def rowsOf (log : List Row) (id : WriteId) : List Row :=
  log.filter fun r => r.writer = some id

theorem rowsOf_other {log rows : List Row} {id other : WriteId} (h : other ≠ id)
    (hrows : ∀ r ∈ rows, r.writer = some id) : rowsOf (log ++ rows) other = rowsOf log other := by
  have : rows.filter (fun r => r.writer = some other) = [] := by
    apply List.filter_eq_nil_iff.mpr
    intro r hr
    simp [hrows r hr, Ne.symm h]
  simp [rowsOf, this]

/-- What the log and the retry count hold for one write slot. -/
structure SlotOk (log : List Row) (id : WriteId) (x : Write π) : Prop where
  appends : x.appends ≤ seqConflictRetries + 1
  pending : Pending x.phase →
    rowsOf log id = [] ∧ x.appends = x.attempts ∧ x.attempts ≤ seqConflictRetries
  numbered : (x.phase = .append ∨ ∃ err, x.phase = .publish err) → 0 < x.event.seq
  persisted : x.phase = .publish none → rowsOf log id = [⟨x.event, some id⟩]

theorem SlotOk.begin {log : List Row} {id : WriteId} (h : rowsOf log id = []) (process : π)
    (draft : FleetEvent) : SlotOk log id (.begin process draft : Write π) :=
  ⟨Nat.zero_le _, fun _ => ⟨h, rfl, Nat.zero_le _⟩, by simp [Write.begin], by simp [Write.begin]⟩

theorem SlotOk.advance {log : List Row} {id : WriteId} {x : Write π} {seq : Nat} {phase : Phase}
    (h : SlotOk log id x) (hp : Pending x.phase) (hp' : Pending phase)
    (hn : phase = .append → 0 < seq) :
    SlotOk log id { x with event := { x.event with seq := seq }, phase := phase } := by
  refine ⟨h.appends, fun _ => h.pending hp, ?_, ?_⟩
  · intro hphase
    rcases hphase with ha | ⟨err, he⟩
    · exact hn ha
    · subst he
      exact hp'.elim
  · intro he
    subst he
    exact hp'.elim

theorem SlotOk.append {log rows : List Row} {id : WriteId} {x : Write π}
    {result : Except CoreError Unit} (h : SlotOk log id x) (hphase : x.phase = .append)
    (hstored : result = .ok () → rows = [⟨x.event, some id⟩])
    (hrejected : result = .error .seqConflict → rows = []) :
    SlotOk (log ++ rows) id (x.appended result) := by
  obtain ⟨hr, he, hl⟩ := h.pending (by simp [hphase, Pending])
  have hn := h.numbered (.inl hphase)
  rcases result with e | ⟨⟩
  · cases e with
    | store message =>
      refine ⟨?_, ?_, fun _ => hn, ?_⟩ <;> simp only [Write.appended]
      · omega
      · exact False.elim
      · simp
    | seqConflict =>
      rw [hrejected rfl, List.append_nil]
      by_cases hlt : x.attempts < seqConflictRetries
      all_goals
        refine ⟨?_, ?_, ?_, ?_⟩ <;> simp only [Write.appended, hlt, ↓reduceIte]
      · omega
      · exact fun _ => ⟨hr, by omega, by omega⟩
      · simp
      · simp
      · omega
      · exact False.elim
      · exact fun _ => hn
      · simp
  · rw [hstored rfl]
    refine ⟨?_, ?_, fun _ => hn, fun _ => ?_⟩
    · simp only [Write.appended]
      omega
    · exact False.elim
    · simp only [rowsOf] at hr ⊢
      simp [hr, Write.appended]

structure Inv (w : World π) : Prop where
  unique : (w.events.map FleetEvent.key).Nodup
  idle : ∀ id, w.writes id = none → rowsOf w.log id = []
  slots : ∀ id x, w.writes id = some x → SlotOk w.log id x
  markers : ∀ task x, w.writes (.marker task) = some x →
    ∃ y, w.writes (.event task) = some y ∧ y.phase = .done
  announced : ∀ id x, w.writes id = some x → x.phase = .done → ∃ p ∈ w.published, p.writer = id
  past : ∀ p ∈ w.published, (∃ x, w.writes p.writer = some x ∧ x.phase = .done) ∧
    0 < p.event.seq ∧ (p.err = none → rowsOf w.log p.writer = [⟨p.event, some p.writer⟩])

theorem Inv.start {log : List FleetEvent} (h : (log.map FleetEvent.key).Nodup) :
    Inv (World.start log : World π) where
  unique := by simpa [World.start, World.events, Function.comp_def] using h
  idle := by simp [World.start, rowsOf]
  slots := by simp [World.start]
  markers := by simp [World.start]
  announced := by simp [World.start]
  past := by simp [World.start]

/-- One slot moves on, taking in rows and making publications of its own:
nobody else's rows, slot or publication is touched. -/
theorem Inv.move {w w' : World π} {id : WriteId} {x' : Write π} (h : Inv w) (rows : List Row)
    (said : List (Publication π))
    (hwrites : w'.writes = Function.update w.writes id (some x'))
    (hlog : w'.log = w.log ++ rows) (hpublished : w'.published = w.published ++ said)
    (hunique : (w'.events.map FleetEvent.key).Nodup) (hrows : ∀ r ∈ rows, r.writer = some id)
    (hlive : ∀ x, w.writes id = some x → x.phase ≠ .done)
    (hmarker : ∀ task, id = .marker task → ∃ y, w.writes (.event task) = some y ∧ y.phase = .done)
    (hok : SlotOk w'.log id x') (hdone : x'.phase = .done → said ≠ [])
    (hsaid : ∀ p ∈ said, p.writer = id ∧ x'.phase = .done ∧ 0 < p.event.seq ∧
      (p.err = none → rowsOf w'.log id = [⟨p.event, some id⟩])) : Inv w' := by
  have hself : w'.writes id = some x' := by rw [hwrites, Function.update_self]
  have hkept : ∀ other, other ≠ id → w'.writes other = w.writes other := by
    intro other ho
    rw [hwrites, Function.update_of_ne ho]
  have hframe : ∀ other, other ≠ id → rowsOf w'.log other = rowsOf w.log other := by
    intro other ho
    rw [hlog, rowsOf_other ho hrows]
  have hpast : ∀ other y, w.writes other = some y → y.phase = .done → other ≠ id := by
    intro other y hy hd he
    subst he
    exact hlive y hy hd
  refine ⟨hunique, ?_, ?_, ?_, ?_, ?_⟩
  · intro other hnone
    have ho : other ≠ id := by
      intro he
      subst he
      simp [hself] at hnone
    rw [hframe other ho]
    exact h.idle other (hkept other ho ▸ hnone)
  · intro other y hy
    by_cases ho : other = id
    · subst ho
      cases hself.symm.trans hy
      exact hok
    · obtain ⟨ha, hp, hn, hd⟩ := h.slots other y (hkept other ho ▸ hy)
      exact ⟨ha, by rwa [hframe other ho], hn, by rwa [hframe other ho]⟩
  · intro task y hy
    obtain ⟨v, hv, hd⟩ : ∃ v, w.writes (.event task) = some v ∧ v.phase = .done := by
      by_cases ho : WriteId.marker task = id
      · exact hmarker task ho.symm
      · exact h.markers task y (hkept _ ho ▸ hy)
    exact ⟨v, by rw [hkept _ (hpast _ v hv hd), hv], hd⟩
  · intro other y hy hd
    rw [hpublished]
    by_cases ho : other = id
    · subst ho
      cases hself.symm.trans hy
      obtain ⟨p, hp⟩ := List.exists_mem_of_ne_nil _ (hdone hd)
      exact ⟨p, List.mem_append_right _ hp, (hsaid p hp).1⟩
    · obtain ⟨p, hp, he⟩ := h.announced other y (hkept other ho ▸ hy) hd
      exact ⟨p, List.mem_append_left _ hp, he⟩
  · intro p hp
    rw [hpublished] at hp
    rcases List.mem_append.mp hp with hp | hp
    · obtain ⟨⟨v, hv, hd⟩, hn, hr⟩ := h.past p hp
      have ho := hpast _ v hv hd
      exact ⟨⟨v, by rw [hkept _ ho, hv], hd⟩, hn, by rwa [hframe _ ho]⟩
    · obtain ⟨rfl, hd, hn, hr⟩ := hsaid p hp
      exact ⟨⟨x', hself, hd⟩, hn, hr⟩

theorem Inv.begin {w w' : World π} {id : WriteId} {process : π} {draft : FleetEvent} (h : Inv w)
    (hid : w.writes id = none)
    (hmarker : ∀ task, id = .marker task → ∃ y, w.writes (.event task) = some y ∧ y.phase = .done)
    (hwrites : w'.writes = Function.update w.writes id (some (.begin process draft)))
    (hlog : w'.log = w.log) (hpublished : w'.published = w.published) : Inv w' := by
  refine h.move [] [] hwrites (by simp [hlog]) (by simp [hpublished]) ?_
    (by simp) (by simp [hid]) hmarker ?_ (by simp [Write.begin]) (by simp)
  · simpa only [World.events, hlog] using h.unique
  · exact .begin (hlog ▸ h.idle id hid) process draft

theorem Inv.publish {w : World π} {id : WriteId} {x : Write π} {err : Option CoreError} (h : Inv w)
    (hx : w.writes id = some x) (hphase : x.phase = .publish err) (markerTs : String) :
    Inv (w.publish id x err markerTs) := by
  have hslot := h.slots id x hx
  have hlive : x.phase ≠ .done := by simp [hphase]
  have hn := hslot.numbered (.inr ⟨err, hphase⟩)
  have hpub : Inv { w.setWrite id { x with phase := .done } with
      published := w.published ++ [⟨id, x.process, x.event, err⟩] } := by
    have hlog : w.log = w.log ++ [] := (List.append_nil _).symm
    refine h.move [] _ rfl hlog rfl h.unique (by simp) ?_ ?_ ?_ (by simp) ?_
    · intro y hy
      cases hx.symm.trans hy
      exact hlive
    · intro task he
      subst he
      exact h.markers task x hx
    · exact ⟨hslot.appends, False.elim, by simp, by simp⟩
    · intro p hp
      obtain rfl := List.mem_singleton.mp hp
      exact ⟨rfl, rfl, hn, fun herr => hslot.persisted (hphase.trans (congrArg _ herr))⟩
  unfold World.publish
  split
  · rename_i task e
    refine hpub.begin ?_ (fun t ht => ?_) rfl rfl rfl
    · rw [Option.eq_none_iff_forall_ne_some]
      intro y hy
      obtain ⟨v, hv, hd⟩ := h.markers task y (by simpa [World.setWrite] using hy)
      cases hx.symm.trans hv
      exact hlive hd
    · cases ht
      exact ⟨_, by simp [World.setWrite]; rfl, rfl⟩
  · exact hpub

theorem Inv.effect {w w' : World π} {a : Action π} (h : Inv w) (he : Effect w w' a) : Inv w' := by
  have hmarker : ∀ (id : WriteId) (x : Write π), w.writes id = some x → ∀ task, id = .marker task →
      ∃ y, w.writes (.event task) = some y ∧ y.phase = .done := by
    intro id x hx task he
    subst he
    exact h.markers task x hx
  cases he with
  | begin task process draft idle writes log published =>
    exact h.begin idle (by simp) writes log published
  | publish id markerTs x err slot phase eq => exact eq ▸ h.publish slot phase markerTs
  | advance id x seq phase slot pending pending' numbered writes log published =>
    refine h.move [] [] writes (by simp [log]) (by simp [published]) ?_
      (by simp) ?_ (hmarker id x slot) ?_ (fun hd => absurd hd pending'.not_done) (by simp)
    · simpa only [World.events, log] using h.unique
    · intro y hy
      cases slot.symm.trans hy
      exact pending.not_done
    · rw [log]
      exact (h.slots id x slot).advance pending pending' numbered
  | append id reply x result rows slot phase ran stored rejected fresh writes log published =>
    refine h.move rows [] writes log (by simp [published]) ?_ ?_ ?_ (hmarker id x slot) ?_ ?_
      (by simp)
    · rcases fresh with rfl | ⟨rfl, hfresh⟩
      · simpa [World.events, log] using h.unique
      · simp only [World.events, log, List.map_append, List.map_cons, List.map_nil] at hfresh ⊢
        exact List.Nodup.append h.unique (List.nodup_singleton _) (by simpa using hfresh)
    · rcases fresh with rfl | ⟨rfl, -⟩ <;> simp
    · intro y hy
      cases slot.symm.trans hy
      simp [phase]
    · rw [log]
      exact (h.slots id x slot).append phase stored rejected
    · rcases result with e | ⟨⟩
      · cases e <;> simp only [Write.appended]
        · simp
        · split <;> simp
      · simp [Write.appended]

theorem publish_published (w : World π) (id : WriteId) (x : Write π) (err : Option CoreError)
    (markerTs : String) : (w.publish id x err markerTs).published =
      w.published ++ [⟨id, x.process, x.event, err⟩] := by
  unfold World.publish
  split <;> simp [World.setWrite]

theorem publish_log (w : World π) (id : WriteId) (x : Write π) (err : Option CoreError)
    (markerTs : String) : (w.publish id x err markerTs).log = w.log := by
  unfold World.publish
  split <;> simp [World.setWrite]

theorem Effect.bus_grows {w w' : World π} {a : Action π} (h : Effect w w' a) :
    ∃ said, w'.published = w.published ++ said := by
  cases h with
  | begin task process draft idle writes log published => exact ⟨[], by simp [published]⟩
  | advance id x seq phase slot pending pending' numbered writes log published =>
    exact ⟨[], by simp [published]⟩
  | append id reply x result rows slot phase ran stored rejected fresh writes log published =>
    exact ⟨[], by simp [published]⟩
  | publish id markerTs x err slot phase eq => exact ⟨_, eq ▸ publish_published ..⟩

/-- The log is append-only, and what is new in it was written during the run. -/
theorem Effect.log_grows {w w' : World π} {a : Action π} (h : Effect w w' a) :
    ∃ rows, w'.log = w.log ++ rows ∧ ∀ r ∈ rows, r.writer ≠ none := by
  cases h with
  | begin task process draft idle writes log => exact ⟨[], by simp [log], by simp⟩
  | advance id x seq phase slot pending pending' numbered writes log =>
    exact ⟨[], by simp [log], by simp⟩
  | append id reply x result rows slot phase ran stored rejected fresh writes log =>
    refine ⟨rows, log, ?_⟩
    rcases fresh with rfl | ⟨rfl, -⟩ <;> simp
  | publish id markerTs x err slot phase eq =>
    exact ⟨[], by rw [eq, publish_log, List.append_nil], by simp⟩

/-- The write's event is in the log once, and alone under the seq it bears. -/
def Persisted (w : World π) (id : WriteId) (e : FleetEvent) : Prop :=
  rowsOf w.log id = [⟨e, some id⟩] ∧
  w.log.filter (fun r => r.event.key = e.key) = [⟨e, some id⟩]

theorem Inv.persisted {w : World π} {id : WriteId} {e : FleetEvent} (h : Inv w)
    (hr : rowsOf w.log id = [⟨e, some id⟩]) : Persisted w id e := by
  have hm : (⟨e, some id⟩ : Row) ∈ w.log :=
    (List.mem_filter.mp (hr ▸ List.mem_singleton_self _ : _ ∈ rowsOf w.log id)).1
  have hu : (w.log.map fun r => r.event.key).Nodup := by
    simpa [World.events, Function.comp_def] using h.unique
  exact ⟨hr, KeyedLog.filter_key_eq hu hm⟩

variable [DecidableEq π]

theorem run_inv {log : List FleetEvent} {as : List (Action π)} {w : World π}
    (hlog : (log.map FleetEvent.key).Nodup)
    (h : Machine.run World.step (World.start log) as = some w) : Inv w :=
  Machine.run_invariant (fun _ _ _ hi hs => hi.effect (step_effect hs)) (.start hlog) h

/-- Persisted seqs are unique and no append is lost, whatever the interleaving
of processes and the failures of high-water reads. -/
theorem persisted_exactly_once (log : List FleetEvent) (as : List (Action π)) (w : World π)
    (hlog : (log.map FleetEvent.key).Nodup)
    (h : Machine.run World.step (World.start log) as = some w) :
    (∀ id x, w.writes id = some x → x.phase = .publish none → Persisted w id x.event) ∧
    (∀ p ∈ w.published, p.err = none → Persisted w p.writer p.event) ∧
    (w.events.map FleetEvent.key).Nodup ∧
    (∀ a w', w.step a = some w' → w.log <+: w'.log) ∧
    ∀ id x, w.writes id = some x → x.appends ≤ 9 := by
  have hinv := run_inv hlog h
  refine ⟨?_, ?_, hinv.unique, ?_, fun id x hx => (hinv.slots id x hx).appends⟩
  · exact fun id x hx hp => hinv.persisted ((hinv.slots id x hx).persisted hp)
  · exact fun p hp he => hinv.persisted ((hinv.past p hp).2.2 he)
  · intro a w' hs
    obtain ⟨rows, hrows, -⟩ := (step_effect hs).log_grows
    exact hrows ▸ List.prefix_append _ _

/-- Two processes seed the same stream at once; the second loses its first
`append` and goes round again. -/
def racingEmits : List (Action Bool) :=
  [.emit 0 true ⟨0, "t", "r", "a", .agentSpawned, none, none⟩,
    .emit 1 false ⟨0, "t", "r", "a", .agentDiscovered, none, none⟩,
    .nextSeq (.event 0), .nextSeq (.event 1), .highWater (.event 0) true,
    .highWater (.event 1) true, .seed (.event 0), .seed (.event 1),
    .append (.event 0) .ran, .append (.event 1) .ran, .reseed (.event 1),
    .nextSeq (.event 1), .highWater (.event 1) true, .seed (.event 1),
    .append (.event 1) .ran, .publish (.event 1) "t", .publish (.event 0) "t"]

theorem persisted_once_after_conflict :
    ∃ w, Machine.run World.step (World.start []) racingEmits = some w ∧
      w.published.map (fun p => p.event.seq) = [2, 1] ∧
      ∀ p ∈ w.published, p.err = none → Persisted w p.writer p.event :=
  ⟨_, rfl, rfl, (persisted_exactly_once [] racingEmits _ (by decide) rfl).2.1⟩

end Prospero.Proofs.Emitter
