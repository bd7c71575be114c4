import Prospero.Lib.Slots
import Prospero.Proofs.Retention

namespace Prospero.Proofs.Divergence
open Prospero.Emitter
open Prospero.Proofs.Emitter
open Prospero.Proofs.Retention (applies log_step)

variable {π : Type}

/-- Any kind but `StorePersistFailed`. -/
def Ordinary (e : FleetEvent) : Prop :=
  ∀ lostSeq detail, e.kind ≠ .storePersistFailed lostSeq detail

/-- A marker in durable history names the seq of the stream as lost. -/
def Named (w : World π) (key : StreamKey) (seq : Nat) : Prop :=
  ∃ m ∈ w.events, m.streamKey = key ∧ ∃ detail, m.kind = .storePersistFailed seq detail

/-- What was published is durable, or its loss is, once its marker is. -/
def Accounted (w : World π) : Prop :=
  ∀ p ∈ w.published, p.event ∈ w.events ∨
    ∀ task, p.writer = .event task → rowsOf w.log (.marker task) ≠ [] →
      Named w p.event.streamKey p.event.seq

/-- No seq that a marker names as lost is an ordinary event's in the log. -/
def Absent (w : World π) : Prop :=
  ∀ e ∈ w.events, Ordinary e → ¬Named w e.streamKey e.seq

/-- The database executes an `INSERT` of the event, whatever its caller hears. -/
def Inserts (w : World π) (a : Action π) (e : FleetEvent) : Prop :=
  ∃ id reply x, a = .append id reply ∧ w.writes id = some x ∧ x.phase = .append ∧
    x.event = e ∧ applies reply = true ∧ e.key ∉ w.events.map FleetEvent.key

/-- An ordinary event is not stored at a seq named as lost, and a marker only
while nothing ordinary is stored at the seq it names. -/
def Truthful (w : World π) (a : Action π) : Prop :=
  ∀ e, Inserts w a e → (Ordinary e → ¬Named w e.streamKey e.seq) ∧
    ∀ lostSeq detail, e.kind = .storePersistFailed lostSeq detail →
      ∀ old ∈ w.events, Ordinary old → old.key ≠ (e.streamKey, lostSeq)

/-- The `append` leaves the retry loop without having succeeded. -/
def GivesUp (w : World π) (x : Write π) : Reply → Prop
  | .ran => x.event.key ∈ w.events.map FleetEvent.key ∧ seqConflictRetries ≤ x.attempts
  | .failed _ _ => True

/-- The seq that an action hands to a write. -/
inductive Allocates (w : World π) : Action π → WriteId → Nat → Prop
  | next (id : WriteId) (x : Write π) (n : Nat) (slot : w.writes id = some x)
      (phase : x.phase = .nextSeq) (counter : w.seqs x.process x.streamKey = some n) :
      Allocates w (.nextSeq id) id (n + 1)
  | seed (id : WriteId) (x : Write π) (seeded : Nat) (slot : w.writes id = some x)
      (phase : x.phase = .seeded seeded) :
      Allocates w (.seed id) id ((w.seqs x.process x.streamKey).getD seeded + 1)

/-- A seq whose loss is recorded, or is on its way to being recorded. -/
inductive Lost (w : World π) (key : StreamKey) (seq : Nat) : Prop
  | named (named : Named w key seq)
  | failed (task : Nat) (x : Write π) (err : CoreError) (slot : w.writes (.event task) = some x)
      (phase : x.phase = .publish (some err)) (stream : x.streamKey = key)
      (lost : x.event.seq = seq)
  | marked (task : Nat) (y : Write π) (detail : String) (slot : w.writes (.marker task) = some y)
      (phase : y.phase ≠ .done) (stream : y.streamKey = key)
      (kind : y.event.kind = .storePersistFailed seq detail)

/-- An event is given up only where its seq is left empty: its `INSERT` was not
executed, no other event holds the seq or is about to, and no later one gets it. -/
structure LeavesEmpty (w : World π) (a : Action π) : Prop where
  drafts : ∀ task process draft, a = .emit task process draft → Ordinary draft
  lost : ∀ task reply x, a = .append (.event task) reply → w.writes (.event task) = some x →
    x.phase = .append → GivesUp w x reply →
    (∀ message, reply ≠ .failed message true) ∧
    (∀ e ∈ w.events, Ordinary e → e.key ≠ x.event.key) ∧
    ∀ other y, other ≠ task → w.writes (.event other) = some y → y.phase = .append →
      y.event.key ≠ x.event.key
  later : ∀ task x next, Allocates w a (.event task) next → w.writes (.event task) = some x →
    ¬Lost w x.streamKey next

section Writes

variable {w w' : World π} {a : Action π}

/-- What no step changes of a write: whose stream and of what kind its event is. -/
def SameSubject (x y : Write π) : Prop :=
  y.streamKey = x.streamKey ∧ y.event.kind = x.event.kind

theorem appended_event (x : Write π) (result : Except CoreError Unit) :
    (x.appended result).event = x.event := by
  rcases result with e | ⟨⟩
  · cases e <;> simp only [Write.appended]
    split <;> rfl
  · rfl

/-- Where the write of a slot after a step comes from. -/
inductive Origin (w : World π) (a : Action π) : WriteId → Write π → Prop
  | old (id : WriteId) (x y : Write π) (slot : w.writes id = some x) (same : SameSubject x y)
      (live : y = x ∨ x.phase ≠ .done) : Origin w a id y
  | draft (task : Nat) (process : π) (draft : FleetEvent) (act : a = .emit task process draft) :
      Origin w a (.event task) (.begin process draft)
  | marker (task : Nat) (ts : String) (x : Write π) (err : CoreError)
      (slot : w.writes (.event task) = some x) (phase : x.phase = .publish (some err)) :
      Origin w a (.marker task) (.begin x.process (x.gapMarker err ts))

theorem publish_slot {id : WriteId} {x : Write π} {err : Option CoreError} {ts : String}
    {other : WriteId} {y : Write π} (hx : w.writes id = some x) (hphase : x.phase = .publish err)
    (hy : (w.publish id x err ts).writes other = some y) :
    Origin w (.publish id ts) other y := by
  have hdone : ∀ v, (w.setWrite id { x with phase := .done }).writes other = some v →
      Origin w (.publish id ts) other v := by
    intro v hv
    rcases Slots.update_some hv with ⟨rfl, rfl⟩ | ⟨-, hv⟩
    · exact .old _ x _ hx ⟨rfl, rfl⟩ (Or.inr (by simp [hphase]))
    · exact .old _ v v hv ⟨rfl, rfl⟩ (Or.inl rfl)
  unfold World.publish at hy
  split at hy
  · rename_i task e
    rcases Slots.update_some hy with ⟨rfl, rfl⟩ | ⟨-, hy⟩
    · exact .marker task ts x e hx hphase
    · exact hdone y hy
  · exact hdone y hy

theorem write_origin {id : WriteId} {y : Write π} (h : Effect w w' a)
    (hy : w'.writes id = some y) : Origin w a id y := by
  cases h with
  | begin task process draft idle writes =>
    rw [writes] at hy
    rcases Slots.update_some hy with ⟨rfl, rfl⟩ | ⟨-, hy⟩
    · exact .draft task process draft rfl
    · exact .old id y y hy ⟨rfl, rfl⟩ (Or.inl rfl)
  | advance id x seq phase slot pending pending' numbered writes =>
    rw [writes] at hy
    rcases Slots.update_some hy with ⟨rfl, rfl⟩ | ⟨-, hy⟩
    · exact .old _ x _ slot ⟨rfl, rfl⟩ (Or.inr pending.not_done)
    · exact .old _ y y hy ⟨rfl, rfl⟩ (Or.inl rfl)
  | append id reply x result rows slot phase ran stored rejected fresh writes =>
    rw [writes] at hy
    rcases Slots.update_some hy with ⟨rfl, rfl⟩ | ⟨-, hy⟩
    · have hev := appended_event x result
      exact .old _ x _ slot ⟨congrArg FleetEvent.streamKey hev, congrArg FleetEvent.kind hev⟩
        (Or.inr (by simp [phase]))
    · exact .old _ y y hy ⟨rfl, rfl⟩ (Or.inl rfl)
  | publish id ts x err slot phase eq =>
    rw [eq] at hy
    exact publish_slot slot phase hy

/-- A filled slot keeps its subject: a marker's slot is empty until its event is done. -/
theorem write_kept {id : WriteId} {x : Write π} (hw : Inv w) (h : Effect w w' a)
    (hx : w.writes id = some x) : ∃ y, w'.writes id = some y ∧ SameSubject x y := by
  have hmove : ∀ other v v', w.writes other = some v → SameSubject v v' →
      ∃ y, Function.update w.writes other (some v') id = some y ∧ SameSubject x y := by
    intro other v v' hv hsame
    by_cases ho : id = other
    · subst ho
      cases hx.symm.trans hv
      exact ⟨v', Function.update_self .., hsame⟩
    · exact ⟨x, by rw [Function.update_of_ne ho, hx], rfl, rfl⟩
  cases h with
  | begin task process draft idle writes =>
    have hid : id ≠ .event task := by
      intro he
      subst he
      cases hx.symm.trans idle
    exact ⟨x, by rw [writes, Function.update_of_ne hid, hx], rfl, rfl⟩
  | advance other v seq phase slot pending pending' numbered writes =>
    rw [writes]
    exact hmove other v _ slot ⟨rfl, rfl⟩
  | append other reply v result rows slot phase ran stored rejected fresh writes =>
    have hev := appended_event v result
    rw [writes]
    exact hmove other v _ slot ⟨congrArg FleetEvent.streamKey hev, congrArg FleetEvent.kind hev⟩
  | publish other ts v err slot phase eq =>
    obtain ⟨y, hy, hsame⟩ := hmove other v { v with phase := .done } slot ⟨rfl, rfl⟩
    subst eq
    unfold World.publish
    split
    · rename_i task e
      have hid : id ≠ .marker task := by
        intro he
        subst he
        obtain ⟨u, hu, hdone⟩ := hw.markers task x hx
        cases slot.symm.trans hu
        rw [phase] at hdone
        cases hdone
      exact ⟨y, (Function.update_of_ne hid ..).trans hy, hsame⟩
    · exact ⟨y, hy, hsame⟩

end Writes

/-- A failed publication has its marker's slot, and a row shows its slot's subject. -/
structure Traced (w : World π) : Prop where
  inv : Inv w
  failed : ∀ p ∈ w.published, ∀ task err, p.writer = .event task → p.err = some err →
    ∃ y detail, w.writes (.marker task) = some y ∧ y.streamKey = p.event.streamKey ∧
      y.event.kind = .storePersistFailed p.event.seq detail
  rows : ∀ r ∈ w.log, ∀ id, r.writer = some id →
    ∃ x, w.writes id = some x ∧ x.streamKey = r.event.streamKey ∧ x.event.kind = r.event.kind

theorem Traced.start {log : List FleetEvent} (h : (log.map FleetEvent.key).Nodup) :
    Traced (World.start log : World π) :=
  ⟨.start h, by simp [World.start], by simp [World.start]⟩

theorem Traced.accounted {w : World π} (h : Traced w) : Accounted w := by
  intro p hp
  cases herr : p.err with
  | none =>
    have hrow : (⟨p.event, some p.writer⟩ : Row) ∈ rowsOf w.log p.writer := by
      rw [(h.inv.past p hp).2.2 herr]
      exact List.mem_singleton_self _
    exact Or.inl (List.mem_map_of_mem (List.mem_filter.mp hrow).1)
  | some err =>
    refine Or.inr ?_
    intro task hwriter hrows
    obtain ⟨y, detail, hy, hstream, hkind⟩ := h.failed p hp task err hwriter herr
    obtain ⟨r, hr⟩ := List.exists_mem_of_ne_nil _ hrows
    obtain ⟨hr, hrw⟩ := List.mem_filter.mp hr
    obtain ⟨x, hx, hxs, hxk⟩ := h.rows r hr (.marker task) (of_decide_eq_true hrw)
    cases hy.symm.trans hx
    exact ⟨r.event, List.mem_map_of_mem hr, hxs.symm.trans hstream, detail, hxk.symm.trans hkind⟩

theorem Traced.effect {w w' : World π} {a : Action π} (h : Traced w) (he : Effect w w' a) :
    Traced w' := by
  have hfailed : ∀ p ∈ w.published, ∀ task err, p.writer = .event task → p.err = some err →
      ∃ y detail, w'.writes (.marker task) = some y ∧ y.streamKey = p.event.streamKey ∧
        y.event.kind = .storePersistFailed p.event.seq detail := by
    intro p hp task err hwriter herr
    obtain ⟨y, detail, hy, hstream, hkind⟩ := h.failed p hp task err hwriter herr
    obtain ⟨y', hy', hs, hk⟩ := write_kept h.inv he hy
    exact ⟨y', detail, hy', hs.trans hstream, hk.trans hkind⟩
  have hrows : ∀ r ∈ w.log, ∀ id, r.writer = some id →
      ∃ x, w'.writes id = some x ∧ x.streamKey = r.event.streamKey ∧
        x.event.kind = r.event.kind := by
    intro r hr id hid
    obtain ⟨x, hx, hstream, hkind⟩ := h.rows r hr id hid
    obtain ⟨y, hy, hs, hk⟩ := write_kept h.inv he hx
    exact ⟨y, hy, hs.trans hstream, hk.trans hkind⟩
  refine ⟨h.inv.effect he, ?_, ?_⟩
  · cases he with
    | begin task process draft idle writes log published => rwa [published]
    | advance id x seq phase slot pending pending' numbered writes log published =>
      rwa [published]
    | append id reply x result rows slot phase ran stored rejected fresh writes log published =>
      rwa [published]
    | publish id ts x err slot phase eq =>
      rw [eq] at hfailed ⊢
      rw [publish_published]
      intro p hp task e hwriter herr
      rcases List.mem_append.mp hp with hp | hp
      · exact hfailed p hp task e hwriter herr
      · obtain rfl := List.mem_singleton.mp hp
        simp only at hwriter herr
        subst hwriter herr
        exact ⟨_, e.toString, Function.update_self .., rfl, rfl⟩
  · cases he with
    | begin task process draft idle writes log => rwa [log]
    | advance id x seq phase slot pending pending' numbered writes log => rwa [log]
    | publish id ts x err slot phase eq =>
      rw [eq] at hrows ⊢
      rwa [publish_log]
    | append id reply x result rows slot phase ran stored rejected fresh writes log =>
      intro r hr other hother
      rcases List.mem_append.mp (log ▸ hr) with hr | hr
      · exact hrows r hr other hother
      · rcases fresh with rfl | ⟨rfl, -⟩
        · cases hr
        · obtain rfl := List.mem_singleton.mp hr
          cases hother
          have hev := appended_event x result
          exact ⟨_, by rw [writes, Function.update_self],
            congrArg FleetEvent.streamKey hev, congrArg FleetEvent.kind hev⟩

section Log

variable [DecidableEq π] {w w' : World π} {a : Action π}

/-- A step leaves the log alone, or executes one `INSERT`. -/
theorem insert_step (h : w.step a = some w') :
    (w'.events = w.events ∧ ∀ e, ¬Inserts w a e) ∨
    ∃ e, Inserts w a e ∧ (∀ e', Inserts w a e' → e' = e) ∧ w'.events = w.events ++ [e] := by
  rcases log_step h with ⟨hlog, htaken⟩ | ⟨id, reply, x, rfl, hx, hphase, happ, hfresh, hlog⟩
  · refine Or.inl ⟨by rw [World.events, hlog, World.events], ?_⟩
    rintro e ⟨id, reply, x, ha, hx, -, rfl, happ, hfresh⟩
    exact hfresh (htaken id reply ha x hx happ)
  · refine Or.inr ⟨x.event, ⟨id, reply, x, rfl, hx, hphase, rfl, happ, hfresh⟩, ?_, ?_⟩
    · rintro e ⟨id', reply', y, ha, hy, -, rfl, -, -⟩
      cases ha
      cases hx.symm.trans hy
      rfl
    · simp [World.events, hlog]

theorem Named.keep {key : StreamKey} {seq : Nat} (h : Named w key seq)
    (hs : w.step a = some w') : Named w' key seq := by
  obtain ⟨m, hm, hrest⟩ := h
  rcases insert_step hs with ⟨hev, -⟩ | ⟨e, -, -, hev⟩
  · exact ⟨m, hev ▸ hm, hrest⟩
  · exact ⟨m, hev ▸ List.mem_append_left _ hm, hrest⟩

/-- A name is new only with the `INSERT` of its marker. -/
theorem Named.back {key : StreamKey} {seq : Nat} (h : Named w' key seq)
    (hs : w.step a = some w') : Named w key seq ∨
      ∃ e detail, Inserts w a e ∧ e.streamKey = key ∧ e.kind = .storePersistFailed seq detail := by
  obtain ⟨m, hm, hkey, detail, hkind⟩ := h
  rcases insert_step hs with ⟨hev, -⟩ | ⟨e, he, -, hev⟩
  · exact Or.inl ⟨m, hev ▸ hm, hkey, detail, hkind⟩
  · rcases List.mem_append.mp (hev ▸ hm) with hm | hm
    · exact Or.inl ⟨m, hm, hkey, detail, hkind⟩
    · obtain rfl := List.mem_singleton.mp hm
      exact Or.inr ⟨m, detail, he, hkey, hkind⟩

theorem Absent.step (h : Absent w) (hok : Truthful w a) (hs : w.step a = some w') : Absent w' := by
  intro e he hord hnamed
  rcases hnamed.back hs with hnamed | ⟨m, detail, hm, hkey, hkind⟩
  · rcases insert_step hs with ⟨hev, -⟩ | ⟨e', he', -, hev⟩
    · exact h e (hev ▸ he) hord hnamed
    · rcases List.mem_append.mp (hev ▸ he) with he | he
      · exact h e he hord hnamed
      · obtain rfl := List.mem_singleton.mp he
        exact (hok e he').1 hord hnamed
  · rcases insert_step hs with ⟨-, hnone⟩ | ⟨e', -, hone, hev⟩
    · exact hnone m hm
    · cases hone m hm
      rcases List.mem_append.mp (hev ▸ he) with he | he
      · exact (hok m hm).2 e.seq detail hkind e he hord (by rw [FleetEvent.key, hkey])
      · obtain rfl := List.mem_singleton.mp he
        exact hord _ _ hkind

/-- An untruthful `INSERT` puts an ordinary event and a marker at odds for good. -/
theorem not_absent (hbad : ¬Truthful w a) (hs : w.step a = some w') : ¬Absent w' := by
  intro habsent
  simp only [Truthful, not_forall] at hbad
  obtain ⟨e, he, hbad⟩ := hbad
  rcases insert_step hs with ⟨-, hnone⟩ | ⟨e', -, hone, hev⟩
  · exact hnone e he
  · cases hone e he
    have hnew : e ∈ w'.events := hev ▸ List.mem_append_right _ (List.mem_singleton_self e)
    rcases not_and_or.mp hbad with hbad | hbad
    · simp only [not_forall, not_not] at hbad
      obtain ⟨hord, hnamed⟩ := hbad
      exact habsent e hnew hord (hnamed.keep hs)
    · simp only [not_forall, not_not] at hbad
      obtain ⟨lostSeq, detail, hkind, old, hold, hord, hkey⟩ := hbad
      rw [FleetEvent.key, Prod.mk.injEq] at hkey
      refine habsent old (hev ▸ List.mem_append_left _ hold) hord ⟨e, hnew, hkey.1.symm, detail, ?_⟩
      rw [hkind, hkey.2]

end Log

/-- A lost seq is empty of ordinary events, and none is on its way there. -/
structure Clear (w : World π) : Prop where
  inv : Inv w
  events : ∀ task x, w.writes (.event task) = some x → Ordinary x.event
  markers : ∀ task y, w.writes (.marker task) = some y →
    ∃ lostSeq detail, y.event.kind = .storePersistFailed lostSeq detail
  absent : ∀ e ∈ w.events, Ordinary e → ¬Lost w e.streamKey e.seq
  unclaimed : ∀ task x, w.writes (.event task) = some x → x.phase = .append →
    ¬Lost w x.streamKey x.event.seq

theorem Clear.start {log : List FleetEvent} (hlog : (log.map FleetEvent.key).Nodup)
    (h : Absent (World.start log : World π)) : Clear (World.start log : World π) := by
  refine ⟨.start hlog, by simp [World.start], by simp [World.start], ?_, by simp [World.start]⟩
  intro e he hord hlost
  cases hlost with
  | named hnamed => exact h e he hord hnamed
  | failed task x err slot => cases slot
  | marked task y detail slot => cases slot

section Clear

variable {w w' : World π} {a : Action π}

/-- Only an ordinary event's own write inserts it. -/
theorem Clear.inserts_event (h : Clear w) {e : FleetEvent} (hord : Ordinary e)
    (he : Inserts w a e) : ∃ task reply x, a = .append (.event task) reply ∧
      w.writes (.event task) = some x ∧ x.phase = .append ∧ x.event = e ∧ applies reply = true := by
  obtain ⟨id, reply, x, ha, hx, hphase, rfl, happ, -⟩ := he
  cases id with
  | event task => exact ⟨task, reply, x, ha, hx, hphase, rfl, happ⟩
  | marker task =>
    obtain ⟨lostSeq, detail, hkind⟩ := h.markers task x hx
    exact absurd hkind (hord _ _)

/-- Only a marker's own write inserts it, while its loss is on record there. -/
theorem Clear.inserts_marker (h : Clear w) {e : FleetEvent} {lostSeq : Nat} {detail : String}
    (hkind : e.kind = .storePersistFailed lostSeq detail) (he : Inserts w a e) :
    Lost w e.streamKey lostSeq := by
  obtain ⟨id, reply, x, -, hx, hphase, rfl, -⟩ := he
  cases id with
  | event task => exact absurd hkind (h.events task x hx _ _)
  | marker task => exact .marked task x detail hx (by simp [hphase]) rfl hkind

theorem Clear.truthful (h : Clear w) : Truthful w a := by
  intro e he
  constructor
  · intro hord hnamed
    obtain ⟨task, -, x, -, hx, hphase, rfl, -⟩ := h.inserts_event hord he
    exact h.unclaimed task x hx hphase (.named hnamed)
  · intro lostSeq detail hkind old hold hord hkey
    rw [FleetEvent.key, Prod.mk.injEq] at hkey
    apply h.absent old hold hord
    rw [hkey.1, hkey.2]
    exact h.inserts_marker hkind he

theorem appended_gives_up {reply : Reply} {x : Write π} {err : CoreError}
    {result : Except CoreError Unit}
    (ran : reply = .ran → result = (Store.append x.event w.events).map fun _ => ())
    (hphase : (x.appended result).phase = .publish (some err)) : GivesUp w x reply := by
  cases reply with
  | failed message applied => trivial
  | ran =>
    have hresult := ran rfl
    by_cases hfresh : x.event.key ∈ w.events.map FleetEvent.key
    · refine ⟨hfresh, ?_⟩
      have hconflict : Store.append x.event w.events = .error .seqConflict := by
        simp [Store.append, KeyedLog.insert?, hfresh, Store.mapAppendError]
      rw [hresult, hconflict] at hphase
      by_contra hlt
      simp [Except.map, Write.appended, not_le.mp hlt] at hphase
    · rw [hresult, Proofs.Store.append_eq_ok.mpr ⟨hfresh, rfl⟩] at hphase
      simp [Except.map, Write.appended] at hphase

variable [DecidableEq π]

/-- A seq is newly lost only where an event is given up. -/
theorem Lost.back {key : StreamKey} {seq : Nat} (hc : Clear w) (h : Lost w' key seq)
    (hs : w.step a = some w') : Lost w key seq ∨
      ∃ task reply x, a = .append (.event task) reply ∧ w.writes (.event task) = some x ∧
        x.phase = .append ∧ GivesUp w x reply ∧ x.streamKey = key ∧ x.event.seq = seq := by
  cases h with
  | named hnamed =>
    rcases hnamed.back hs with hnamed | ⟨m, detail, hm, hkey, hkind⟩
    · exact Or.inl (.named hnamed)
    · exact Or.inl (hkey ▸ hc.inserts_marker hkind hm)
  | marked task y detail slot phase stream kind =>
    refine Or.inl ?_
    cases write_origin (step_effect hs) slot with
    | old _ x _ hx same live =>
      refine .marked task x detail hx ?_ (same.1.symm.trans stream) (same.2.symm.trans kind)
      rcases live with rfl | hlive
      · exact phase
      · exact hlive
    | marker _ ts x err hx hphase =>
      injection kind with hseq
      exact .failed task x err hx hphase stream hseq
  | failed task y err slot phase stream lost =>
    cases step_effect hs with
    | begin other process draft idle writes =>
      rw [writes] at slot
      rcases Slots.update_some slot with ⟨-, rfl⟩ | ⟨-, hy⟩
      · cases phase
      · exact Or.inl (.failed task y err hy phase stream lost)
    | advance id x n phase' hx pending pending' numbered writes =>
      rw [writes] at slot
      rcases Slots.update_some slot with ⟨-, rfl⟩ | ⟨-, hy⟩
      · simp only at phase
        rw [phase] at pending'
        cases pending'
      · exact Or.inl (.failed task y err hy phase stream lost)
    | append id reply x result rows hx hphase ran stored rejected fresh writes =>
      rw [writes] at slot
      rcases Slots.update_some slot with ⟨rfl, rfl⟩ | ⟨-, hy⟩
      · have hev := appended_event x result
        refine Or.inr ⟨task, reply, x, rfl, hx, hphase, appended_gives_up ran phase, ?_, ?_⟩
        · rw [← stream, Write.streamKey, Write.streamKey, hev]
        · rw [← lost, hev]
      · exact Or.inl (.failed task y err hy phase stream lost)
    | publish id ts x err' hx hphase eq =>
      rw [eq] at slot
      rcases (Retention.publish_writes w id x err' ts).2 _ y slot with hd | hn | hy
      · rw [phase] at hd
        cases hd
      · rw [phase] at hn
        cases hn
      · exact Or.inl (.failed task y err hy phase stream lost)

/-- A write is about to be appended with the seq it was just given, or as it stood. -/
theorem append_origin {id : WriteId} {y : Write π} (hs : w.step a = some w')
    (hy : w'.writes id = some y) (hphase : y.phase = .append) :
    (w.writes id = some y ∧ ∀ reply, a ≠ .append id reply) ∨
      ∃ x, w.writes id = some x ∧ Allocates w a id y.event.seq ∧ SameSubject x y := by
  cases step_performs hs with
  | next other x n hx phase known =>
    rcases Slots.update_some hy with ⟨rfl, rfl⟩ | ⟨-, hold⟩
    · exact Or.inr ⟨x, hx, .next id x n hx phase known, rfl, rfl⟩
    · exact Or.inl ⟨hold, by simp⟩
  | seed other x seeded hx phase =>
    rcases Slots.update_some hy with ⟨rfl, rfl⟩ | ⟨-, hold⟩
    · exact Or.inr ⟨x, hx, .seed id x seeded hx phase, rfl, rfl⟩
    · exact Or.inl ⟨hold, by simp⟩
  | append other reply x hx phase =>
    obtain ⟨-, result, hwrites⟩ := Retention.append_writes w other x reply
    rw [hwrites] at hy
    rcases Slots.update_some hy with ⟨rfl, rfl⟩ | ⟨hne, hold⟩
    · exact absurd hphase (Retention.appended_phase x result).2
    · refine Or.inl ⟨hold, ?_⟩
      intro reply' he
      cases he
      exact hne rfl
  | publish other ts x err hx phase =>
    rcases (Retention.publish_writes w other x err ts).2 id y hy with hd | hn | hold
    · simp [hphase] at hd
    · simp [hphase] at hn
    · exact Or.inl ⟨hold, by simp⟩
  | emit task process draft idle =>
    rcases Slots.update_some hy with ⟨-, rfl⟩ | ⟨-, hold⟩
    · cases hphase
    · exact Or.inl ⟨hold, by simp⟩
  | unseeded other x hx phase | highWater other ok x hx phase | reseed other x hx phase =>
    rcases Slots.update_some hy with ⟨-, rfl⟩ | ⟨-, hold⟩
    · cases hphase
    · exact Or.inl ⟨hold, by simp⟩

theorem Clear.step (h : Clear w) (hok : LeavesEmpty w a) (hs : w.step a = some w') :
    Clear w' := by
  have he := step_effect hs
  refine ⟨h.inv.effect he, ?_, ?_, ?_, ?_⟩
  · intro task y hy
    cases write_origin he hy with
    | old _ x _ hx same => exact fun n d hk => h.events task x hx n d (same.2.symm.trans hk)
    | draft _ process draft act => exact hok.drafts task process draft act
  · intro task y hy
    cases write_origin he hy with
    | old _ x _ hx same =>
      obtain ⟨n, d, hk⟩ := h.markers task x hx
      exact ⟨n, d, same.2.trans hk⟩
    | marker _ ts x err => exact ⟨_, _, rfl⟩
  · intro e hmem hord hlost
    rcases hlost.back h hs with hlost | ⟨task, reply, x, rfl, hx, hphase, hgives, hkey, hseq⟩
    · rcases insert_step hs with ⟨hev, -⟩ | ⟨e', he', -, hev⟩
      · exact h.absent e (hev ▸ hmem) hord hlost
      · rcases List.mem_append.mp (hev ▸ hmem) with hmem | hmem
        · exact h.absent e hmem hord hlost
        · obtain rfl := List.mem_singleton.mp hmem
          obtain ⟨task, -, x, -, hx, hphase, rfl, -⟩ := h.inserts_event hord he'
          exact h.unclaimed task x hx hphase hlost
    · obtain ⟨hreply, hempty, -⟩ := hok.lost task reply x rfl hx hphase hgives
      rcases insert_step hs with ⟨hev, -⟩ | ⟨e', he', -, hev⟩
      · exact hempty e (hev ▸ hmem) hord (Prod.ext hkey.symm hseq.symm)
      · rcases List.mem_append.mp (hev ▸ hmem) with hmem | hmem
        · exact hempty e hmem hord (Prod.ext hkey.symm hseq.symm)
        · obtain ⟨id, reply', v, ha, hv, -, rfl, happ, hfresh⟩ := he'
          cases ha
          cases hx.symm.trans hv
          cases reply with
          | ran => exact hfresh hgives.1
          | failed message applied =>
            simp only [applies] at happ
            exact hreply message (by rw [happ])
  · intro task y hy hphase hlost
    rcases append_origin hs hy hphase with ⟨hold, hnot⟩ | ⟨x, hx, hnext, same⟩
    · rcases hlost.back h hs with hlost | ⟨other, reply, x, rfl, hx, hp, hgives, hkey, hseq⟩
      · exact h.unclaimed task y hold hphase hlost
      · have hne : task ≠ other := fun he => hnot reply (by rw [he])
        obtain ⟨-, -, halone⟩ := hok.lost other reply x rfl hx hp hgives
        exact halone task y hne hold hphase (Prod.ext hkey.symm hseq.symm)
    · rcases hlost.back h hs with hlost | ⟨other, reply, v, rfl, hv⟩
      · exact hok.later task x _ hnext hx (same.1 ▸ hlost)
      · cases hnext

end Clear

/-- Every loss is on record once its marker is. A named seq stays empty exactly
when every executed `INSERT` is truthful, which holds where an event is only ever
given up with its seq left empty. -/
theorem durable_before_divergence_iff [DecidableEq π] (log : List FleetEvent)
    (as : List (Action π)) (w : World π) (hlog : (log.map FleetEvent.key).Nodup)
    (habsent : Absent (World.start log : World π))
    (h : Machine.run World.step (World.start log) as = some w) :
    Machine.Always World.step Accounted (World.start log) as ∧
    (Machine.Always World.step Absent (World.start log) as ↔
      Machine.Steps World.step Truthful (World.start log) as) ∧
    (Machine.Steps World.step LeavesEmpty (World.start log) as →
      Machine.Steps World.step Truthful (World.start log) as) := by
  refine ⟨?_, ?_, ?_⟩
  · apply Machine.always_mono fun _ => Traced.accounted
    apply Machine.always_of_invariant ?_ (.start hlog)
    intro s a s' ht hs
    exact ht.effect (step_effect hs)
  · apply Machine.always_iff_steps (P := Absent) (fun _ h => h) ?_ ?_ habsent h
    · intro s a s' hi hok hs
      exact hi.step hok hs
    · intro s a s' _ hbad hs
      exact not_absent hbad hs
  · apply Machine.steps_of_steps (P := Clear) ?_ ?_ (.start hlog habsent)
    · intro s a hc _
      exact hc.truthful
    · intro s a s' hc hok hs
      exact hc.step hok hs

/-- An emit by a process that reads the high water first, up to its `append`. -/
def emitTo (task : Nat) (process : Bool) (e : FleetEvent) : List (Action Bool) :=
  [.emit task process e, .nextSeq (.event task), .highWater (.event task) true,
    .seed (.event task)]

/-- The store is down for one `append`, whose seq nobody else takes. -/
def lostEmit : List (Action Bool) :=
  emitTo 0 true ⟨0, "t", "r", "a", .agentSpawned, none, none⟩ ++
    [.append (.event 0) (.failed "down" false), .publish (.event 0) "t", .nextSeq (.marker 0),
      .append (.marker 0) .ran, .publish (.marker 0) "t"]

theorem lost_emit_on_record :
    ∃ w, Machine.run World.step (World.start []) lostEmit = some w ∧
      w.events.map FleetEvent.seq = [2] ∧ w.published.map (fun p => p.event.seq) = [1, 2] ∧
      Machine.Always World.step Accounted (World.start []) lostEmit :=
  ⟨_, rfl, rfl, rfl, (durable_before_divergence_iff [] lostEmit _ (by decide)
    (by simp [Absent, World.start, World.events]) rfl).1⟩

/-- The seq of the event given up is free, and another replica stores its own there
before the marker is written. -/
def lostSeqTaken : List (Action Bool) :=
  emitTo 0 true ⟨0, "t", "r", "a", .agentSpawned, none, none⟩ ++
    [.append (.event 0) (.failed "down" false), .publish (.event 0) "t"] ++
    emitTo 1 false ⟨0, "t", "r", "a", .agentDiscovered, none, none⟩ ++
    [.append (.event 1) .ran, .publish (.event 1) "t", .nextSeq (.marker 0),
      .append (.marker 0) .ran, .publish (.marker 0) "t"]

theorem lost_seq_taken :
    ¬∀ (log : List FleetEvent) (as : List (Action Bool)) (w : World Bool),
      (log.map FleetEvent.key).Nodup → Absent (World.start log : World Bool) →
      Machine.run World.step (World.start log) as = some w →
      Machine.Always World.step (fun s => Accounted s ∧ Absent s) (World.start log) as := by
  intro h
  have hall := h [] lostSeqTaken _ (by decide) (by simp [Absent, World.start, World.events]) rfl
  have hend := (Machine.always_end hall rfl).2
  have hstored : (⟨1, "t", "r", "a", .agentDiscovered, none, none⟩ : FleetEvent) ∈
      [⟨1, "t", "r", "a", .agentDiscovered, none, none⟩,
        ⟨2, "t", "r", "a", .storePersistFailed 1 "store error: append: down", none, none⟩] :=
    List.mem_cons_self ..
  exact hend _ hstored (by simp [Ordinary])
    ⟨_, List.mem_cons_of_mem _ (List.mem_singleton_self _), rfl, _, rfl⟩

end Prospero.Proofs.Divergence
