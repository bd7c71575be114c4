import Prospero.Lib.Machine
import Prospero.Lib.Monitor
import Prospero.Proofs.Reconcile

namespace Prospero.Proofs.Lifecycle
open Prospero.Reconcile
open Prospero.Proofs.Reconcile

variable {π : Type}

/-- What the log says last of an agent: it was announced, or nothing has been
said yet; it moved to a status; it is gone. -/
inductive Track
  | announced
  | moved (status : AgentStatus)
  | gone

def Track.next (t : Track) : EventKind → Track
  | .agentDiscovered | .agentSpawned => .announced
  | .statusChanged _ toStatus => .moved toStatus
  | .agentGone => .gone
  | _ => t

def Track.Allows : Track → EventKind → Prop
  | .moved status, .statusChanged fromStatus _ => fromStatus = status
  | .gone, .statusChanged _ _ => False
  | .gone, .agentGone => False
  | _, _ => True

def trackOf (log : List Entry) (id : String) : Track :=
  (kindsOf log id).foldl Track.next .announced

/-- Each agent's lifecycle events follow on one another. -/
def Chain (w : World π) : Prop :=
  ∀ id, Monitor.Accepts Track.next Track.Allows .announced (kindsOf w.log id)

/-- An event is emitted only where the log before it allows it. -/
def Fits (w : World π) (a : Action π) : Prop :=
  ∀ e, emits w a = some e → (trackOf w.log e.agentId).Allows e.kind

def Reconciling : Phase → Prop
  | .listed .. | .compared .. | .reporting .. => True
  | _ => False

/-- The agent is off the snapshot, and its `AgentGone` is yet to come. -/
def Vacates : Phase → String → Prop
  | .pruned id, vacated => vacated = id
  | .last ⟨id, .agentGone⟩, vacated => vacated = id
  | _, _ => False

/-- An `rm_agent` between caliband's removal and its own last event. -/
def Removing (phase : Phase) : Prop :=
  (∃ id, phase = .removed id) ∨ ∃ id, Vacates phase id

/-- No reconcile is under way together with another or with a removal, from the
list or the removal in caliband on. An agent that is new to the snapshot and
attached already is new to the log, or was just announced there. -/
def Serial (w : World π) : Action π → Prop
  | .list call => ∀ other x, other ≠ call → w.calls other = some x →
      ¬Reconciling x.phase ∧ ¬Removing x.phase
  | .remove _ true => ∀ other x, w.calls other = some x → ¬Reconciling x.phase
  | .diff call => ∀ x own records prior, w.calls call = some x →
      x.phase = .compared own records prior → ∀ id, id ∈ records.map Prod.fst →
      id ∉ prior.map Prod.fst → id ∈ w.attached x.process → trackOf w.log id = .announced
  | _ => True

section Kinds

variable {log : List Entry} {e : Entry} {id : String}

theorem trackOf_snoc (log : List Entry) (e : Entry) :
    trackOf (log ++ [e]) e.agentId = (trackOf log e.agentId).next e.kind := by
  simp [trackOf, kindsOf]

theorem trackOf_snoc_of_ne (h : e.agentId ≠ id) : trackOf (log ++ [e]) id = trackOf log id := by
  simp [trackOf, kindsOf, h]

end Kinds

/-- A snapshot that has the agent in a status is in step with the log. -/
def Agrees (t : Track) (status : AgentStatus) : Prop :=
  t = .announced ∨ t = .moved status

theorem Agrees.not_gone {t : Track} {status : AgentStatus} (h : Agrees t status) : t ≠ .gone := by
  rcases h with rfl | rfl <;> simp

section Diff

variable {prior records : Roster} {attachedNow : List String} {id : String}

/-- Where the snapshot is in step with the log, a reconcile's events continue the
log, and leave it in step with what caliband listed. -/
theorem diff_fits {t : Track} (hrecords : (records.map Prod.fst).Nodup)
    (hprior : (prior.map Prod.fst).Nodup) (hagree : ∀ s, (id, s) ∈ prior → Agrees t s)
    (hnew : id ∈ records.map Prod.fst → id ∉ prior.map Prod.fst → id ∈ attachedNow →
      t = .announced) :
    Monitor.Accepts Track.next Track.Allows t (kindsOf (diff true prior attachedNow records) id) ∧
    ∀ s, (id, s) ∈ records →
      Agrees ((kindsOf (diff true prior attachedNow records) id).foldl Track.next t) s := by
  by_cases hid : id ∈ records.map Prod.fst
  · obtain ⟨⟨i, s⟩, hs, rfl⟩ := List.mem_map.mp hid
    have hone : ∀ s', (i, s') ∈ records → s' = s := by
      intro s' hs'
      have heq := List.inj_on_of_nodup_map hrecords hs' hs rfl
      exact congrArg Prod.snd heq
    rw [kindsOf_diff_listed hrecords hs]
    cases hp : prior.lookup i with
    | none =>
      by_cases hat : i ∈ attachedNow
      · have ht := hnew hid (lookup_none.mp hp) hat
        simp only [diffRecord, hp, hat, not_true_eq_false, and_false, if_false]
        exact ⟨trivial, fun _ _ => Or.inl ht⟩
      · simp only [diffRecord, hp, hat, not_false_eq_true, and_self, if_true]
        exact ⟨⟨by cases t <;> trivial, trivial⟩, fun _ _ => Or.inl rfl⟩
    | some old =>
      have ht := hagree old (mem_of_lookup hp)
      by_cases hne : old = s
      · subst hne
        simp only [diffRecord, hp, ne_eq, not_true_eq_false, and_false, if_false]
        refine ⟨trivial, fun s' hs' => ?_⟩
        rw [hone s' hs']
        exact ht
      · simp only [diffRecord, hp, ne_eq, hne, not_false_eq_true, and_self, if_true]
        refine ⟨⟨?_, trivial⟩, fun s' hs' => Or.inr ?_⟩
        · rcases ht with rfl | rfl
          · trivial
          · rfl
        · rw [hone s' hs']
          rfl
  · rw [kindsOf_diff_unlisted hprior hid]
    refine ⟨?_, fun s hs => absurd (List.mem_map.mpr ⟨(id, s), hs, rfl⟩) hid⟩
    by_cases hmem : id ∈ prior.map Prod.fst
    · obtain ⟨⟨i, old⟩, hold, rfl⟩ := List.mem_map.mp hmem
      rw [if_pos ⟨rfl, hmem⟩]
      refine ⟨?_, trivial⟩
      rcases hagree old hold with rfl | rfl <;> trivial
    · rw [if_neg fun h => hmem h.2]
      trivial

end Diff

section Chain

variable {w w' : World π} {a : Action π}

theorem chain_snoc {e : Entry} (h : Chain w) (hlog : w'.log = w.log ++ [e]) :
    Chain w' ↔ (trackOf w.log e.agentId).Allows e.kind := by
  constructor
  · intro h'
    have hid := h' e.agentId
    rw [hlog, kindsOf_append, Monitor.accepts_append, kindsOf_cons_self] at hid
    exact hid.2.1
  · intro hfits id
    rw [hlog, kindsOf_append, Monitor.accepts_append]
    refine ⟨h id, ?_⟩
    by_cases he : e.agentId = id
    · subst he
      rw [kindsOf_cons_self]
      exact ⟨hfits, trivial⟩
    · rw [kindsOf_cons_of_ne he]
      trivial

variable [DecidableEq π]

theorem Chain.step (h : Chain w) (hok : Fits w a) (hs : w.step a = some w') : Chain w' := by
  have hlog := log_step hs
  cases he : emits w a with
  | none =>
    rw [he, Option.toList_none, List.append_nil] at hlog
    intro id
    rw [hlog]
    exact h id
  | some e =>
    rw [he, Option.toList_some] at hlog
    exact (chain_snoc h hlog).mpr (hok e he)

theorem chain_broken (h : Chain w) (hbad : ¬Fits w a) (hs : w.step a = some w') : ¬Chain w' := by
  have hlog := log_step hs
  simp only [Fits, not_forall] at hbad
  obtain ⟨e, he, hbad⟩ := hbad
  rw [he, Option.toList_some] at hlog
  exact fun h' => hbad ((chain_snoc h hlog).mp h')

end Chain

/-- What is left to report of a reconcile continues the log. -/
def Continues (log : List Entry) (pending : List Entry) (records : Roster) : Prop :=
  ∀ id, Monitor.Accepts Track.next Track.Allows (trackOf log id) (kindsOf pending id) ∧
    ∀ s, (id, s) ∈ records →
      Agrees ((kindsOf pending id).foldl Track.next (trackOf log id)) s

/-- What a call is about to do is in order as the log and the snapshot stand. -/
def PhaseOk (log : List Entry) (snapshot : Roster) : Phase → Prop
  | .acquired own => own = true
  | .listed own records => own = true ∧ (records.map Prod.fst).Nodup
  | .compared own records prior =>
    own = true ∧ (records.map Prod.fst).Nodup ∧ prior = snapshot
  | .reporting _ records pending =>
    (records.map Prod.fst).Nodup ∧ Continues log pending records
  | .last e => e.kind = .agentSpawned ∨ e.kind = .agentGone ∨ ∃ state, e.kind = .repoHealth state
  | _ => True

def Reporting : Phase → Prop
  | .reporting .. => True
  | _ => False

theorem Reporting.reconciling {phase : Phase} (h : Reporting phase) : Reconciling phase := by
  cases phase with
  | reporting own records pending => trivial
  | _ => exact h.elim

theorem Reconciling.not_vacates {phase : Phase} {id : String} (h : Reconciling phase) :
    ¬Vacates phase id := by
  cases phase with
  | pruned | last => exact h.elim
  | _ => exact fun hv => hv

/-- One process whose reconciles and removals keep out of each other's way. -/
structure Calm (w : World Unit) : Prop where
  registry : (w.registry.map Prod.fst).Nodup
  snapshot : ((w.snapshot ()).map Prod.fst).Nodup
  phases : ∀ call x, w.calls call = some x → PhaseOk w.log (w.snapshot ()) x.phase
  alone : ∀ call other x y, call ≠ other → w.calls call = some x → w.calls other = some y →
    Reconciling x.phase → ¬Reconciling y.phase ∧ ¬Removing y.phase
  settled : (∀ call x, w.calls call = some x → ¬Reporting x.phase) →
    ∀ id s, (id, s) ∈ w.snapshot () → Agrees (trackOf w.log id) s
  vacated : ∀ call x id, w.calls call = some x → Vacates x.phase id →
    id ∉ (w.snapshot ()).map Prod.fst ∧ trackOf w.log id ≠ .gone
  apart : ∀ call other x y id, w.calls call = some x → w.calls other = some y →
    Vacates x.phase id → Vacates y.phase id → call = other

/-- Beside a call that reconciles or removes no other one reports. -/
theorem Calm.unreported {w : World Unit} (h : Calm w) {call : Nat} {x : Call Unit}
    (slot : w.calls call = some x) (hquiet : ¬Reporting x.phase)
    (hbusy : Reconciling x.phase ∨ Removing x.phase) :
    ∀ other y, w.calls other = some y → ¬Reporting y.phase := by
  intro other y hy hrep
  by_cases hne : other = call
  · subst hne
    cases slot.symm.trans hy
    exact hquiet hrep
  · have halone := h.alone other call y x hne hy slot hrep.reconciling
    exact hbusy.elim halone.1 halone.2

theorem Calm.start {registry : Roster} (h : (registry.map Prod.fst).Nodup) (log : List Entry) :
    Calm (World.start registry log) := by
  refine ⟨h, by simp [World.start], ?_, ?_, ?_, ?_, ?_⟩ <;> simp [World.start]

theorem Calm.fits {w : World Unit} {a : Action Unit} (h : Calm w) : Fits w a := by
  intro e he
  obtain ⟨call, process, -, ⟨own, records, pending, hx⟩ | hx⟩ := emits_some he
  · have hhead := ((h.phases call _ hx).2 e.agentId).1
    rw [kindsOf_cons_self] at hhead
    exact hhead.1
  · obtain ⟨id, kind⟩ := e
    have hvac := h.vacated call _ id hx
    rcases h.phases call _ hx with hk | hk | ⟨state, hk⟩ <;> simp only at hk <;> subst hk
    · cases trackOf w.log id <;> trivial
    · have hgone := (hvac rfl).2
      cases ht : trackOf w.log id with
      | gone => exact absurd ht hgone
      | _ => trivial
    · cases trackOf w.log id <;> trivial

section Calm

variable {w w' : World Unit} {a : Action Unit}

/-- Beside a reconcile that is under way, the log only takes in announcements,
and nothing that concerns the agents' statuses. -/
def Resets (log log' : List Entry) : Prop :=
  ∀ id, trackOf log' id = trackOf log id ∨ trackOf log' id = .announced

theorem Continues.resets {log log' pending : List Entry} {records : Roster}
    (h : Continues log pending records) (hr : Resets log log') :
    Continues log' pending records := by
  intro id
  obtain ⟨haccepts, hagrees⟩ := h id
  have hallows : ∀ t t' : Track, ∀ k, (t' = t ∨ t' = .announced) → t.Allows k → t'.Allows k := by
    rintro t t' k (rfl | rfl) hk
    · exact hk
    · trivial
  have hnext : ∀ t t' : Track, ∀ k, (t' = t ∨ t' = .announced) →
      (t'.next k = t.next k ∨ t'.next k = .announced) := by
    rintro t t' k (rfl | rfl)
    · exact Or.inl rfl
    · cases k <;> simp [Track.next]
  obtain ⟨haccepts', hend⟩ := Monitor.accepts_sim hallows hnext (hr id) haccepts
  refine ⟨haccepts', fun s hs => ?_⟩
  rcases hend with heq | hann
  · rw [heq]
    exact hagrees s hs
  · exact Or.inl hann

/-- What an emitted event does to the log, going by the call that emits it. -/
inductive LogStep (w w' : World Unit) : Action Unit → Prop
  | same {a : Action Unit} (eq : w'.log = w.log) : LogStep w w' a
  | resets (call : Nat) (x : Call Unit) (slot : w.calls call = some x)
      (quiet : ¬Reconciling x.phase) (resets : Resets w.log w'.log) : LogStep w w' (.emit call)
  | gone (call : Nat) (id : String)
      (slot : w.calls call = some ⟨(), .last ⟨id, .agentGone⟩⟩)
      (eq : w'.log = w.log ++ [⟨id, .agentGone⟩]) (done : w'.calls call = none) :
      LogStep w w' (.emit call)
  | reported (call : Nat) (own : Bool) (records : Roster) (e : Entry) (pending : List Entry)
      (slot : w.calls call = some ⟨(), .reporting own records (e :: pending)⟩)
      (eq : w'.log = w.log ++ [e])
      (moved : w'.calls call = some ⟨(), .reporting own records pending⟩) :
      LogStep w w' (.emit call)

theorem Calm.log_step (h : Calm w) (hs : w.step a = some w') : LogStep w w' a := by
  have hlog := Reconcile.log_step hs
  cases he : emits w a with
  | none =>
    rw [he, Option.toList_none, List.append_nil] at hlog
    exact .same hlog
  | some e =>
    rw [he, Option.toList_some] at hlog
    obtain ⟨call, process, rfl, ⟨own, records, pending, hx⟩ | hx⟩ := emits_some he
    · exact .reported call own records e pending hx hlog (emit_reporting_next hx hs)
    · have hresets : (∀ t : Track, t.next e.kind = t ∨ t.next e.kind = .announced) →
          Resets w.log w'.log := by
        intro hk id
        rw [hlog]
        by_cases hid : e.agentId = id
        · subst hid
          rw [trackOf_snoc]
          exact hk _
        · exact Or.inl (trackOf_snoc_of_ne hid)
      obtain ⟨id, kind⟩ := e
      rcases h.phases call _ hx with hk | hk | ⟨state, hk⟩ <;> simp only at hk <;> subst hk
      · exact .resets call _ hx (by simp [Reconciling]) (hresets fun t => Or.inr rfl)
      · exact .gone call id hx hlog (emit_last_done hx hs)
      · exact .resets call _ hx (by simp [Reconciling]) (hresets fun t => Or.inl rfl)

/-- A reconcile comes of a list, or of what it was before. -/
theorem Reconciling.back {call : Nat} {y : Call Unit} (hm : Moves w a call y)
    (hy : Reconciling y.phase) :
    a = .list call ∨ ∃ x, w.calls call = some x ∧ Reconciling x.phase := by
  cases hm with
  | listed _ process own slot => exact Or.inl rfl
  | compared _ process own records slot => exact Or.inr ⟨_, slot, trivial⟩
  | reporting _ process own records prior slot => exact Or.inr ⟨_, slot, trivial⟩
  | reported _ process own records e pending slot => exact Or.inr ⟨_, slot, trivial⟩
  | _ => exact hy.elim

theorem Removing.back {call : Nat} {y : Call Unit} (hm : Moves w a call y)
    (hy : Removing y.phase) :
    a = .remove call true ∨ ∃ x, w.calls call = some x ∧ Removing x.phase := by
  cases hm with
  | removed _ process id slot => exact Or.inl rfl
  | pruned _ process id slot listed => exact Or.inr ⟨_, slot, Or.inl ⟨id, rfl⟩⟩
  | gone _ process id slot => exact Or.inr ⟨_, slot, Or.inr ⟨id, rfl⟩⟩
  | _ =>
    rcases hy with ⟨id, hy⟩ | ⟨id, hy⟩
    · cases hy
    · exact hy.elim

variable (h : Calm w) (hs : w.step a = some w')
include h hs

theorem Calm.snapshot_step : ((w'.snapshot ()).map Prod.fst).Nodup := by
  cases Reconcile.snapshot_step hs with
  | same quiet alive eq => exact eq ▸ h.snapshot
  | restart process eq => simp [eq]
  | replace call process own records slot eq =>
    rw [eq, Function.update_self]
    exact (h.phases call _ slot).1
  | prune call process id slot eq =>
    rw [eq, Function.update_self]
    exact h.snapshot.sublist (List.filter_sublist.map _)

theorem Calm.alone_step (hok : Serial w a) {call other : Nat} {x y : Call Unit}
    (hne : call ≠ other) (hx : w'.calls call = some x) (hy : w'.calls other = some y)
    (hxr : Reconciling x.phase) : ¬Reconciling y.phase ∧ ¬Removing y.phase := by
  rcases call_step hs hx with hx | hmx
  · rcases call_step hs hy with hy | hmy
    · exact h.alone call other x y hne hx hy hxr
    · constructor
      · intro hyr
        rcases Reconciling.back hmy hyr with rfl | ⟨v, hv, hvr⟩
        · exact (hok call x hne hx).1 hxr
        · exact (h.alone call other x v hne hx hv hxr).1 hvr
      · intro hyr
        rcases Removing.back hmy hyr with rfl | ⟨v, hv, hvr⟩
        · exact hok call x hx hxr
        · exact (h.alone call other x v hne hx hv hxr).2 hvr
  · have hold : w.calls other = some y := by
      rcases call_step hs hy with hy | hmy
      · exact hy
      · exact absurd (hmx.unique hmy) hne
    rcases Reconciling.back hmx hxr with rfl | ⟨v, hv, hvr⟩
    · exact hok other y hne.symm hold
    · exact h.alone call other v y hne hv hold hvr

omit h in
theorem quiet_before (hreplace : ∀ call, a ≠ .replace call) (hrestart : ∀ process, a ≠ .restart process)
    (hquiet : ∀ call x, w'.calls call = some x → ¬Reporting x.phase) (call : Nat)
    (x : Call Unit) (hx : w.calls call = some x) : ¬Reporting x.phase := by
  obtain ⟨process, phase⟩ := x
  cases phase with
  | reporting own records pending =>
    obtain ⟨rest, hrest⟩ := reporting_stays hs hx (hreplace call) (hrestart process)
    exact absurd trivial (hquiet call _ hrest)
  | _ => exact id

/-- While nothing reports, the snapshot is in step with the log. -/
theorem Calm.settled_step (hquiet : ∀ call x, w'.calls call = some x → ¬Reporting x.phase)
    {id : String} {s : AgentStatus} (hmem : (id, s) ∈ w'.snapshot ()) :
    Agrees (trackOf w'.log id) s := by
  cases Reconcile.snapshot_step hs with
  | same quiet alive eq =>
    have hbefore := quiet_before hs (fun call => (quiet call).1) alive hquiet
    have hold := h.settled hbefore id s (eq ▸ hmem)
    cases h.log_step hs with
    | same heq => exact heq ▸ hold
    | resets call x slot hq hresets =>
      rcases hresets id with heq | hann
      · exact heq ▸ hold
      · exact Or.inl hann
    | gone call gone slot heq done =>
      have hne : gone ≠ id := by
        intro he
        subst he
        exact (h.vacated call _ gone slot rfl).1 (List.mem_map.mpr ⟨_, eq ▸ hmem, rfl⟩)
      rw [heq, trackOf_snoc_of_ne hne]
      exact hold
    | reported call own records e pending slot heq moved => exact absurd trivial (hbefore call _ slot)
  | restart process eq =>
    rw [eq, Function.update_self] at hmem
    cases hmem
  | replace call process own records slot eq =>
    rw [eq, Function.update_self] at hmem
    cases h.log_step hs with
    | same heq => exact heq ▸ ((h.phases call _ slot).2 id).2 s hmem
  | prune call process pruned slot eq =>
    rw [eq, Function.update_self] at hmem
    have hbefore := quiet_before hs (by simp) (by simp) hquiet
    cases h.log_step hs with
    | same heq => exact heq ▸ h.settled hbefore id s (List.mem_filter.mp hmem).1

/-- An agent that `rm_agent` is about to report as gone is not gone yet. -/
theorem Calm.vacated_step {call : Nat} {x : Call Unit} {id : String}
    (hx : w'.calls call = some x) (hv : Vacates x.phase id) :
    id ∉ (w'.snapshot ()).map Prod.fst ∧ trackOf w'.log id ≠ .gone := by
  rcases call_step hs hx with hx' | hm
  · obtain ⟨hout, hnot⟩ := h.vacated call x id hx' hv
    have hfree : ∀ other y, w.calls other = some y → ¬Reconciling y.phase := by
      intro other y hy hr
      by_cases hne : other = call
      · subst hne
        cases hy.symm.trans hx'
        exact hr.not_vacates hv
      · exact (h.alone other call y x hne hy hx' hr).2 (Or.inr ⟨id, hv⟩)
    constructor
    · cases Reconcile.snapshot_step hs with
      | same quiet alive eq => exact eq ▸ hout
      | restart process eq => simp [eq]
      | replace other process own records slot eq => exact absurd trivial (hfree other _ slot)
      | prune other process pruned slot eq =>
        rw [eq, Function.update_self]
        exact fun hmem => hout ((List.filter_sublist.map _).subset hmem)
    · cases h.log_step hs with
      | same heq => exact heq ▸ hnot
      | resets other y slot hq hresets =>
        rcases hresets id with heq | hann
        · exact heq ▸ hnot
        · simp [hann]
      | gone other gone slot heq done =>
        have hne : gone ≠ id := by
          intro he
          subst he
          cases h.apart call other x _ gone hx' slot hv rfl
          cases hx.symm.trans done
        rwa [heq, trackOf_snoc_of_ne hne]
      | reported other own records e pending slot heq moved =>
        exact absurd trivial (hfree other _ slot)
  · cases hm with
    | pruned _ process pruned slot listed =>
      obtain rfl : id = pruned := hv
      have hbefore : ∀ other y, w.calls other = some y → ¬Reporting y.phase :=
        h.unreported slot (fun hrep => hrep) (Or.inr (Or.inl ⟨id, rfl⟩))
      obtain ⟨⟨i, s⟩, hmem, rfl⟩ := List.mem_map.mp listed
      have hagree := h.settled hbefore i s hmem
      cases Reconcile.snapshot_step hs with
      | same quiet alive eq => exact absurd rfl (quiet call).2
      | prune other process' id' slot' eq =>
        cases slot.symm.trans slot'
        cases h.log_step hs with
        | same heq =>
          refine ⟨?_, heq ▸ hagree.not_gone⟩
          rw [eq, Function.update_self]
          simp
    | gone _ process gone slot =>
      obtain rfl : id = gone := hv
      obtain ⟨hout, hnot⟩ := h.vacated call _ id slot rfl
      cases Reconcile.snapshot_step hs with
      | same quiet alive eq =>
        cases h.log_step hs with
        | same heq => exact ⟨eq ▸ hout, heq ▸ hnot⟩
    | _ => exact hv.elim

/-- A reconcile under way finds the snapshot as it was. -/
theorem Calm.snapshot_held {call : Nat} {x : Call Unit} (hx : w.calls call = some x)
    (hx' : w'.calls call = some x) (hr : Reconciling x.phase) (hnot : ¬Reporting x.phase) :
    w'.snapshot () = w.snapshot () := by
  cases Reconcile.snapshot_step hs with
  | same quiet alive eq => rw [eq]
  | restart process eq => exact absurd rfl (restart_calls hs hx')
  | replace other process own records slot eq =>
    exact absurd trivial (h.unreported hx hnot (Or.inl hr) other _ slot)
  | prune other process pruned slot eq =>
    have hne : call ≠ other := by
      intro he
      subst he
      cases slot.symm.trans hx
      exact hr
    exact absurd (Or.inl ⟨pruned, rfl⟩) (h.alone call other x _ hne hx slot hr).2

/-- What a reconcile has left to report goes on continuing the log. -/
theorem Calm.continues {call : Nat} {process : Unit} {own : Bool} {records : Roster}
    {pending : List Entry} (hx : w.calls call = some ⟨process, .reporting own records pending⟩)
    (hx' : w'.calls call = some ⟨process, .reporting own records pending⟩) :
    Continues w'.log pending records := by
  have hold := (h.phases call _ hx).2
  cases h.log_step hs with
  | same heq => exact heq ▸ hold
  | resets other y slot hq hresets => exact hold.resets hresets
  | gone other gone slot heq done =>
    have hne : call ≠ other := by
      intro he
      subst he
      cases slot.symm.trans hx
    exact absurd (Or.inr ⟨gone, rfl⟩) (h.alone call other _ _ hne hx slot trivial).2
  | reported other own' records' e pending' slot heq moved =>
    have hne : call ≠ other := by
      intro he
      subst he
      cases slot.symm.trans hx
      have hsame := moved.symm.trans hx'
      simp at hsame
    exact absurd trivial (h.alone call other _ _ hne hx slot trivial).1

theorem Calm.phases_step (hok : Serial w a) {call : Nat} {x : Call Unit}
    (hx : w'.calls call = some x) : PhaseOk w'.log (w'.snapshot ()) x.phase := by
  rcases call_step hs hx with hx' | hm
  · have hold := h.phases call x hx'
    obtain ⟨process, phase⟩ := x
    cases phase with
    | compared own records prior =>
      obtain ⟨hown, hrecords, hprior⟩ := hold
      exact ⟨hown, hrecords, hprior.trans (h.snapshot_held hs hx' hx trivial id).symm⟩
    | reporting own records pending => exact ⟨hold.1, h.continues hs hx' hx⟩
    | _ => exact hold
  · cases hm with
    | acquired _ process slot =>
      show (w.tryAcquire process).2 = true
      unfold World.tryAcquire
      split <;> simp
    | listed _ process own slot => exact ⟨h.phases call _ slot, h.registry⟩
    | compared _ process own records slot =>
      obtain ⟨hown, hrecords⟩ := h.phases call _ slot
      cases Reconcile.snapshot_step hs with
      | same quiet alive eq => exact ⟨hown, hrecords, congrFun eq.symm ()⟩
    | reporting _ process own records prior slot =>
      obtain ⟨rfl, hrecords, rfl⟩ := h.phases call _ slot
      have hbefore : ∀ other y, w.calls other = some y → ¬Reporting y.phase :=
        h.unreported slot (fun hrep => hrep) (Or.inl trivial)
      cases h.log_step hs with
      | same heq =>
        refine ⟨hrecords, fun id => ?_⟩
        rw [heq]
        exact diff_fits hrecords h.snapshot (h.settled hbefore id)
          fun hin hout hat => hok _ true records _ slot rfl id hin hout hat
    | reported _ process own records e pending slot =>
      obtain ⟨hrecords, hold⟩ := h.phases call _ slot
      refine ⟨hrecords, fun id => ?_⟩
      have hlog : w'.log = w.log ++ [e] := by
        rw [Reconcile.log_step hs]
        simp [emits, slot]
      obtain ⟨haccepts, hagrees⟩ := hold id
      rw [hlog]
      by_cases he : e.agentId = id
      · subst he
        rw [kindsOf_cons_self] at haccepts hagrees
        rw [trackOf_snoc]
        exact ⟨haccepts.2, hagrees⟩
      · rw [kindsOf_cons_of_ne he] at haccepts hagrees
        rw [trackOf_snoc_of_ne he]
        exact ⟨haccepts, hagrees⟩
    | gone _ process gone slot => exact Or.inr (Or.inl rfl)
    | spawned _ process spawned slot => exact Or.inl rfl
    | unreachable _ process own reason state slot => exact Or.inr (Or.inr ⟨state, rfl⟩)
    | recovered _ process own records state slot => exact Or.inr (Or.inr ⟨state, rfl⟩)
    | _ => trivial

theorem Calm.vacates_once {call other : Nat} {x y : Call Unit} {id : String}
    (hm : Moves w a call x) (hy : w.calls other = some y) (hne : call ≠ other)
    (hxv : Vacates x.phase id) (hyv : Vacates y.phase id) : False := by
  cases hm with
  | pruned _ process pruned slot listed =>
    obtain rfl : id = pruned := hxv
    exact (h.vacated other y id hy hyv).1 listed
  | gone _ process gone slot =>
    obtain rfl : id = gone := hxv
    exact hne (h.apart call other _ y id slot hy rfl hyv)
  | _ => exact hxv

theorem Calm.apart_step {call other : Nat} {x y : Call Unit} {id : String}
    (hx : w'.calls call = some x) (hy : w'.calls other = some y) (hxv : Vacates x.phase id)
    (hyv : Vacates y.phase id) : call = other := by
  by_contra hne
  rcases call_step hs hx with hx | hmx
  · rcases call_step hs hy with hy | hmy
    · exact hne (h.apart call other x y id hx hy hxv hyv)
    · exact h.vacates_once hs hmy hx (Ne.symm hne) hyv hxv
  · rcases call_step hs hy with hy | hmy
    · exact h.vacates_once hs hmx hy hne hxv hyv
    · exact hne (hmx.unique hmy)

theorem Calm.step (hok : Serial w a) : Calm w' := by
  refine ⟨?_, h.snapshot_step hs, fun call x => h.phases_step hs hok, ?_, ?_, ?_, ?_⟩
  · exact registry_nodup hs h.registry
  · exact fun call other x y => h.alone_step hs hok
  · exact fun hquiet id s => h.settled_step hs hquiet
  · exact fun call x id => h.vacated_step hs
  · exact fun call other x y id => h.apart_step hs

end Calm

/-- One process, which has every lease for the asking. Its lifecycle events form a
chain exactly when each is emitted on a log that allows it, which holds where no
reconcile overlaps with another or with a removal. -/
theorem lifecycle_chain_iff (registry : Roster) (log : List Entry) (as : List (Action Unit))
    (w : World Unit) (hregistry : (registry.map Prod.fst).Nodup)
    (hlog : Chain (World.start registry log : World Unit))
    (h : Machine.run World.step (World.start registry log) as = some w) :
    (Machine.Always World.step Chain (World.start registry log) as ↔
      Machine.Steps World.step Fits (World.start registry log) as) ∧
    (Machine.Steps World.step Serial (World.start registry log) as →
      Machine.Steps World.step Fits (World.start registry log) as) := by
  constructor
  · apply Machine.always_iff_steps (P := Chain) (fun _ hc => hc) ?_ ?_ hlog h
    · intro s a s' hc hok hs
      exact hc.step hok hs
    · intro s a s' hc hbad hs
      exact chain_broken hc hbad hs
  · apply Machine.steps_of_steps (P := Calm) ?_ ?_ (.start hregistry log)
    · intro s a hc _
      exact hc.fits
    · intro s a s' hc hok hs
      exact hc.step hs hok

/-- A reconcile from its acquire to the reading of its snapshot. -/
def readUp (call : Nat) : List (Action Unit) :=
  [.poll call (), .list call, .readPrior call]

/-- An `rm_agent` from its lookup to its `AgentGone`. -/
def rmAgent (call : Nat) (id : String) : List (Action Unit) :=
  [.rm call () id, .remove call true, .prune call, .acquireGone call, .emit call]

/-- An agent is discovered, finishes and is removed, one thing at a time. -/
def seenOff : List (Action Unit) :=
  readUp 0 ++ [.diff 0, .emit 0, .replace 0, .caliband "a" (some .done)] ++
    readUp 1 ++ [.diff 1, .emit 1, .replace 1] ++ rmAgent 2 "a"

theorem seen_off_chain :
    ∃ w, Machine.run World.step (World.start [("a", .running)] []) seenOff = some w ∧
      w.log = [⟨"a", .agentDiscovered⟩, ⟨"a", .statusChanged .running .done⟩, ⟨"a", .agentGone⟩] ∧
      (Machine.Always World.step Chain (World.start [("a", .running)] []) seenOff ↔
        Machine.Steps World.step Fits (World.start [("a", .running)] []) seenOff) :=
  ⟨_, rfl, rfl, (lifecycle_chain_iff [("a", .running)] [] seenOff _ (by decide)
    (fun _ => trivial) rfl).1⟩

/-- The agent is removed while a reconcile is at work with a list that still has it. -/
def resurrected : List (Action Unit) :=
  readUp 0 ++ [.diff 0, .emit 0, .replace 0] ++ readUp 1 ++ rmAgent 2 "a" ++
    [.diff 1, .replace 1] ++ readUp 3 ++ [.diff 3, .emit 3, .replace 3]

theorem removed_agent_gone_twice :
    ¬∀ (registry : Roster) (log : List Entry) (as : List (Action Unit)) (w : World Unit),
      (registry.map Prod.fst).Nodup → Chain (World.start registry log : World Unit) →
      Machine.run World.step (World.start registry log) as = some w →
      Machine.Always World.step Chain (World.start registry log) as := by
  intro h
  have hall := h [("a", .running)] [] resurrected _ (by decide) (fun _ => trivial) rfl
  have hend := Machine.always_end hall rfl "a"
  have hkinds : Monitor.Accepts Track.next Track.Allows .announced
      [.agentDiscovered, .agentGone, .agentGone] := hend
  exact hkinds.2.2.1

end Prospero.Proofs.Lifecycle
