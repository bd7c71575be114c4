import Prospero.Lib.Machine
import Prospero.Outcomes
import Prospero.Proofs.Reconcile
import Prospero.Proofs.Usage

namespace Prospero.Proofs.Outcomes
open Prospero.Reconcile hiding World World.step World.start
open Prospero.Outcomes
open Prospero.Proofs.Reconcile
open Prospero.Proofs.Usage

variable {π : Type}

/-- The terminal transitions that a log has of an agent. -/
def outcomes (log : List Entry) (id : String) : Nat := (kindsOf log id).countP isOutcome

/-- The durable history that the log's events make up, each with a day. -/
def Records (events : List FleetEvent) (log : List Entry) : Prop :=
  (events.map fun e => (⟨e.agentId, e.kind⟩ : Entry)) = log ∧
    ∀ e ∈ events, (Usage.dayOf e.ts).isSome

/-- A finished agent is reported once, and has been when the owner of the lease
has had a whole reconcile to do so. Usage counts what was reported. -/
structure CountedOnce (w : World π) : Prop where
  once : ∀ id, outcomes w.fleet.log id ≤ 1
  real : ∀ id, 0 < outcomes w.fleet.log id → id ∈ w.finished.map Prod.fst
  due : ∀ id ∈ w.due, outcomes w.fleet.log id = 1
  usage : ∀ events, Records events w.fleet.log → (∀ a ∈ w.finished, a.1 ∈ w.due) →
    finishedRuns (Usage.aggregateUsage events) = w.finished.length

/-- Another reconcile is about to report the agent's outcome. -/
def Reports (w : World π) (id : String) : Prop :=
  ∃ call process own records pending,
    w.fleet.calls call = some ⟨process, .reporting own records pending⟩ ∧ 0 < outcomes pending id

/-- When the owner of the lease compares, each agent that had finished by the list
either is on record and not in another status in the snapshot, or is not on record,
nor about to be, and still listed, in another status than in the snapshot. -/
def Accounts (w : World π) : Reconcile.Action π → Prop
  | .diff call => ∀ process records prior,
      w.fleet.calls call = some ⟨process, .compared true records prior⟩ → ∀ id ∈ w.seen call,
      (0 < outcomes w.fleet.log id ∧
        ∀ s old, (id, s) ∈ records → prior.lookup id = some old → old = s) ∨
      (outcomes w.fleet.log id = 0 ∧ ¬Reports w id ∧
        ∃ s old, (id, s) ∈ records ∧ prior.lookup id = some old ∧ old ≠ s)
  | _ => True

section Count

variable {log : List Entry} {id : String}

@[simp] theorem outcomes_append (log log' : List Entry) (id : String) :
    outcomes (log ++ log') id = outcomes log id + outcomes log' id := by
  simp [outcomes]

theorem outcomes_cons (e : Entry) (log : List Entry) (id : String) : outcomes (e :: log) id =
    outcomes log id + (if e.agentId = id ∧ isOutcome e.kind then 1 else 0) := by
  by_cases h : e.agentId = id
  · subst h
    simp [outcomes, List.countP_cons]
  · simp [outcomes, kindsOf_cons_of_ne h, h]

@[simp] theorem outcomes_nil (id : String) : outcomes [] id = 0 := rfl

theorem sum_indicator (ids : List String) (id : String) :
    (ids.map fun i => if id = i then 1 else 0).sum = ids.count id := by
  induction ids with
  | nil => rfl
  | cons i ids ih =>
    rw [List.map_cons, List.sum_cons, ih, List.count_cons, Nat.add_comm]
    by_cases hi : id = i
    · simp [hi]
    · simp [hi, Ne.symm hi]

/-- Where every reported agent is among the given ones, their counts add up. -/
theorem countP_eq_sum (ids : List String) (hids : ids.Nodup)
    (hlog : ∀ id, 0 < outcomes log id → id ∈ ids) :
    log.countP (fun e => isOutcome e.kind) = (ids.map (outcomes log)).sum := by
  induction log with
  | nil => simp [List.sum_eq_zero]
  | cons e log ih =>
    have hrest := ih fun id h => hlog id (by rw [outcomes_cons]; omega)
    have hsum : (ids.map (outcomes (e :: log))).sum = (ids.map (outcomes log)).sum +
        (ids.map fun id => if e.agentId = id ∧ isOutcome e.kind then 1 else 0).sum := by
      rw [← List.sum_map_add]
      exact congrArg List.sum (List.map_congr_left fun id _ => outcomes_cons e log id)
    rw [List.countP_cons, hrest, hsum]
    congr 1
    by_cases hk : isOutcome e.kind
    · have hmem : e.agentId ∈ ids := by
        apply hlog
        rw [outcomes_cons, if_pos ⟨rfl, hk⟩]
        exact Nat.succ_pos _
      simp only [hk, and_true, if_true]
      rw [sum_indicator, List.count_eq_one_of_mem hids hmem]
    · simp [hk]

end Count

section Diff

variable {own : Bool} {prior records : Roster} {attachedNow : List String} {id : String}

/-- A reconcile reports an outcome when it compares a terminal record with a
different status. -/
theorem diff_outcomes (hrecords : (records.map Prod.fst).Nodup) :
    outcomes (diff own prior attachedNow records) id ≤ 1 ∧
    (0 < outcomes (diff own prior attachedNow records) id ↔
      own = true ∧ ∃ s old, (id, s) ∈ records ∧ s.isTerminal = true ∧
        prior.lookup id = some old ∧ old ≠ s) := by
  have hgone : outcomes (prior.filterMap (diffGone own records)) id = 0 := by
    refine List.countP_eq_zero.mpr ?_
    intro kind hkind
    obtain ⟨e, he, rfl⟩ := List.mem_map.mp hkind
    obtain ⟨a, -, ha⟩ := List.mem_filterMap.mp (List.mem_filter.mp he).1
    cases (Option.ite_none_right_eq_some.mp ha).2
    simp [isOutcome]
  rw [diff, outcomes_append, hgone, Nat.add_zero]
  by_cases hid : id ∈ records.map Prod.fst
  · obtain ⟨⟨i, s⟩, hs, rfl⟩ := List.mem_map.mp hid
    have hone : ∀ s', (i, s') ∈ records → s' = s := fun s' hs' =>
      congrArg Prod.snd (List.inj_on_of_nodup_map hrecords hs' hs rfl)
    have hcount : outcomes (records.filterMap (diffRecord own prior attachedNow)) i =
        ((diffRecord own prior attachedNow (i, s)).toList.map Entry.kind).countP isOutcome := by
      rw [outcomes, kindsOf_listed (fun _ _ => diffRecord_id) hrecords hs]
    rw [hcount]
    cases hp : prior.lookup i with
    | none =>
      have hzero : ((diffRecord own prior attachedNow (i, s)).toList.map Entry.kind).countP
          isOutcome = 0 := by
        simp only [diffRecord, hp]
        split <;> simp [isOutcome]
      simp [hzero]
    | some old =>
      by_cases hspeaks : own = true ∧ old ≠ s
      · have hdiff : diffRecord own prior attachedNow (i, s) =
            some ⟨i, .statusChanged old s⟩ := by
          simp only [diffRecord, hp]
          rw [if_pos hspeaks]
        rw [hdiff]
        cases ht : s.isTerminal with
        | true =>
          simp only [Option.toList_some, List.map_cons, List.map_nil, List.countP_cons,
            List.countP_nil, isOutcome, ht]
          exact ⟨Nat.le_refl 1, fun _ => ⟨hspeaks.1, s, old, hs, ht, rfl, hspeaks.2⟩,
            fun _ => Nat.zero_lt_one⟩
        | false =>
          simp only [Option.toList_some, List.map_cons, List.map_nil, List.countP_cons,
            List.countP_nil, isOutcome, ht]
          refine ⟨Nat.zero_le 1, fun h => absurd h (by simp), ?_⟩
          rintro ⟨-, s', old', hs', ht', -⟩
          rw [hone s' hs', ht] at ht'
          cases ht'
      · have hdiff : diffRecord own prior attachedNow (i, s) = none := by
          simp only [diffRecord, hp]
          rw [if_neg hspeaks]
        rw [hdiff]
        refine ⟨Nat.zero_le 1, fun h => absurd h (by simp), ?_⟩
        rintro ⟨hown, s', old', hs', -, hold, hne⟩
        cases hold
        exact absurd ⟨hown, hone s' hs' ▸ hne⟩ hspeaks
  · have hzero : outcomes (records.filterMap (diffRecord own prior attachedNow)) id = 0 := by
      rw [outcomes, kindsOf_unlisted (fun _ _ => diffRecord_id) hid, List.countP_nil]
    rw [hzero]
    refine ⟨Nat.zero_le 1, fun h => absurd h (by simp), ?_⟩
    rintro ⟨-, s, -, hs, -⟩
    exact absurd (List.mem_map.mpr ⟨(id, s), hs, rfl⟩) hid

end Diff

/-- The list that a reconcile works from. -/
def recordsOf : Phase → Option Roster
  | .listed _ records | .compared _ records _ | .reporting _ records _ => some records
  | _ => none

/-- The reconcile has these events left to report. -/
def Pending (w : World π) (call : Nat) (pending : List Entry) : Prop :=
  ∃ process own records, w.fleet.calls call = some ⟨process, .reporting own records pending⟩

structure Inv (w : World π) : Prop where
  ids : (w.finished.map Prod.fst).Nodup
  terminal : ∀ a ∈ w.finished, a.2.isTerminal = true
  registry : (w.fleet.registry.map Prod.fst).Nodup
  final : ∀ id s, (id, s) ∈ w.fleet.registry →
    (s.isTerminal = true ↔ id ∈ w.finished.map Prod.fst)
  seen : ∀ call, ∀ id ∈ w.seen call, id ∈ w.finished.map Prod.fst
  lists : ∀ call x records, w.fleet.calls call = some x → recordsOf x.phase = some records →
    (records.map Prod.fst).Nodup ∧
    ∀ id s, (id, s) ∈ records → (s.isTerminal = true ↔ id ∈ w.seen call)
  reports : ∀ call process records pending,
    w.fleet.calls call = some ⟨process, .reporting true records pending⟩ →
    ∀ id ∈ w.seen call, outcomes w.fleet.log id = 1 ∨ outcomes pending id = 1
  pending : ∀ call pending, Pending w call pending → ∀ id, outcomes pending id ≤ 1 ∧
    (0 < outcomes pending id →
      outcomes w.fleet.log id = 0 ∧ id ∈ w.finished.map Prod.fst)
  apart : ∀ call other pending pending', call ≠ other → Pending w call pending →
    Pending w other pending' → ∀ id, 0 < outcomes pending id → outcomes pending' id = 0
  lasts : ∀ call process e, w.fleet.calls call = some ⟨process, .last e⟩ →
    isOutcome e.kind = false
  once : ∀ id, outcomes w.fleet.log id ≤ 1
  real : ∀ id, 0 < outcomes w.fleet.log id → id ∈ w.finished.map Prod.fst
  due : ∀ id ∈ w.due, outcomes w.fleet.log id = 1

theorem Inv.start [DecidableEq π] : Inv (World.start : World π) := by
  constructor <;> simp [World.start, Reconcile.World.start, Pending]

theorem Inv.countedOnce {w : World π} (h : Inv w) : CountedOnce w := by
  refine ⟨h.once, h.real, h.due, ?_⟩
  rintro events ⟨hlog, hdays⟩ hdue
  have hcount : events.countP (fun e => isOutcome e.kind) =
      w.fleet.log.countP fun e => isOutcome e.kind := by
    rw [← hlog, List.countP_map]
    rfl
  have hones : (w.finished.map Prod.fst).map (outcomes w.fleet.log) =
      w.finished.map fun _ => 1 := by
    rw [List.map_map]
    exact List.map_congr_left fun a ha => h.due a.1 (hdue a ha)
  rw [aggregateUsage_finishedRuns hdays, hcount, countP_eq_sum _ h.ids h.real, hones]
  simp

section Step

variable [DecidableEq π] {w w' : World π} {a : Reconcile.Action π}

theorem step_fleet (h : w.step a = some w') : w.admits a = true ∧
    w.fleet.step a = some w'.fleet ∧ w'.finished = w.nowFinished a ∧ w'.seen = w.nowSeen a ∧
    w'.due = w.nowDue a := by
  unfold World.step at h
  split at h
  · obtain ⟨f, hf, rfl⟩ := Option.map_eq_some_iff.mp h
    exact ⟨‹_›, hf, rfl, rfl, rfl⟩
  · cases h

omit [DecidableEq π] in
/-- Agents finish one at a time, and stay finished. -/
theorem nowFinished_mem (w : World π) (a : Reconcile.Action π) :
    w.nowFinished a = w.finished ∨ ∃ id s, a = .caliband id (some s) ∧ s.isTerminal = true ∧
      id ∉ w.finished.map Prod.fst ∧ w.nowFinished a = w.finished ++ [(id, s)] := by
  cases a with
  | caliband id status =>
    cases status with
    | none => exact Or.inl rfl
    | some s =>
      simp only [World.nowFinished]
      split
      · rename_i hnew
        exact Or.inr ⟨id, s, rfl, hnew.1, lookup_none.mp hnew.2, rfl⟩
      · exact Or.inl rfl
  | _ => exact Or.inl rfl

omit [DecidableEq π] in
theorem nowFinished_quiet (w : World π) (ha : ∀ id status, a ≠ .caliband id status) :
    w.nowFinished a = w.finished := by
  rcases nowFinished_mem w a with heq | ⟨i, s, rfl, -⟩
  · exact heq
  · exact absurd rfl (ha i _)

theorem finished_grows (h : w.step a = some w') {id : String}
    (hid : id ∈ w.finished.map Prod.fst) : id ∈ w'.finished.map Prod.fst := by
  rw [(step_fleet h).2.2.1]
  rcases nowFinished_mem w a with heq | ⟨i, s, -, -, -, heq⟩
  · rwa [heq]
  · rw [heq, List.map_append]
    exact List.mem_append_left _ hid

theorem Inv.terminal_step (h : Inv w) (hs : w.step a = some w') :
    (w'.finished.map Prod.fst).Nodup ∧ ∀ a ∈ w'.finished, a.2.isTerminal = true := by
  rw [(step_fleet hs).2.2.1]
  rcases nowFinished_mem w a with heq | ⟨i, s, -, hterminal, hnew, heq⟩
  · exact heq ▸ ⟨h.ids, h.terminal⟩
  · rw [heq, List.map_append]
    constructor
    · exact List.Nodup.append h.ids (List.nodup_singleton _) (by simpa using hnew)
    · intro b hb
      rcases List.mem_append.mp hb with hb | hb
      · exact h.terminal b hb
      · obtain rfl := List.mem_singleton.mp hb
        exact hterminal

omit [DecidableEq π] in
/-- What caliband says of an agent's status it says for good. -/
theorem Inv.caliband_step (h : Inv w) {id : String} {s : AgentStatus}
    (hadmits : w.admits (.caliband id (some s)) = true) :
    s.isTerminal = true ↔ id ∈ (w.nowFinished (.caliband id (some s))).map Prod.fst := by
  simp only [World.admits] at hadmits
  simp only [World.nowFinished]
  cases hl : w.finished.lookup id with
  | none =>
    have hnot := lookup_none.mp hl
    cases hterm : s.isTerminal with
    | true => simp
    | false => simpa using hnot
  | some final =>
    have hmem := mem_of_lookup hl
    simp only [hl, reduceCtorEq, decide_false, Bool.false_or, decide_eq_true_eq,
      Option.some.injEq] at hadmits
    subst hadmits
    rw [if_neg (by simp)]
    exact ⟨fun _ => List.mem_map.mpr ⟨_, hmem, rfl⟩, fun _ => h.terminal _ hmem⟩

theorem Inv.final_step (h : Inv w) (hs : w.step a = some w') {id : String} {s : AgentStatus}
    (hmem : (id, s) ∈ w'.fleet.registry) :
    s.isTerminal = true ↔ id ∈ w'.finished.map Prod.fst := by
  obtain ⟨hadmits, hf, hfin, -⟩ := step_fleet hs
  rw [hfin]
  cases registry_step hf with
  | same quiet eq =>
    rw [nowFinished_quiet w quiet]
    exact h.final id s (eq ▸ hmem)
  | caliband i status eq =>
    rcases mem_register (eq ▸ hmem) with ⟨hne, hmem⟩ | ⟨rfl, rfl⟩
    · rw [h.final id s hmem]
      rcases nowFinished_mem w (.caliband i status) with heq | ⟨i', s', hact, -, -, heq⟩
      · rw [heq]
      · cases hact
        simp [heq, hne]
    · exact h.caliband_step hadmits
  | spawn call process i eq =>
    rw [nowFinished_quiet w (by simp)]
    rcases mem_register (eq ▸ hmem) with ⟨-, hmem⟩ | ⟨rfl, hs'⟩
    · exact h.final id s hmem
    · cases hs'
      simp only [World.admits, Option.isNone_iff_eq_none] at hadmits
      simpa [AgentStatus.isTerminal] using lookup_none.mp hadmits
  | remove call i eq =>
    rw [nowFinished_quiet w (by simp)]
    rcases mem_register (eq ▸ hmem) with ⟨-, hmem⟩ | ⟨-, hs'⟩
    · exact h.final id s hmem
    · cases hs'

/-- A reconcile sees what has finished when it fetches its list. -/
theorem seen_step (hs : w.step a = some w') (call : Nat) :
    (a = .list call ∧ w'.seen call = w.finished.map Prod.fst) ∨
      (a ≠ .list call ∧ w'.seen call = w.seen call) := by
  rw [(step_fleet hs).2.2.2.1]
  cases a with
  | list other =>
    by_cases ho : call = other
    · subst ho
      exact Or.inl ⟨rfl, Function.update_self ..⟩
    · exact Or.inr ⟨by simp [Ne.symm ho], Function.update_of_ne ho ..⟩
  | _ => exact Or.inr ⟨by simp, rfl⟩

/-- What a reconcile has seen stays with it to its end. -/
theorem seen_held (hs : w.step a = some w') {call : Nat} {x : Call π} {records : Roster}
    (hx : w.fleet.calls call = some x) (hrecords : recordsOf x.phase = some records) :
    w'.seen call = w.seen call := by
  rcases seen_step hs call with ⟨rfl, -⟩ | ⟨-, heq⟩
  · obtain ⟨process, own, hslot⟩ := list_slot (step_fleet hs).2.1
    cases hx.symm.trans hslot
    cases hrecords
  · exact heq

theorem Inv.seen_step (h : Inv w) (hs : w.step a = some w') (call : Nat) {id : String}
    (hid : id ∈ w'.seen call) : id ∈ w'.finished.map Prod.fst := by
  apply finished_grows hs
  rcases Outcomes.seen_step hs call with ⟨-, heq⟩ | ⟨-, heq⟩
  · exact heq ▸ hid
  · exact h.seen call id (heq ▸ hid)

theorem Inv.lists_step (h : Inv w) (hs : w.step a = some w') {call : Nat} {x : Call π}
    {records : Roster} (hx : w'.fleet.calls call = some x)
    (hrecords : recordsOf x.phase = some records) : (records.map Prod.fst).Nodup ∧
      ∀ id s, (id, s) ∈ records → (s.isTerminal = true ↔ id ∈ w'.seen call) := by
  have hkept : ∀ y, w.fleet.calls call = some y → recordsOf y.phase = some records →
      (records.map Prod.fst).Nodup ∧
        ∀ id s, (id, s) ∈ records → (s.isTerminal = true ↔ id ∈ w'.seen call) := by
    intro y hy hrec
    rw [seen_held hs hy hrec]
    exact h.lists call y records hy hrec
  rcases call_step (step_fleet hs).2.1 hx with hold | hm
  · exact hkept x hold hrecords
  · cases hm with
    | listed _ process own slot =>
      cases hrecords
      refine ⟨h.registry, fun id s hmem => ?_⟩
      rcases Outcomes.seen_step hs call with ⟨-, heq⟩ | ⟨hne, -⟩
      · rw [heq]
        exact h.final id s hmem
      · exact absurd rfl hne
    | compared _ process own records' slot => exact hkept _ slot hrecords
    | reporting _ process own records' prior slot => exact hkept _ slot hrecords
    | reported _ process own records' e pending slot => exact hkept _ slot hrecords
    | _ => cases hrecords

/-- What a step adds to the log's counts. -/
inductive Told (w w' : World π) : Reconcile.Action π → Prop
  | quiet {a : Reconcile.Action π}
      (still : ∀ call e pending, a = .emit call → ¬Pending w call (e :: pending))
      (same : ∀ id, outcomes w'.fleet.log id = outcomes w.fleet.log id) : Told w w' a
  | told (call : Nat) (e : Entry) (pending : List Entry) (slot : Pending w call (e :: pending))
      (log : ∀ id, outcomes w'.fleet.log id =
        outcomes w.fleet.log id + (if e.agentId = id ∧ isOutcome e.kind then 1 else 0)) :
      Told w w' (.emit call)

theorem Inv.told (h : Inv w) (hs : w.step a = some w') : Told w w' a := by
  have hlog := log_step (step_fleet hs).2.1
  cases he : emits w.fleet a with
  | none =>
    rw [he, Option.toList_none, List.append_nil] at hlog
    refine .quiet ?_ (by simp [hlog])
    rintro call e pending rfl ⟨process, own, records, hx⟩
    simp [emits, hx] at he
  | some e =>
    rw [he, Option.toList_some] at hlog
    have hcount : ∀ id, outcomes w'.fleet.log id =
        outcomes w.fleet.log id + (if e.agentId = id ∧ isOutcome e.kind then 1 else 0) := by
      intro id
      rw [hlog, outcomes_append, outcomes_cons, outcomes_nil, Nat.zero_add]
    obtain ⟨call, process, rfl, ⟨own, records, pending, hx⟩ | hx⟩ := emits_some he
    · exact .told call e pending ⟨process, own, records, hx⟩ hcount
    · refine .quiet ?_ ?_
      · rintro other e' pending hact ⟨process', own, records, hy⟩
        cases hact
        cases hx.symm.trans hy
      · intro id
        rw [hcount, h.lasts call process e hx]
        simp

/-- What is left to report was left before, with at most one event more, or has
just been computed. -/
theorem pending_back (hs : w.step a = some w') {call : Nat} {pending : List Entry}
    (hp : Pending w' call pending) :
    (a ≠ .diff call ∧
      ∃ before, Pending w call before ∧ ∀ id, outcomes pending id ≤ outcomes before id) ∨
    (a = .diff call ∧ ∃ process own records prior,
      w.fleet.calls call = some ⟨process, .compared own records prior⟩ ∧
      pending = diff own prior (w.fleet.attached process) records) := by
  obtain ⟨process, own, records, hx⟩ := hp
  rcases reporting_back (step_fleet hs).2.1 hx with ⟨-, hold⟩ | ⟨hact, e, hold⟩ |
    ⟨hact, prior, hold, heq⟩
  · refine Or.inl ⟨?_, pending, ⟨process, own, records, hold⟩, fun _ => Nat.le_refl _⟩
    rintro rfl
    obtain ⟨_, _, _, _, hslot⟩ := diff_slot (step_fleet hs).2.1
    cases hold.symm.trans hslot
  · refine Or.inl ⟨by simp [hact], e :: pending, ⟨process, own, records, hold⟩, fun id => ?_⟩
    rw [outcomes_cons]
    exact Nat.le_add_right _ _
  · exact Or.inr ⟨hact, process, own, records, prior, hold, heq⟩

omit [DecidableEq π] in
/-- What a reconcile sets out to report is neither on record nor about to be. -/
theorem Inv.computed (h : Inv w) {call : Nat} {process : π} {own : Bool} {records prior : Roster}
    {attachedNow : List String} {id : String} (hok : Accounts w (.diff call))
    (hx : w.fleet.calls call = some ⟨process, .compared own records prior⟩)
    (hpos : 0 < outcomes (diff own prior attachedNow records) id) :
    outcomes w.fleet.log id = 0 ∧ ¬Reports w id ∧ id ∈ w.seen call := by
  obtain ⟨hnodup, hterm⟩ := h.lists call _ records hx rfl
  obtain ⟨rfl, s, old, hmem, hs, hold, hne⟩ := (diff_outcomes hnodup).2.mp hpos
  have hseen := (hterm id s hmem).mp hs
  rcases hok process records prior hx id hseen with ⟨-, hsame⟩ | ⟨hzero, halone, -⟩
  · exact absurd (hsame s old hmem hold) hne
  · exact ⟨hzero, halone, hseen⟩

/-- An event that is emitted was left to report, and by this reconcile alone. -/
theorem Inv.told_pending (h : Inv w) (hs : w.step a = some w') {call : Nat}
    {pending : List Entry} {id : String} (hp : Pending w' call pending)
    (hpos : 0 < outcomes pending id) (hact : a ≠ .diff call) :
    outcomes w'.fleet.log id = 0 := by
  obtain ⟨process, own, records, hx⟩ := hp
  have hkept : ∀ before, Pending w call before → 0 < outcomes before id →
      outcomes w.fleet.log id = 0 := fun before hb hpos => ((h.pending call before hb id).2 hpos).1
  cases h.told hs with
  | quiet still same =>
    rw [same]
    rcases reporting_back (step_fleet hs).2.1 hx with ⟨-, hold⟩ | ⟨-, e, hold⟩ | ⟨hdiff, -⟩
    · exact hkept pending ⟨process, own, records, hold⟩ hpos
    · refine hkept (e :: pending) ⟨process, own, records, hold⟩ ?_
      rw [outcomes_cons]
      exact Nat.add_pos_left hpos _
    · exact absurd hdiff hact
  | told other e rest slot log =>
    rw [log]
    rcases reporting_back (step_fleet hs).2.1 hx with ⟨hne, hold⟩ | ⟨heq, e', hold⟩ | ⟨hdiff, -⟩
    · have hother : other ≠ call := fun he => hne (by rw [he])
      rw [hkept pending ⟨process, own, records, hold⟩ hpos]
      by_contra hnot
      have hspeaks : 0 < outcomes (e :: rest) id := by
        rw [outcomes_cons]
        omega
      have hzero := h.apart other call _ _ hother slot ⟨process, own, records, hold⟩ id hspeaks
      omega
    · cases heq
      obtain ⟨process', own', records', hslot⟩ := slot
      cases hold.symm.trans hslot
      have hone := (h.pending call (e :: pending) ⟨process, own, records, hold⟩ id)
      rw [outcomes_cons] at hone
      have hlog := (hone.2 (by omega)).1
      omega
    · exact absurd hdiff hact

theorem Inv.pending_step (h : Inv w) (hok : Accounts w a) (hs : w.step a = some w')
    {call : Nat} {pending : List Entry} (hp : Pending w' call pending) (id : String) :
    outcomes pending id ≤ 1 ∧ (0 < outcomes pending id →
      outcomes w'.fleet.log id = 0 ∧ id ∈ w'.finished.map Prod.fst) := by
  rcases pending_back hs hp with ⟨hact, before, hb, hle⟩ | ⟨rfl, process, own, records, prior, hx, rfl⟩
  · obtain ⟨hone, hrest⟩ := h.pending call before hb id
    refine ⟨le_trans (hle id) hone, fun hpos => ⟨?_, ?_⟩⟩
    · exact h.told_pending hs hp hpos hact
    · exact finished_grows hs (hrest (lt_of_lt_of_le hpos (hle id))).2
  · refine ⟨(diff_outcomes (h.lists call _ records hx rfl).1).1, fun hpos => ?_⟩
    obtain ⟨hzero, -, hseen⟩ := h.computed hok hx hpos
    refine ⟨?_, finished_grows hs (h.seen call id hseen)⟩
    cases h.told hs with
    | quiet still same => rw [same, hzero]

theorem Inv.apart_step (h : Inv w) (hok : Accounts w a) (hs : w.step a = some w')
    {call other : Nat} {pending pending' : List Entry} (hne : call ≠ other)
    (hp : Pending w' call pending) (hp' : Pending w' other pending') {id : String}
    (hpos : 0 < outcomes pending id) : outcomes pending' id = 0 := by
  by_contra hpos'
  rcases pending_back hs hp with ⟨hact, before, hb, hle⟩ | ⟨rfl, process, own, records, prior, hx, rfl⟩
  · have hpos := lt_of_lt_of_le hpos (hle id)
    rcases pending_back hs hp' with ⟨-, before', hb', hle'⟩ | ⟨rfl, process, own, records, prior, hy, rfl⟩
    · have hzero := h.apart call other before before' hne hb hb' id hpos
      exact hpos' (Nat.le_zero.mp (hzero ▸ hle' id))
    · obtain ⟨p, o, r, hb⟩ := hb
      obtain ⟨-, halone, -⟩ := h.computed hok hy (Nat.pos_of_ne_zero hpos')
      exact halone ⟨call, p, o, r, before, hb, hpos⟩
  · rcases pending_back hs hp' with ⟨-, before', hb', hle'⟩ | ⟨hact, -⟩
    · obtain ⟨p, o, r, hb'⟩ := hb'
      obtain ⟨-, halone, -⟩ := h.computed hok hx hpos
      exact halone ⟨other, p, o, r, before', hb', lt_of_lt_of_le (Nat.pos_of_ne_zero hpos') (hle' id)⟩
    · cases hact
      exact hne rfl

/-- The owner's reconcile has every outcome it has seen on record or to report. -/
theorem Inv.reports_step (h : Inv w) (hok : Accounts w a) (hs : w.step a = some w')
    {call : Nat} {process : π} {records : Roster} {pending : List Entry}
    (hx : w'.fleet.calls call = some ⟨process, .reporting true records pending⟩) {id : String}
    (hid : id ∈ w'.seen call) : outcomes w'.fleet.log id = 1 ∨ outcomes pending id = 1 := by
  rcases reporting_back (step_fleet hs).2.1 hx with ⟨hne, hold⟩ | ⟨rfl, e, hold⟩ |
    ⟨rfl, prior, hold, rfl⟩
  · rw [seen_held hs hold rfl] at hid
    have hkept := h.reports call process records pending hold id hid
    cases h.told hs with
    | quiet still same => rwa [same]
    | told other e rest slot log =>
      have hother : other ≠ call := fun he => hne (by rw [he])
      rw [log]
      by_cases hspeaks : e.agentId = id ∧ isOutcome e.kind
      · have hpos : 0 < outcomes (e :: rest) id := by
          rw [outcomes_cons, if_pos hspeaks]
          exact Nat.succ_pos _
        have hlog := ((h.pending other _ slot id).2 hpos).1
        exact Or.inl (by rw [hlog, if_pos hspeaks])
      · rwa [if_neg hspeaks]
  · rw [seen_held hs hold rfl] at hid
    have hkept := h.reports call process records (e :: pending) hold id hid
    have hone := h.pending call (e :: pending) ⟨process, true, records, hold⟩ id
    cases h.told hs with
    | quiet still same =>
      exact absurd ⟨process, true, records, hold⟩ (still call e pending rfl)
    | told other e' rest slot log =>
      obtain ⟨process', own', records', hslot⟩ := slot
      cases hold.symm.trans hslot
      rw [outcomes_cons] at hkept hone
      rw [log]
      omega
  · rw [seen_held hs hold rfl] at hid
    obtain ⟨hnodup, hterm⟩ := h.lists call _ records hold rfl
    cases h.told hs with
    | quiet still same =>
      rw [same]
      rcases hok process records prior hold id hid with ⟨hpos, -⟩ | ⟨-, -, s, old, hmem, hprior, hne⟩
      · have hone := h.once id
        omega
      · have hdiff : 0 < outcomes (diff true prior (w.fleet.attached process) records) id :=
          (diff_outcomes hnodup).2.mpr
            ⟨rfl, s, old, hmem, (hterm id s hmem).mpr hid, hprior, hne⟩
        have hle : outcomes (diff true prior (w.fleet.attached process) records) id ≤ 1 :=
          (diff_outcomes hnodup).1
        omega

theorem Inv.log_step (h : Inv w) (hs : w.step a = some w') (id : String) :
    outcomes w'.fleet.log id ≤ 1 ∧
    (0 < outcomes w'.fleet.log id → id ∈ w'.finished.map Prod.fst) ∧
    outcomes w.fleet.log id ≤ outcomes w'.fleet.log id := by
  have honce := h.once id
  have hreal : 0 < outcomes w.fleet.log id → id ∈ w'.finished.map Prod.fst :=
    fun hpos => finished_grows hs (h.real id hpos)
  cases h.told hs with
  | quiet still same =>
    rw [same]
    exact ⟨honce, hreal, Nat.le_refl _⟩
  | told call e pending slot log =>
    have hpending := (h.pending call _ slot id).2
    rw [outcomes_cons] at hpending
    rw [log]
    by_cases hspeaks : e.agentId = id ∧ isOutcome e.kind
    · simp only [hspeaks, and_self, if_true] at hpending ⊢
      obtain ⟨hzero, hfin⟩ := hpending (Nat.succ_pos _)
      exact ⟨by omega, fun _ => finished_grows hs hfin, Nat.le_add_right _ _⟩
    · simp only [hspeaks, if_false]
      exact ⟨honce, hreal, Nat.le_refl _⟩

theorem Inv.due_step (h : Inv w) (hs : w.step a = some w') {id : String} (hid : id ∈ w'.due) :
    outcomes w'.fleet.log id = 1 := by
  have hdone : outcomes w.fleet.log id = 1 → outcomes w'.fleet.log id = 1 := by
    intro hone
    obtain ⟨hle, -, hgrows⟩ := h.log_step hs id
    omega
  apply hdone
  obtain ⟨-, hf, -, -, hdue⟩ := step_fleet hs
  rw [hdue] at hid
  cases a with
  | replace call =>
    obtain ⟨process, own, records, hx⟩ := replace_slot hf
    simp only [World.nowDue, hx, Option.map_some] at hid
    cases own with
    | false => exact h.due id hid
    | true =>
      rcases List.mem_append.mp hid with hid | hid
      · exact h.due id hid
      · rcases h.reports call process records [] hx id hid with hone | hone
        · exact hone
        · cases hone
  | _ => exact h.due id hid

theorem Inv.lasts_step (h : Inv w) (hs : w.step a = some w') {call : Nat} {process : π}
    {e : Entry} (hx : w'.fleet.calls call = some ⟨process, .last e⟩) :
    isOutcome e.kind = false := by
  rcases call_step (step_fleet hs).2.1 hx with hold | hm
  · exact h.lasts call process e hold
  · cases hm <;> rfl

theorem Inv.step (h : Inv w) (hok : Accounts w a) (hs : w.step a = some w') : Inv w' where
  ids := (h.terminal_step hs).1
  terminal := (h.terminal_step hs).2
  registry := registry_nodup (step_fleet hs).2.1 h.registry
  final _ _ := h.final_step hs
  seen call _ := h.seen_step hs call
  lists _ _ _ := h.lists_step hs
  reports _ _ _ _ hx _ := h.reports_step hok hs hx
  pending _ _ hp := h.pending_step hok hs hp
  apart _ _ _ _ hne hp hp' _ := h.apart_step hok hs hne hp hp'
  lasts _ _ _ := h.lasts_step hs
  once id := (h.log_step hs id).1
  real id := (h.log_step hs id).2.1
  due _ := h.due_step hs

end Step

/-- Every finished agent is counted once in a run whose reconciles all account for
what had finished when they listed. -/
theorem counted_once [DecidableEq π] (as : List (Reconcile.Action π))
    (h : Machine.Steps World.step Accounts (World.start : World π) as) :
    Machine.Always World.step CountedOnce (World.start : World π) as :=
  Machine.always_mono (fun _ => Inv.countedOnce)
    (Machine.always_of_steps (fun _ _ _ hi hok hs => hi.step hok hs) .start h)

/-- A reconcile up to the replacement of the snapshot, with one event to report. -/
def reconcile (call : Nat) : List (Reconcile.Action Unit) :=
  [.poll call (), .list call, .readPrior call, .diff call, .emit call, .replace call]

/-- An agent is discovered, finishes, and is found finished. -/
def finishes : List (Reconcile.Action Unit) :=
  .caliband "a" (some .running) :: reconcile 0 ++ .caliband "a" (some .done) :: reconcile 1

/-- A lone reconcile that finds an agent finished which was running before. -/
theorem accounts_alone {w : World Unit} {call : Nat} {id : String} {old s : AgentStatus}
    (hseen : w.seen call = [id]) (hlog : outcomes w.fleet.log id = 0)
    (hslot : w.fleet.calls call = some ⟨(), .compared true [(id, s)] [(id, old)]⟩)
    (hothers : ∀ other, other ≠ call → w.fleet.calls other = none) (hne : old ≠ s) :
    Accounts w (.diff call) := by
  intro process records prior hx i hi
  cases hslot.symm.trans hx
  rw [hseen] at hi
  obtain rfl := List.mem_singleton.mp hi
  refine Or.inr ⟨hlog, ?_, s, old, List.mem_singleton_self _, by simp, hne⟩
  rintro ⟨other, p, own, records, pending, hother, -⟩
  by_cases ho : other = call
  · rw [ho, hslot] at hother
    cases hother
  · rw [hothers other ho] at hother
    cases hother

theorem finishes_accounted : Machine.Steps World.step Accounts World.start finishes := by
  have hfirst : ∀ w : World Unit, w.seen 0 = [] → Accounts w (.diff 0) := by
    intro w hseen process records prior _ id hid
    rw [hseen] at hid
    cases hid
  iterate 4 refine Machine.steps_cons trivial rfl ?_
  refine Machine.steps_cons (hfirst _ rfl) rfl ?_
  iterate 6 refine Machine.steps_cons trivial rfl ?_
  refine Machine.steps_cons (accounts_alone rfl rfl rfl ?_ (by simp)) rfl ?_
  · intro other ho
    match other with
    | 0 => rfl
    | 1 => exact absurd rfl ho
    | n + 2 => rfl
  · iterate 2 refine Machine.steps_cons trivial rfl ?_
    trivial

theorem finishes_counted_once :
    ∃ w, Machine.run World.step World.start finishes = some w ∧ w.due = ["a"] ∧
      CountedOnce w :=
  ⟨_, rfl, rfl, Machine.always_end (counted_once finishes finishes_accounted) rfl⟩

/-- The agent finishes while the daemon is down, whose next reconcile finds it
finished and new. -/
def finishedWhileDown : List (Reconcile.Action Unit) :=
  .caliband "a" (some .running) :: reconcile 0 ++
    .caliband "a" (some .done) :: .restart () :: reconcile 1

theorem finished_while_down_lost :
    ¬∀ (as : List (Reconcile.Action Unit)) (w : World Unit),
      Machine.run World.step World.start as = some w →
      Machine.Always World.step CountedOnce World.start as := by
  intro h
  have hend := Machine.always_end (h finishedWhileDown _ rfl) rfl
  have hnone : outcomes [⟨"a", .agentDiscovered⟩, ⟨"a", .agentDiscovered⟩] "a" = 1 :=
    hend.due "a" (List.mem_singleton_self _)
  cases hnone

end Prospero.Proofs.Outcomes
