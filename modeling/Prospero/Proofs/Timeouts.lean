import Mathlib.Data.List.Dedup
import Prospero.Proofs.Deadlines
import Prospero.Proofs.Usage

namespace Prospero.Proofs.Timeouts
open Prospero.Reconcile (Roster register)
open Prospero.Proofs.Reconcile (register_nodup)
open Prospero.Deadlines
open Prospero.Proofs.Deadlines
open Prospero.Usage (UsageRow aggregateUsage interesting)
open Prospero.Proofs.Usage (Tally)

variable {π τ : Type}

/-- The timeouts that a history has of an agent. -/
def timeouts (events : List FleetEvent) (id : String) : Nat :=
  events.countP fun e => isTimeout e.kind && e.agentId = id

/-- The agents that a history has a timeout of. -/
def timedOutAgents (events : List FleetEvent) : List String :=
  ((events.filter fun e => isTimeout e.kind).map FleetEvent.agentId).dedup

/-- The timeouts that a report counts, over all its rows. -/
def timedOutRuns (rows : List UsageRow) : Nat := (rows.map UsageRow.timedOut).sum

/-- No agent has timed out twice in all that was ever logged, and usage counts
no more timeouts than there are agents that did. -/
structure TimedOutOnce (w : World π) : Prop where
  once : ∀ id, timeouts w.stored id ≤ 1
  usage : timedOutRuns (aggregateUsage w.log) ≤ (timedOutAgents w.log).length

/-- A pass has selected the agent and is yet to record its timeout. -/
def Selected : Phase → String → Prop
  | .killing due, id | .timedOut _ due, id => id ∈ due.map Prod.fst
  | _, _ => False

/-- The agent's timeout is on record, or a pass is about to put it there. -/
def TimedOut (w : World π) (id : String) : Prop :=
  0 < timeouts w.stored id ∨ ∃ call x, w.calls call = some x ∧ Selected x.phase id

/-- An agent that has timed out is terminal in the copy of the snapshot that a
pass selects from, where it is in there at all. -/
def Terminates (w : World π) : Action π τ → Prop
  | .select call _ => ∀ process agents complete,
      w.calls call = some ⟨process, .loading agents [] complete⟩ →
      ∀ id status, (id, status) ∈ agents → TimedOut w id → status.isTerminal
  | _ => True

section Count

theorem timeouts_append (events events' : List FleetEvent) (id : String) :
    timeouts (events ++ events') id = timeouts events id + timeouts events' id :=
  List.countP_append ..

theorem timeouts_one (e : FleetEvent) (id : String) :
    timeouts [e] id = if isTimeout e.kind && e.agentId = id then 1 else 0 :=
  List.countP_singleton ..

theorem timeouts_other {e : FleetEvent} (h : isTimeout e.kind = false)
    (events : List FleetEvent) (id : String) : timeouts (events ++ [e]) id = timeouts events id := by
  rw [timeouts_append, timeouts_one, h]
  simp

theorem timeouts_eq_count (events : List FleetEvent) (id : String) : timeouts events id =
    ((events.filter fun e => isTimeout e.kind).map FleetEvent.agentId).count id := by
  rw [List.count, List.countP_map, List.countP_filter]
  apply List.countP_congr
  intro e he
  simp [and_comm]

theorem timedOut_tally : Tally UsageRow.timedOut isTimeout where
  new _ _ := rfl
  count row kind := by
    cases kind with
    | statusChanged fromStatus toStatus =>
      cases toStatus <;> simp [UsageRow.count, isTimeout]
    | _ => simp [UsageRow.count, isTimeout]
  shown kind h := by
    cases kind with
    | agentTimedOut deadline => rfl
    | _ => cases h

/-- Usage does not count more timeouts than agents where none is counted twice. -/
theorem usage_of_once {events : List FleetEvent} (h : ∀ id, timeouts events id ≤ 1) :
    timedOutRuns (aggregateUsage events) ≤ (timedOutAgents events).length := by
  have hnodup : ((events.filter fun e => isTimeout e.kind).map FleetEvent.agentId).Nodup := by
    refine List.nodup_iff_count_le_one.mpr ?_
    intro id
    rw [← timeouts_eq_count]
    exact h id
  calc timedOutRuns (aggregateUsage events)
      = events.countP fun e => (Usage.dayOf e.ts).isSome && isTimeout e.kind :=
        timedOut_tally.aggregateUsage events
    _ ≤ events.countP fun e => isTimeout e.kind := by
        apply List.countP_mono_left
        intro e he hk
        exact (Bool.and_eq_true_iff.mp hk).2
    _ = (timedOutAgents events).length := by
        rw [timedOutAgents, hnodup.dedup, List.length_map, List.countP_eq_length_filter]

end Count

section Expired

variable [LinearOrder τ] {parse : String → Option τ} {now : τ}
  {deadlines : String → Option String} {agents : Roster} {id deadline : String}

/-- Selected is what is listed, not terminal, and past a deadline that is known
and can be read. -/
theorem mem_expired : (id, deadline) ∈ expired parse now deadlines agents ↔
    ∃ status, (id, status) ∈ agents ∧ status.isTerminal = false ∧
      deadlines id = some deadline ∧ ∃ t, parse deadline = some t ∧ t ≤ now := by
  unfold expired
  rw [List.mem_filterMap]
  constructor
  · rintro ⟨⟨i, status⟩, hmem, h⟩
    obtain ⟨hagent, hlive⟩ := List.mem_filter.mp hmem
    obtain ⟨raw, hraw, h⟩ := Option.bind_eq_some_iff.mp h
    obtain ⟨t, ht, h⟩ := Option.bind_eq_some_iff.mp h
    obtain ⟨hdue, he⟩ := Option.ite_none_right_eq_some.mp h
    cases he
    exact ⟨status, hagent, by simpa using hlive, hraw, t, ht, hdue⟩
  · rintro ⟨status, hagent, hlive, hraw, t, ht, hdue⟩
    refine ⟨(id, status), List.mem_filter.mpr ⟨hagent, by simp [hlive]⟩, ?_⟩
    simp [hraw, ht, hdue]

theorem expired_nodup (h : (agents.map Prod.fst).Nodup) :
    ((expired parse now deadlines agents).map Prod.fst).Nodup := by
  have hlive : ((agents.filter fun a => !a.2.isTerminal).map Prod.fst).Nodup :=
    h.sublist (List.filter_sublist.map _)
  refine hlive.sublist (KeyedLog.map_filterMap_sublist ?_ _)
  rintro a ⟨id, raw⟩ he
  obtain ⟨raw', -, he⟩ := Option.bind_eq_some_iff.mp he
  obtain ⟨t, -, he⟩ := Option.bind_eq_some_iff.mp he
  cases (Option.ite_none_right_eq_some.mp he).2
  rfl

end Expired

/-- What a poll has in hand bears each agent once. -/
def Distinct : Phase → Prop
  | .listed _ records => (records.map Prod.fst).Nodup
  | .loading agents _ _ | .loaded agents _ _ _ _ => (agents.map Prod.fst).Nodup
  | .killing due | .timedOut _ due => (due.map Prod.fst).Nodup
  | _ => True

structure Listed (w : World π) : Prop where
  registry : (w.registry.map Prod.fst).Nodup
  snapshot : ∀ process, ((w.snapshot process).map Prod.fst).Nodup
  phases : ∀ call x, w.calls call = some x → Distinct x.phase

structure Once (w : World π) : Prop where
  listed : Listed w
  log : w.log.Sublist w.stored
  fresh : ∀ call x id, w.calls call = some x → Selected x.phase id → timeouts w.stored id = 0
  apart : ∀ call other x y id, w.calls call = some x → w.calls other = some y →
    Selected x.phase id → Selected y.phase id → call = other
  once : ∀ id, timeouts w.stored id ≤ 1

theorem Once.timedOutOnce {w : World π} (h : Once w) : TimedOutOnce w where
  once := h.once
  usage := usage_of_once fun id => (h.log.countP_le ..).trans (h.once id)

theorem Once.start : Once (World.start : World π) := by
  refine ⟨⟨?_, ?_, ?_⟩, ?_, ?_, ?_, ?_⟩ <;> simp [World.start, timeouts]

section Step

variable [DecidableEq π] [LinearOrder τ] {parse : String → Option τ} {repo : String}
  {w w' : World π} {a : Action π τ}

theorem snapshot_nodup (h : Listed w) (hs : w.step parse repo a = some w') (process : π) :
    ((w'.snapshot process).map Prod.fst).Nodup := by
  have hset (p : π) (agents : Roster) (ha : (agents.map Prod.fst).Nodup) :
      ((Function.update w.snapshot p agents process).map Prod.fst).Nodup := by
    by_cases hp : process = p
    · subst hp
      rw [Function.update_self]
      exact ha
    · rw [Function.update_of_ne hp]
      exact h.snapshot process
  cases step_effect hs with
  | removed p id => exact hset p _ ((h.snapshot p).sublist (List.filter_sublist.map _))
  | restart p => exact hset p [] List.nodup_nil
  | replace call p own records slot => exact hset p records (h.phases call _ slot)
  | setDeadline call p id deadline stamp stored slot =>
    exact (emit_frame w repo id _ stamp stored).2.1 ▸ h.snapshot process
  | timeOut call stamp stored p id deadline due slot =>
    exact (emit_frame w repo id _ stamp stored).2.1 ▸ h.snapshot process
  | poll call p slot =>
    obtain ⟨-, -, -, hsnapshot, -⟩ := tryAcquire_frame w p
    exact hsnapshot ▸ h.snapshot process
  | load call p agents a rest complete readOk slot =>
    obtain ⟨phase, hload⟩ := load_goTo w repo call p agents rest a.1 complete readOk
    exact hload ▸ h.snapshot process
  | _ => exact h.snapshot process

theorem registry_step_nodup (h : Listed w) (hs : w.step parse repo a = some w') :
    (w'.registry.map Prod.fst).Nodup := by
  cases step_effect hs with
  | caliband id status => exact register_nodup h.registry id status
  | spawn call process id deadline slot named fresh => exact register_nodup h.registry id _
  | setDeadline call p id deadline stamp stored slot =>
    exact (emit_frame w repo id _ stamp stored).2.2 ▸ h.registry
  | timeOut call stamp stored p id deadline due slot =>
    exact (emit_frame w repo id _ stamp stored).2.2 ▸ h.registry
  | poll call p slot =>
    obtain ⟨-, -, -, -, hregistry⟩ := tryAcquire_frame w p
    exact hregistry ▸ h.registry
  | load call p agents a rest complete readOk slot =>
    obtain ⟨phase, hload⟩ := load_goTo w repo call p agents rest a.1 complete readOk
    exact hload ▸ h.registry
  | _ => exact h.registry

theorem Listed.step (h : Listed w) (hs : w.step parse repo a = some w') : Listed w' where
  registry := registry_step_nodup h hs
  snapshot := snapshot_nodup h hs
  phases := by
    intro call x hx
    rcases call_step hs hx with hold | hm
    · exact h.phases call x hold
    · have hslot {y : Call π} (slot : w.calls call = some y) : Distinct y.phase :=
        h.phases call y slot
      cases hm with
      | listed _ process own => exact h.registry
      | copied _ process => exact h.snapshot process
      | selected _ now process agents complete slot => exact expired_nodup (hslot slot)
      | timedOut _ stamp stored process id deadline due slot =>
        exact (List.nodup_cons.mp (hslot slot)).2
      | killed _ ok process id due slot =>
        have hdue := hslot slot
        exact hdue
      | cached _ _ _ _ _ _ _ slot | missed _ _ _ _ _ _ _ slot | found _ _ _ _ _ _ _ _ slot
      | inserted _ _ _ _ _ _ _ slot =>
        have hagents := hslot slot
        exact hagents
      | _ => trivial

omit [DecidableEq π] in
/-- An agent is newly selected where a pass selects it. -/
theorem Selected.back {call : Nat} {x : Call π} {id : String}
    (hm : Moves parse repo w a call x) (hx : Selected x.phase id) :
    (∃ y, w.calls call = some y ∧ Selected y.phase id) ∨
    ∃ now agents complete status, a = .select call now ∧
      w.calls call = some ⟨x.process, .loading agents [] complete⟩ ∧
      (id, status) ∈ agents ∧ status.isTerminal = false := by
  cases hm with
  | selected _ now process agents complete slot =>
    obtain ⟨⟨i, deadline⟩, hmem, rfl⟩ := List.mem_map.mp hx
    obtain ⟨status, hagent, hlive, -⟩ := mem_expired.mp hmem
    exact Or.inr ⟨now, agents, complete, status, rfl, slot, hagent, hlive⟩
  | timedOut _ stamp stored process i deadline due slot =>
    exact Or.inl ⟨_, slot, List.mem_cons_of_mem _ hx⟩
  | killed _ ok process i due slot => exact Or.inl ⟨_, slot, hx⟩
  | _ => exact hx.elim

/-- What is selected after a step was so before, or has not timed out and is
selected just now. -/
theorem selected_step (hok : Terminates w a) (hs : w.step parse repo a = some w') {call : Nat}
    {x : Call π} {id : String} (hx : w'.calls call = some x) (hsel : Selected x.phase id) :
    (∃ y, w.calls call = some y ∧ Selected y.phase id) ∨
      (¬TimedOut w id ∧ Moves parse repo w a call x) := by
  rcases call_step hs hx with hold | hm
  · exact Or.inl ⟨x, hold, hsel⟩
  · rcases Selected.back hm hsel with hold | ⟨now, agents, complete, status, rfl, hslot, hmem, hlive⟩
    · exact Or.inl hold
    · refine Or.inr ⟨fun hout => ?_, hm⟩
      have hterminal := hok x.process agents complete hslot id status hmem hout
      rw [hlive] at hterminal
      cases hterminal

theorem Once.fresh_step (h : Once w) (hok : Terminates w a) (hs : w.step parse repo a = some w')
    {call : Nat} {x : Call π} {id : String} (hx : w'.calls call = some x)
    (hsel : Selected x.phase id) : timeouts w.stored id = 0 := by
  rcases selected_step hok hs hx hsel with ⟨y, hy, hsel'⟩ | ⟨hnot, -⟩
  · exact h.fresh call y id hy hsel'
  · by_contra hne
    exact hnot (Or.inl (Nat.pos_of_ne_zero hne))

theorem Once.apart_step (h : Once w) (hok : Terminates w a) (hs : w.step parse repo a = some w')
    {call other : Nat} {x y : Call π} {id : String} (hx : w'.calls call = some x)
    (hy : w'.calls other = some y) (hselx : Selected x.phase id) (hsely : Selected y.phase id) :
    call = other := by
  rcases selected_step hok hs hx hselx with ⟨x', hx', hselx'⟩ | ⟨hnotx, hmovex⟩
  · rcases selected_step hok hs hy hsely with ⟨y', hy', hsely'⟩ | ⟨hnoty, -⟩
    · exact h.apart call other x' y' id hx' hy' hselx' hsely'
    · exact absurd (Or.inr ⟨call, x', hx', hselx'⟩) hnoty
  · rcases selected_step hok hs hy hsely with ⟨y', hy', hsely'⟩ | ⟨-, hmovey⟩
    · exact absurd (Or.inr ⟨other, y', hy', hsely'⟩) hnotx
    · exact hmovex.unique hmovey

/-- The pass that records a timeout is the only one that has selected the agent. -/
theorem Once.recorded (h : Once w) (hok : Terminates w a) (hs : w.step parse repo a = some w')
    {call : Nat} {process : π} {id deadline : String} {due : List (String × String)}
    (slot : w.calls call = some ⟨process, .killing ((id, deadline) :: due)⟩)
    (moved : w'.calls call = some ⟨process, .timedOut id due⟩) {other : Nat} {x : Call π}
    (hx : w'.calls other = some x) : ¬Selected x.phase id := by
  intro hsel
  have hmine : Selected (.killing ((id, deadline) :: due)) id := List.mem_cons_self ..
  by_cases hcall : other = call
  · subst hcall
    cases moved.symm.trans hx
    have hdistinct : (((id, deadline) :: due).map Prod.fst).Nodup := h.listed.phases other _ slot
    exact (List.nodup_cons.mp hdistinct).1 hsel
  · rcases selected_step hok hs hx hsel with ⟨y, hy, hsel'⟩ | ⟨hnot, -⟩
    · exact hcall (h.apart other call y _ id hy slot hsel' hmine)
    · exact hnot (Or.inr ⟨call, _, slot, hmine⟩)

theorem Once.count_step (h : Once w) (hok : Terminates w a) (hs : w.step parse repo a = some w') :
    (∀ call x id, w'.calls call = some x → Selected x.phase id → timeouts w'.stored id = 0) ∧
      ∀ id, timeouts w'.stored id ≤ 1 := by
  have hsame (hstored : ∀ id, timeouts w'.stored id = timeouts w.stored id) :
      (∀ call x id, w'.calls call = some x → Selected x.phase id → timeouts w'.stored id = 0) ∧
        ∀ id, timeouts w'.stored id ≤ 1 :=
    ⟨fun _ _ id hx hsel => (hstored id).trans (h.fresh_step hok hs hx hsel),
      fun id => (hstored id).le.trans (h.once id)⟩
  cases appends hs with
  | quiet stored log => exact hsame fun id => by rw [stored]
  | other e untimed running stored log => exact hsame fun id => by rw [stored, timeouts_other running]
  | deadline call process id deadline stamp e slot event stored log =>
    exact hsame fun i => by rw [stored, event, timeouts_other rfl]
  | timeout call process id deadline due stamp e slot event stored log moved =>
    have hcount (i : String) :
        timeouts w'.stored i = timeouts w.stored i + if id = i then 1 else 0 := by
      rw [stored, timeouts_append, timeouts_one, event]
      simp [isTimeout]
    constructor
    · intro other x i hx hsel
      have hne : id ≠ i := by
        rintro rfl
        exact h.recorded hok hs slot moved hx hsel
      rw [hcount, if_neg hne, Nat.add_zero]
      exact h.fresh_step hok hs hx hsel
    · intro i
      rw [hcount]
      by_cases hi : id = i
      · subst hi
        rw [if_pos rfl, h.fresh call _ id slot (List.mem_cons_self ..)]
      · rw [if_neg hi]
        exact h.once i

theorem Once.step (h : Once w) (hok : Terminates w a) (hs : w.step parse repo a = some w') :
    Once w' where
  listed := h.listed.step hs
  log := log_sublist hs h.log
  fresh := (h.count_step hok hs).1
  apart _ _ _ _ _ := h.apart_step hok hs
  once := (h.count_step hok hs).2

end Step

/-- Where a pass finds every agent that has timed out terminal, none times out
twice, and usage does not count more timeouts than agents that did. -/
theorem timed_out_once [DecidableEq π] [LinearOrder τ] (parse : String → Option τ) (repo : String)
    (as : List (Action π τ))
    (h : Machine.Steps (World.step parse repo) Terminates World.start as) :
    Machine.Always (World.step parse repo) TimedOutOnce World.start as :=
  Machine.always_mono (fun _ => Once.timedOutOnce)
    (Machine.always_of_steps (fun _ _ _ hw hok hs => hw.step hok hs) Once.start h)

/-- The instants that some deadlines name, in seconds since the epoch. -/
def seconds (raw : String) : Option Nat :=
  if raw = "2026-08-01T12:00:00+00:00" then some 1785585600 else none

/-- An agent is spawned with a deadline, and a pass after it kills the agent. -/
def overdueRun : List (Deadlines.Action Unit Nat) :=
  [.spawn 0 () "a1" "2026-08-01T12:00:00+00:00", .cache 0,
    .setDeadline 0 ⟨2, "2026-08-01T11:00:00+00:00"⟩ true,
    .poll 0 (), .list 0, .replace 0, .copy 0, .load 0 true, .select 0 1785585601,
    .timeOut 0 ⟨3, "2026-08-01T12:00:01+00:00"⟩ true, .kill 0 true, .done 0]

/-- The next poll finds it killed. -/
def killedRun : List (Deadlines.Action Unit Nat) :=
  overdueRun ++ [.caliband "a1" (some .killed), .poll 0 (), .list 0, .replace 0, .copy 0,
    .select 0 1785585603, .done 0]

theorem killedRun_terminates :
    Machine.Steps (World.step seconds "web") Terminates (World.start : World Unit) killedRun := by
  iterate 8 refine Machine.steps_cons trivial rfl ?_
  refine Machine.steps_cons ?_ rfl ?_
  · rintro process agents complete hslot id status hmem (hcount | ⟨call, x, hx, hsel⟩)
    · exact absurd hcount (Nat.lt_irrefl 0)
    · match call with
      | 0 =>
        cases hx
        exact hsel.elim
      | n + 1 => cases hx
  · iterate 8 refine Machine.steps_cons trivial rfl ?_
    refine Machine.steps_cons ?_ rfl (Machine.steps_cons trivial rfl trivial)
    intro process agents complete hslot id status hmem hout
    cases hslot
    cases List.mem_singleton.mp hmem
    rfl

theorem timed_out_once_killed : ∃ w : World Unit,
    Machine.run (World.step seconds "web") World.start killedRun = some w ∧
    timeouts w.log "a1" = 1 ∧ TimedOutOnce w :=
  ⟨_, rfl, rfl,
    Machine.always_end (timed_out_once seconds "web" killedRun killedRun_terminates) rfl⟩

/-- The next poll finds it running still, and its deadline in the log. -/
def lingeringRun : List (Deadlines.Action Unit Nat) :=
  overdueRun ++ [.poll 0 (), .list 0, .replace 0, .copy 0, .load 0 true, .insert 0,
    .select 0 1785585603, .timeOut 0 ⟨4, "2026-08-01T12:00:03+00:00"⟩ true]

theorem timed_out_twice : ¬∀ (repo : String) (as : List (Deadlines.Action Unit Nat)),
    Machine.Always (World.step seconds repo) TimedOutOnce World.start as := by
  intro h
  have hend := Machine.always_end (h "web" lingeringRun) rfl
  have htwice : 2 ≤ 1 := hend.once "a1"
  exact absurd htwice (by decide)

end Prospero.Proofs.Timeouts
