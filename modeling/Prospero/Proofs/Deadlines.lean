import Prospero.Deadlines
import Prospero.Lib.Machine
import Prospero.Lib.Slots
import Prospero.Proofs.Reconcile

namespace Prospero.Proofs.Deadlines
open Prospero.Reconcile (Roster register)
open Prospero.Proofs.Reconcile (register_nodup)
open Prospero.Deadlines

variable {π τ : Type} [DecidableEq π] [LinearOrder τ]

/-- What an enabled action finds, and what it leaves. -/
inductive Effect (parse : String → Option τ) (repo : String) (w : World π) :
    Action π τ → World π → Prop
  | caliband (id : String) (status : Option AgentStatus) :
      Effect parse repo w (.caliband id status) { w with registry := register w.registry id status }
  | expire : Effect parse repo w .expire { w with lease := none }
  | prune (beforeTs : String) : Effect parse repo w (.prune beforeTs)
      { w with log := w.log.filter (Store.survives beforeTs) }
  | restart (process : π) : Effect parse repo w (.restart process) (w.restart process)
  | record (e : FleetEvent) (untimed : deadlineOf e.kind = none)
      (running : isTimeout e.kind = false) : Effect parse repo w (.record e) (w.append e)
  | removed (process : π) (id : String) : Effect parse repo w (.removed process id) { w with
      snapshot := Function.update w.snapshot process
        ((w.snapshot process).filter fun a => a.1 ≠ id) }
  | spawn (call : Nat) (process : π) (id deadline : String) (slot : w.calls call = none)
      (named : id ≠ "") (fresh : w.timeouts id = none) :
      Effect parse repo w (.spawn call process id deadline)
        { w.goTo call process (.spawned id deadline) with
          registry := register w.registry id (some .spawning)
          timeouts := Function.update w.timeouts id (some deadline) }
  | cache (call : Nat) (process : π) (id deadline : String)
      (slot : w.calls call = some ⟨process, .spawned id deadline⟩) :
      Effect parse repo w (.cache call)
        ((w.setDeadline process id (some deadline)).goTo call process (.setting id deadline))
  | setDeadline (call : Nat) (process : π) (id deadline : String) (stamp : Stamp) (stored : Bool)
      (slot : w.calls call = some ⟨process, .setting id deadline⟩) :
      Effect parse repo w (.setDeadline call stamp stored)
        ((w.emit repo id (.deadlineSet deadline) stamp stored).setCall call none)
  | poll (call : Nat) (process : π) (slot : w.calls call = none) :
      Effect parse repo w (.poll call process)
        ((w.tryAcquire process).1.goTo call process (.acquired (w.tryAcquire process).2))
  | unreachable (call : Nat) : Effect parse repo w (.unreachable call) (w.setCall call none)
  | list (call : Nat) (process : π) (own : Bool)
      (slot : w.calls call = some ⟨process, .acquired own⟩) :
      Effect parse repo w (.list call) (w.goTo call process (.listed own w.registry))
  | replace (call : Nat) (process : π) (own : Bool) (records : Roster)
      (slot : w.calls call = some ⟨process, .listed own records⟩) :
      Effect parse repo w (.replace call)
        ({ w with snapshot := Function.update w.snapshot process records }.setCall call
          (if own then some ⟨process, .enforcing⟩ else none))
  | copy (call : Nat) (process : π) (slot : w.calls call = some ⟨process, .enforcing⟩) :
      Effect parse repo w (.copy call) { w.goTo call process
          (.loading (w.snapshot process)
            ((w.snapshot process).filter fun a => !a.2.isTerminal) true) with
        recorded := Function.update w.recorded call w.stored }
  | load (call : Nat) (process : π) (agents : Roster) (a : String × AgentStatus) (rest : Roster)
      (complete readOk : Bool)
      (slot : w.calls call = some ⟨process, .loading agents (a :: rest) complete⟩) :
      Effect parse repo w (.load call readOk)
        (w.load repo call process agents rest a.1 complete readOk)
  | insert (call : Nat) (process : π) (agents rest : Roster) (id deadline : String)
      (complete : Bool)
      (slot : w.calls call = some ⟨process, .loaded agents rest id deadline complete⟩) :
      Effect parse repo w (.insert call)
        ((w.setDeadline process id (some deadline)).goTo call process
          (.loading agents rest complete))
  | select (call : Nat) (now : τ) (process : π) (agents : Roster) (complete : Bool)
      (slot : w.calls call = some ⟨process, .loading agents [] complete⟩) :
      Effect parse repo w (.select call now)
        (w.goTo call process (.killing (expired parse now (w.deadlines process) agents)))
  | timeOut (call : Nat) (stamp : Stamp) (stored : Bool) (process : π) (id deadline : String)
      (due : List (String × String))
      (slot : w.calls call = some ⟨process, .killing ((id, deadline) :: due)⟩) :
      Effect parse repo w (.timeOut call stamp stored)
        ((w.emit repo id (.agentTimedOut deadline) stamp stored).goTo call process
          (.timedOut id due))
  | killed (call : Nat) (process : π) (id : String) (due : List (String × String))
      (slot : w.calls call = some ⟨process, .timedOut id due⟩) :
      Effect parse repo w (.kill call true)
        ((w.setDeadline process id none).goTo call process (.killing due))
  | failed (call : Nat) (process : π) (id : String) (due : List (String × String))
      (slot : w.calls call = some ⟨process, .timedOut id due⟩) :
      Effect parse repo w (.kill call false) (w.goTo call process (.killing due))
  | done (call : Nat) : Effect parse repo w (.done call) (w.setCall call none)

section Effect

variable {parse : String → Option τ} {repo : String} {w w' : World π} {a : Action π τ}

theorem step_effect (h : w.step parse repo a = some w') : Effect parse repo w a w' := by
  cases a with
  | caliband id status =>
    cases h
    exact .caliband id status
  | expire =>
    cases h
    exact .expire
  | prune beforeTs =>
    cases h
    exact .prune beforeTs
  | restart process =>
    cases h
    exact .restart process
  | removed process id =>
    cases h
    exact .removed process id
  | record e =>
    obtain ⟨hkind, h⟩ := Option.ite_none_right_eq_some.mp h
    cases h
    rw [Bool.and_eq_true, Option.isNone_iff_eq_none, Bool.not_eq_true'] at hkind
    exact .record e hkind.1 hkind.2
  | spawn call process id deadline =>
    simp only [World.step, World.spawn] at h
    split at h
    · rename_i hslot
      obtain ⟨⟨hid, hfresh⟩, h⟩ := Option.ite_none_right_eq_some.mp h
      cases h
      exact .spawn call process id deadline hslot hid hfresh
    · cases h
  | poll call process =>
    simp only [World.step] at h
    split at h <;> cases h
    rename_i hslot
    exact .poll call process hslot
  | unreachable call =>
    obtain ⟨x, hx, h⟩ := Option.bind_eq_some_iff.mp h
    split at h <;> cases h
    exact .unreachable call
  | done call =>
    obtain ⟨x, hx, h⟩ := Option.bind_eq_some_iff.mp h
    split at h <;> cases h
    exact .done call
  | cache call | setDeadline call stamp stored | list call | copy call | load call readOk
  | insert call | select call now | timeOut call stamp stored =>
    obtain ⟨⟨process, phase⟩, hx, h⟩ := Option.bind_eq_some_iff.mp h
    split at h <;> cases h
    rename_i hphase
    cases hphase
    constructor
    exact hx
  | replace call =>
    obtain ⟨⟨process, phase⟩, hx, h⟩ := Option.bind_eq_some_iff.mp h
    split at h
    · rename_i own records hphase
      cases hphase
      have heffect : Effect parse repo w (.replace call) _ := .replace call process own records hx
      cases own <;> cases h <;> exact heffect
    · cases h
  | kill call ok =>
    obtain ⟨⟨process, phase⟩, hx, h⟩ := Option.bind_eq_some_iff.mp h
    split at h
    · rename_i id due hphase
      cases hphase
      cases ok <;> cases h
      · exact .failed call process id due hx
      · exact .killed call process id due hx
    · cases h

omit [DecidableEq π] in
theorem emit_frame (w : World π) (repo id : String) (kind : EventKind) (stamp : Stamp)
    (stored : Bool) : (w.emit repo id kind stamp stored).calls = w.calls ∧
      (w.emit repo id kind stamp stored).snapshot = w.snapshot ∧
      (w.emit repo id kind stamp stored).registry = w.registry := by
  cases stored <;> exact ⟨rfl, rfl, rfl⟩

theorem tryAcquire_frame (w : World π) (process : π) :
    (w.tryAcquire process).1.calls = w.calls ∧ (w.tryAcquire process).1.log = w.log ∧
      (w.tryAcquire process).1.stored = w.stored ∧
      (w.tryAcquire process).1.snapshot = w.snapshot ∧
      (w.tryAcquire process).1.registry = w.registry := by
  unfold World.tryAcquire
  split <;> exact ⟨rfl, rfl, rfl, rfl, rfl⟩

omit [DecidableEq π] in
theorem load_goTo (w : World π) (repo : String) (call : Nat) (process : π) (agents rest : Roster)
    (id : String) (complete readOk : Bool) :
    ∃ phase, w.load repo call process agents rest id complete readOk =
      w.goTo call process phase := by
  unfold World.load
  split
  · exact ⟨_, rfl⟩
  · dsimp only
    split <;> exact ⟨_, rfl⟩

end Effect

def history (w : World π) (repo id : String) (readOk : Bool) : List FleetEvent :=
  if readOk then Store.replay w.log (streamKeyFor repo id) 0 else []

/-- The phase that an action takes one of the calls to. -/
inductive Moves (parse : String → Option τ) (repo : String) (w : World π) :
    Action π τ → Nat → Call π → Prop
  | spawned (call : Nat) (process : π) (id deadline : String) :
      Moves parse repo w (.spawn call process id deadline) call ⟨process, .spawned id deadline⟩
  | setting (call : Nat) (process : π) (id deadline : String)
      (slot : w.calls call = some ⟨process, .spawned id deadline⟩) :
      Moves parse repo w (.cache call) call ⟨process, .setting id deadline⟩
  | acquired (call : Nat) (process : π) (own : Bool) :
      Moves parse repo w (.poll call process) call ⟨process, .acquired own⟩
  | listed (call : Nat) (process : π) (own : Bool) :
      Moves parse repo w (.list call) call ⟨process, .listed own w.registry⟩
  | enforcing (call : Nat) (process : π) :
      Moves parse repo w (.replace call) call ⟨process, .enforcing⟩
  | copied (call : Nat) (process : π) : Moves parse repo w (.copy call) call ⟨process,
      .loading (w.snapshot process) ((w.snapshot process).filter fun a => !a.2.isTerminal) true⟩
  | cached (call : Nat) (process : π) (agents : Roster) (a : String × AgentStatus) (rest : Roster)
      (complete readOk : Bool)
      (slot : w.calls call = some ⟨process, .loading agents (a :: rest) complete⟩)
      (known : (w.deadlines process a.1).isSome) :
      Moves parse repo w (.load call readOk) call ⟨process, .loading agents rest complete⟩
  | missed (call : Nat) (process : π) (agents : Roster) (a : String × AgentStatus) (rest : Roster)
      (complete readOk : Bool)
      (slot : w.calls call = some ⟨process, .loading agents (a :: rest) complete⟩)
      (unknown : w.deadlines process a.1 = none)
      (absent : deadlineIn (history w repo a.1 readOk) = none) :
      Moves parse repo w (.load call readOk) call
        ⟨process, .loading agents rest (complete && readOk)⟩
  | found (call : Nat) (process : π) (agents : Roster) (a : String × AgentStatus) (rest : Roster)
      (complete readOk : Bool) (deadline : String)
      (slot : w.calls call = some ⟨process, .loading agents (a :: rest) complete⟩)
      (read : deadlineIn (history w repo a.1 readOk) = some deadline) :
      Moves parse repo w (.load call readOk) call
        ⟨process, .loaded agents rest a.1 deadline (complete && readOk)⟩
  | inserted (call : Nat) (process : π) (agents rest : Roster) (id deadline : String)
      (complete : Bool)
      (slot : w.calls call = some ⟨process, .loaded agents rest id deadline complete⟩) :
      Moves parse repo w (.insert call) call ⟨process, .loading agents rest complete⟩
  | selected (call : Nat) (now : τ) (process : π) (agents : Roster) (complete : Bool)
      (slot : w.calls call = some ⟨process, .loading agents [] complete⟩) :
      Moves parse repo w (.select call now) call
        ⟨process, .killing (expired parse now (w.deadlines process) agents)⟩
  | timedOut (call : Nat) (stamp : Stamp) (stored : Bool) (process : π) (id deadline : String)
      (due : List (String × String))
      (slot : w.calls call = some ⟨process, .killing ((id, deadline) :: due)⟩) :
      Moves parse repo w (.timeOut call stamp stored) call ⟨process, .timedOut id due⟩
  | killed (call : Nat) (ok : Bool) (process : π) (id : String) (due : List (String × String))
      (slot : w.calls call = some ⟨process, .timedOut id due⟩) :
      Moves parse repo w (.kill call ok) call ⟨process, .killing due⟩

section Step

variable {parse : String → Option τ} {repo : String} {w w' : World π} {a : Action π τ}

omit [DecidableEq π] in
theorem Moves.unique {call other : Nat} {x y : Call π} (h : Moves parse repo w a call x)
    (h' : Moves parse repo w a other y) : call = other := by
  cases h <;> cases h' <;> rfl

/-- Every call stays where it was, but for one that the action moves. -/
theorem call_step {call : Nat} {y : Call π} (h : w.step parse repo a = some w')
    (hy : w'.calls call = some y) : w.calls call = some y ∨ Moves parse repo w a call y := by
  cases step_effect h with
  | caliband id status | expire | prune beforeTs | removed process id | record e untimed running =>
    exact Or.inl hy
  | restart process => exact Or.inl (Option.filter_eq_some_iff.mp hy).1
  | unreachable other | done other => exact Or.inl (Slots.update_none hy).2
  | setDeadline other process id deadline stamp stored slot =>
    have hold := (Slots.update_none hy).2
    exact Or.inl ((congrFun (emit_frame w repo id _ stamp stored).1 call).symm.trans hold)
  | spawn other process id deadline slot named fresh =>
    rcases Slots.update_some hy with ⟨rfl, rfl⟩ | ⟨-, hold⟩
    · exact Or.inr (.spawned call process id deadline)
    · exact Or.inl hold
  | cache other process id deadline slot =>
    rcases Slots.update_some hy with ⟨rfl, rfl⟩ | ⟨-, hold⟩
    · exact Or.inr (.setting call process id deadline slot)
    · exact Or.inl hold
  | poll other process slot =>
    rcases Slots.update_some hy with ⟨rfl, rfl⟩ | ⟨-, hold⟩
    · exact Or.inr (.acquired call process _)
    · exact Or.inl ((congrFun (tryAcquire_frame w process).1 call).symm.trans hold)
  | list other process own slot =>
    rcases Slots.update_some hy with ⟨rfl, rfl⟩ | ⟨-, hold⟩
    · exact Or.inr (.listed call process own)
    · exact Or.inl hold
  | replace other process own records slot =>
    cases own with
    | false => exact Or.inl (Slots.update_none hy).2
    | true =>
      rcases Slots.update_some hy with ⟨rfl, rfl⟩ | ⟨-, hold⟩
      · exact Or.inr (.enforcing call process)
      · exact Or.inl hold
  | copy other process slot =>
    rcases Slots.update_some hy with ⟨rfl, rfl⟩ | ⟨-, hold⟩
    · exact Or.inr (.copied call process)
    · exact Or.inl hold
  | load other process agents a rest complete readOk slot =>
    simp only [World.load] at hy
    split at hy
    · rename_i hknown
      rcases Slots.update_some hy with ⟨rfl, rfl⟩ | ⟨-, hold⟩
      · exact Or.inr (.cached call process agents a rest complete readOk slot hknown)
      · exact Or.inl hold
    · rename_i hknown
      split at hy
      · rename_i deadline hread
        rcases Slots.update_some hy with ⟨rfl, rfl⟩ | ⟨-, hold⟩
        · exact Or.inr (.found call process agents a rest complete readOk deadline slot hread)
        · exact Or.inl hold
      · rename_i hread
        have hnone : w.deadlines process a.1 = none := by simpa using hknown
        rcases Slots.update_some hy with ⟨rfl, rfl⟩ | ⟨-, hold⟩
        · exact Or.inr (.missed call process agents a rest complete readOk slot hnone hread)
        · exact Or.inl hold
  | insert other process agents rest id deadline complete slot =>
    rcases Slots.update_some hy with ⟨rfl, rfl⟩ | ⟨-, hold⟩
    · exact Or.inr (.inserted call process agents rest id deadline complete slot)
    · exact Or.inl hold
  | select other now process agents complete slot =>
    rcases Slots.update_some hy with ⟨rfl, rfl⟩ | ⟨-, hold⟩
    · exact Or.inr (.selected call now process agents complete slot)
    · exact Or.inl hold
  | timeOut other stamp stored process id deadline due slot =>
    rcases Slots.update_some hy with ⟨rfl, rfl⟩ | ⟨-, hold⟩
    · exact Or.inr (.timedOut call stamp stored process id deadline due slot)
    · exact Or.inl ((congrFun (emit_frame w repo id _ stamp stored).1 call).symm.trans hold)
  | killed other process id due slot =>
    rcases Slots.update_some hy with ⟨rfl, rfl⟩ | ⟨-, hold⟩
    · exact Or.inr (.killed call true process id due slot)
    · exact Or.inl hold
  | failed other process id due slot =>
    rcases Slots.update_some hy with ⟨rfl, rfl⟩ | ⟨-, hold⟩
    · exact Or.inr (.killed call false process id due slot)
    · exact Or.inl hold

/-- What an action does to the log, and to all that was ever in it. -/
inductive Appends (repo : String) (w w' : World π) : Action π τ → Prop
  | quiet {a : Action π τ} (stored : w'.stored = w.stored) (log : w'.log.Sublist w.log) :
      Appends repo w w' a
  | other (e : FleetEvent) (untimed : deadlineOf e.kind = none) (running : isTimeout e.kind = false)
      (stored : w'.stored = w.stored ++ [e]) (log : w'.log = w.log ++ [e]) :
      Appends repo w w' (.record e)
  | deadline (call : Nat) (process : π) (id deadline : String) (stamp : Stamp) (e : FleetEvent)
      (slot : w.calls call = some ⟨process, .setting id deadline⟩)
      (event : e = ⟨stamp.seq, stamp.ts, repo, id, .deadlineSet deadline, none, none⟩)
      (stored : w'.stored = w.stored ++ [e]) (log : w'.log = w.log ++ [e]) :
      Appends repo w w' (.setDeadline call stamp true)
  | timeout (call : Nat) (process : π) (id deadline : String) (due : List (String × String))
      (stamp : Stamp) (e : FleetEvent)
      (slot : w.calls call = some ⟨process, .killing ((id, deadline) :: due)⟩)
      (event : e = ⟨stamp.seq, stamp.ts, repo, id, .agentTimedOut deadline, none, none⟩)
      (stored : w'.stored = w.stored ++ [e]) (log : w'.log = w.log ++ [e])
      (moved : w'.calls call = some ⟨process, .timedOut id due⟩) :
      Appends repo w w' (.timeOut call stamp true)

theorem appends (h : w.step parse repo a = some w') : Appends repo w w' a := by
  cases step_effect h with
  | prune beforeTs => exact .quiet rfl List.filter_sublist
  | record e untimed running => exact .other e untimed running rfl rfl
  | setDeadline call process id deadline stamp stored slot =>
    cases stored with
    | false => exact .quiet rfl (List.Sublist.refl _)
    | true => exact .deadline call process id deadline stamp _ slot rfl rfl rfl
  | timeOut call stamp stored process id deadline due slot =>
    cases stored with
    | false => exact .quiet rfl (List.Sublist.refl _)
    | true =>
      exact .timeout call process id deadline due stamp _ slot rfl rfl rfl (Function.update_self ..)
  | poll call process slot =>
    obtain ⟨-, hlog, hstored, -⟩ := tryAcquire_frame w process
    exact .quiet hstored (hlog ▸ List.Sublist.refl _)
  | load call process agents a rest complete readOk slot =>
    obtain ⟨phase, hload⟩ := load_goTo w repo call process agents rest a.1 complete readOk
    rw [hload]
    exact .quiet rfl (List.Sublist.refl _)
  | _ => exact .quiet rfl (List.Sublist.refl _)

theorem log_sublist (h : w.step parse repo a = some w') (hw : w.log.Sublist w.stored) :
    w'.log.Sublist w'.stored := by
  cases appends h with
  | quiet stored log => exact stored ▸ log.trans hw
  | other e untimed running stored log => exact stored ▸ log ▸ hw.append (List.Sublist.refl _)
  | deadline call process id deadline stamp e slot event stored log =>
    exact stored ▸ log ▸ hw.append (List.Sublist.refl _)
  | timeout call process id deadline due stamp e slot event stored log moved =>
    exact stored ▸ log ▸ hw.append (List.Sublist.refl _)

end Step

end Prospero.Proofs.Deadlines
