import Mathlib.Order.Defs.LinearOrder
import Prospero.Reconcile
import Prospero.Store

namespace Prospero.Deadlines
open Prospero.Reconcile (Roster register)

def deadlineOf : EventKind → Option String
  | .deadlineSet deadline => some deadline
  | _ => none

def isTimeout : EventKind → Bool
  | .agentTimedOut _ => true
  | _ => false

/-- `deadline_in`: the newest deadline of an agent's history. -/
def deadlineIn (events : List FleetEvent) : Option String :=
  events.reverse.findSome? fun e => deadlineOf e.kind

/-- The agents to be killed now. `parse` reads RFC 3339, and a deadline that it
cannot read is ignored. -/
def expired {τ : Type} [LinearOrder τ] (parse : String → Option τ) (now : τ)
    (deadlines : String → Option String) (agents : Roster) : List (String × String) :=
  (agents.filter fun a => !a.2.isTerminal).filterMap fun a => do
    let raw ← deadlines a.1
    let deadline ← parse raw
    if deadline ≤ now then some (a.1, raw) else none

/-- What an emitter adds to an event. -/
structure Stamp where
  seq : Nat
  ts : String

/-- Where a spawn with a timeout stands, or a `poll_repo_once` with its
`enforce_deadlines`. `complete` is a history variable: no read has failed yet. -/
inductive Phase
  | spawned (id deadline : String)
  | setting (id deadline : String)
  | acquired (ownLifecycle : Bool)
  | listed (ownLifecycle : Bool) (records : Roster)
  | enforcing
  | loading (agents rest : Roster) (complete : Bool)
  | loaded (agents rest : Roster) (id deadline : String) (complete : Bool)
  | killing (due : List (String × String))
  | timedOut (id : String) (due : List (String × String))

structure Call (π : Type) where
  process : π
  phase : Phase

/-- One workspace: its caliband and its lifecycle lease, the durable log, and
each process's snapshot and deadlines. The last three are history variables:
the deadline that each agent was spawned with, every event that was ever in the
log, and those that had been when the pass of a call began. -/
structure World (π : Type) where
  registry : Roster
  lease : Option π
  log : List FleetEvent
  snapshot : π → Roster
  deadlines : π → String → Option String
  calls : Nat → Option (Call π)
  timeouts : String → Option String
  stored : List FleetEvent
  recorded : Nat → List FleetEvent

/-- The first six are the surroundings: caliband's agents, the lease, retention,
processes that die and come back, events of other kinds and removed agents.
`stored` is whether an event's append succeeds, `readOk` a replay. -/
inductive Action (π τ : Type)
  | caliband (id : String) (status : Option AgentStatus)
  | expire
  | prune (beforeTs : String)
  | restart (process : π)
  | record (e : FleetEvent)
  | removed (process : π) (id : String)
  | spawn (call : Nat) (process : π) (id deadline : String)
  | cache (call : Nat)
  | setDeadline (call : Nat) (stamp : Stamp) (stored : Bool)
  | poll (call : Nat) (process : π)
  | unreachable (call : Nat)
  | list (call : Nat)
  | replace (call : Nat)
  | copy (call : Nat)
  | load (call : Nat) (readOk : Bool)
  | insert (call : Nat)
  | select (call : Nat) (now : τ)
  | timeOut (call : Nat) (stamp : Stamp) (stored : Bool)
  | kill (call : Nat) (ok : Bool)
  | done (call : Nat)

variable {π τ : Type} [DecidableEq π]

namespace World

/-- A lease that has run out goes to whoever asks next. -/
def tryAcquire (w : World π) (process : π) : World π × Bool :=
  match w.lease with
  | none => ({ w with lease := some process }, true)
  | some owner => (w, owner = process)

def setCall (w : World π) (call : Nat) (x : Option (Call π)) : World π :=
  { w with calls := Function.update w.calls call x }

def goTo (w : World π) (call : Nat) (process : π) (phase : Phase) : World π :=
  w.setCall call (some ⟨process, phase⟩)

def setDeadline (w : World π) (process : π) (id : String) (deadline : Option String) : World π :=
  { w with
    deadlines := Function.update w.deadlines process
      (Function.update (w.deadlines process) id deadline) }

def append (w : World π) (e : FleetEvent) : World π :=
  { w with log := w.log ++ [e], stored := w.stored ++ [e] }

/-- `Emitter::emit`, for an event of one agent. -/
def emit (w : World π) (repo id : String) (kind : EventKind) (stamp : Stamp) (stored : Bool) :
    World π :=
  if stored then w.append ⟨stamp.seq, stamp.ts, repo, id, kind, none, none⟩ else w

def restart (w : World π) (process : π) : World π :=
  { w with
    snapshot := Function.update w.snapshot process []
    deadlines := Function.update w.deadlines process fun _ => none
    calls := fun call => (w.calls call).filter fun x => x.process ≠ process }

/-- One agent of the loop that fills in deadlines. A history that cannot be read
counts as empty. -/
def load (w : World π) (repo : String) (call : Nat) (process : π) (agents rest : Roster)
    (id : String) (complete readOk : Bool) : World π :=
  if (w.deadlines process id).isSome then w.goTo call process (.loading agents rest complete)
  else
    let history := if readOk then Store.replay w.log (streamKeyFor repo id) 0 else []
    match deadlineIn history with
    | some deadline =>
      w.goTo call process (.loaded agents rest id deadline (complete && readOk))
    | none => w.goTo call process (.loading agents rest (complete && readOk))

/-- caliband gives no id twice. -/
def spawn (w : World π) (call : Nat) (process : π) (id deadline : String) : Option (World π) :=
  match w.calls call with
  | none =>
    if id ≠ "" ∧ w.timeouts id = none then
      some { w.goTo call process (.spawned id deadline) with
        registry := register w.registry id (some .spawning)
        timeouts := Function.update w.timeouts id (some deadline) }
    else none
  | some _ => none

def step [LinearOrder τ] (parse : String → Option τ) (repo : String) (w : World π) :
    Action π τ → Option (World π)
  | .caliband id status => some { w with registry := register w.registry id status }
  | .expire => some { w with lease := none }
  | .prune beforeTs => some { w with log := w.log.filter (Store.survives beforeTs) }
  | .restart process => some (w.restart process)
  | .record e =>
    if (deadlineOf e.kind).isNone && !isTimeout e.kind then some (w.append e) else none
  | .removed process id => some { w with
      snapshot := Function.update w.snapshot process
        ((w.snapshot process).filter fun a => a.1 ≠ id) }
  | .spawn call process id deadline => w.spawn call process id deadline
  | .cache call => (w.calls call).bind fun x =>
    match x.phase with
    | .spawned id deadline =>
      some ((w.setDeadline x.process id (some deadline)).goTo call x.process (.setting id deadline))
    | _ => none
  | .setDeadline call stamp stored => (w.calls call).bind fun x =>
    match x.phase with
    | .setting id deadline =>
      some ((w.emit repo id (.deadlineSet deadline) stamp stored).setCall call none)
    | _ => none
  | .poll call process =>
    match w.calls call with
    | none =>
      let (w', own) := w.tryAcquire process
      some (w'.goTo call process (.acquired own))
    | some _ => none
  | .unreachable call => (w.calls call).bind fun x =>
    match x.phase with
    | .acquired _ => some (w.setCall call none)
    | _ => none
  | .list call => (w.calls call).bind fun x =>
    match x.phase with
    | .acquired own => some (w.goTo call x.process (.listed own w.registry))
    | _ => none
  | .replace call => (w.calls call).bind fun x =>
    match x.phase with
    | .listed own records =>
      let w' := { w with snapshot := Function.update w.snapshot x.process records }
      if own then some (w'.goTo call x.process .enforcing) else some (w'.setCall call none)
    | _ => none
  | .copy call => (w.calls call).bind fun x =>
    match x.phase with
    | .enforcing =>
      let agents := w.snapshot x.process
      some { w.goTo call x.process
          (.loading agents (agents.filter fun a => !a.2.isTerminal) true) with
        recorded := Function.update w.recorded call w.stored }
    | _ => none
  | .load call readOk => (w.calls call).bind fun x =>
    match x.phase with
    | .loading agents (a :: rest) complete =>
      some (w.load repo call x.process agents rest a.1 complete readOk)
    | _ => none
  | .insert call => (w.calls call).bind fun x =>
    match x.phase with
    | .loaded agents rest id deadline complete =>
      some ((w.setDeadline x.process id (some deadline)).goTo call x.process
        (.loading agents rest complete))
    | _ => none
  | .select call now => (w.calls call).bind fun x =>
    match x.phase with
    | .loading agents [] _ =>
      some (w.goTo call x.process (.killing (expired parse now (w.deadlines x.process) agents)))
    | _ => none
  | .timeOut call stamp stored => (w.calls call).bind fun x =>
    match x.phase with
    | .killing ((id, deadline) :: due) =>
      some ((w.emit repo id (.agentTimedOut deadline) stamp stored).goTo call x.process
        (.timedOut id due))
    | _ => none
  | .kill call ok => (w.calls call).bind fun x =>
    match x.phase with
    | .timedOut id due =>
      -- where the kill failed, the deadline stays for the next poll
      let w' := if ok then w.setDeadline x.process id none else w
      some (w'.goTo call x.process (.killing due))
    | _ => none
  | .done call => (w.calls call).bind fun x =>
    match x.phase with
    | .killing [] => some (w.setCall call none)
    | _ => none

end World

/-- Nothing has been spawned, listed or stored yet. -/
def World.start : World π where
  registry := []
  lease := none
  log := []
  snapshot := fun _ => []
  deadlines := fun _ _ => none
  calls := fun _ => none
  timeouts := fun _ => none
  stored := []
  recorded := fun _ => []

end Prospero.Deadlines
