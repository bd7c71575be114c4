import Mathlib.Logic.Function.Basic
import Prospero.Event

namespace Prospero.WatchLoop

/-- A CR as the API server has it. An endpoint is a well-formed one. -/
structure CalibanTask where
  name : String
  uid : String
  workspace : String
  createdAt : String
  phase : String
  endpoint : Option String
deriving DecidableEq

structure Agent where
  id : String
  workspace : String
  status : AgentStatus
  startedAt : String
deriving DecidableEq

def phaseToStatus : String → AgentStatus
  | "" | "Pending" | "Provisioning" => .spawning
  | "Running" => .running
  | "Draining" => .idle
  | "Completed" => .done
  | "Failed" => .failed
  | _ => .failed

def agentFromTask (task : CalibanTask) : Agent :=
  ⟨task.name, task.workspace, phaseToStatus task.phase, task.createdAt⟩

/-- The endpoint of a CR that can be attached to. -/
def handleFrom (task : CalibanTask) : Option String :=
  if task.phase = "Running" then task.endpoint else none

/-- The terminal status already observed for this incarnation: terminal stays
terminal, and the same `startedAt` means the same incarnation. -/
def settled (known : List Agent) (task : CalibanTask) : Option AgentStatus :=
  match known.find? fun a => a.id = task.name with
  | some prev =>
    if prev.status.isTerminal ∧ prev.startedAt = (agentFromTask task).startedAt then
      some prev.status
    else none
  | none => none

/-- The CR's agent with the status of its pod, where that is known. -/
def overlaid (known : List Agent) (answers : List (String × AgentStatus)) (task : CalibanTask) :
    Agent :=
  match settled known task, answers.lookup task.name with
  | some status, _ => { agentFromTask task with status := status }
  | none, some status => { agentFromTask task with status := status }
  | none, none => agentFromTask task

/-- `FleetChange::StatusChanged`; the other changes are not recorded. `uid` is a
history variable: the incarnation that was listed. -/
structure StatusChange where
  id : String
  workspace : String
  fromStatus : AgentStatus
  toStatus : AgentStatus
  uid : String
deriving DecidableEq

def changeOf (known : List Agent) (answers : List (String × AgentStatus)) (task : CalibanTask) :
    Option StatusChange :=
  let agent := overlaid known answers task
  match known.find? fun a => a.id = task.name with
  | some prev =>
    if prev.status ≠ agent.status then
      some ⟨task.name, agent.workspace, prev.status, agent.status, task.uid⟩
    else none
  | none => none

/-- What the loop over the listed CRs compares. -/
structure Pass where
  known : List Agent
  tasks : List CalibanTask
  answers : List (String × AgentStatus)

def Pass.changes (pass : Pass) : List StatusChange :=
  pass.tasks.filterMap (changeOf pass.known pass.answers)

/-- Where a process's poll stands. The dials of one poll are made one by one and
in no order; what was `known` before the loop over the CRs is a history variable. -/
inductive Phase
  | idle
  | overlay (tasks : List CalibanTask) (answers : List (String × AgentStatus))
  | observed (pass : Pass)
  | recording (changes : List StatusChange)
  | emitting (change : StatusChange) (rest : List StatusChange)

/-- `seen` is a history variable: the incarnations whose pods had reported a
terminal status when this poll listed, or did so to it. -/
structure Loop where
  known : List Agent
  terminalRecorded : List String
  phase : Phase
  seen : List String

structure Entry where
  repo : String
  agentId : String
  kind : EventKind
  uid : String

/-- The watch loops of all processes over one API server, one durable log and
the observer lease. `pods` has the incarnation and the status of the agent that
answers at an address. `reported` and `due` are history variables: the
incarnations whose pods have reported a terminal status, and those that a poll
which held the lease had seen when it ended. -/
structure World (π : Type) where
  tasks : List CalibanTask
  pods : String → Option (String × AgentStatus)
  observer : Option π
  loops : π → Loop
  log : List Entry
  reported : List String
  due : List String

/-- The first five are the surroundings: the CRs and their pods, and the observer
lease running out. `stored` is whether an emit's append succeeds. -/
inductive Action (π : Type)
  | create (task : CalibanTask)
  | delete (name : String)
  | operator (name phase : String) (endpoint : Option String)
  | pod (addr : String) (agent : Option (String × AgentStatus))
  | expire
  | restart (process : π)
  | list (process : π)
  | dial (process : π) (name : String)
  | diff (process : π)
  | acquire (process : π)
  | check (process : π) (readOk : Bool)
  | emit (process : π) (stored : Bool)
  | sleep (process : π)

def Loop.new : Loop := ⟨[], [], .idle, []⟩

/-- Some event of the stream is a terminal `StatusChanged`. -/
def terminalInLog (log : List Entry) (agentId : String) : Bool :=
  log.any fun e => e.agentId = agentId &&
    match e.kind with
    | .statusChanged _ toStatus => toStatus.isTerminal
    | _ => false

/-- `already_recorded_terminal`; a read that fails counts as not recorded. -/
def alreadyRecordedTerminal (log : List Entry) (cache : List String) (agentId : String)
    (readOk : Bool) : Bool :=
  cache.contains agentId || (readOk && terminalInLog log agentId)

variable {π : Type} [DecidableEq π]

namespace World

def setLoop (w : World π) (process : π) (x : Loop) : World π :=
  { w with loops := Function.update w.loops process x }

def create (w : World π) (task : CalibanTask) : Option (World π) :=
  if w.tasks.any fun t => t.name = task.name then none
  else some { w with tasks := w.tasks ++ [task] }

/-- One pod's `List`, for a CR that is not settled and has an endpoint. A poll
that goes on without an answer has met a failure or the timeout. -/
def dial (w : World π) (process : π) (x : Loop) (tasks : List CalibanTask)
    (answers : List (String × AgentStatus)) (name : String) : Option (World π) := do
  let task ← tasks.find? fun t => t.name = name
  if (settled x.known task).isSome || (answers.lookup name).isSome then none
  let addr ← handleFrom task
  let (uid, status) ← w.pods addr
  let heard := if status.isTerminal then [uid] else []
  some { w.setLoop process { x with
      phase := .overlay tasks (answers ++ [(name, status)])
      seen := x.seen ++ heard } with
    reported := w.reported ++ heard }

/-- The loop over the listed CRs, under the lock. -/
def diff (w : World π) (process : π) (x : Loop) (tasks : List CalibanTask)
    (answers : List (String × AgentStatus)) : World π :=
  w.setLoop process { x with
    known := tasks.map (overlaid x.known answers)
    phase := .observed ⟨x.known, tasks, answers⟩ }

/-- Only the holder of the observer lease records the changes. -/
def acquire (w : World π) (process : π) (x : Loop) (pass : Pass) : World π :=
  match w.observer with
  | none => { w.setLoop process { x with phase := .recording pass.changes } with
      observer := some process }
  | some owner => w.setLoop process
      { x with phase := if owner = process then .recording pass.changes else .idle }

/-- What is done about one change before it is emitted, or instead. -/
def check (w : World π) (process : π) (x : Loop) (change : StatusChange)
    (rest : List StatusChange) (readOk : Bool) : World π :=
  if change.toStatus.isTerminal then
    w.setLoop process { x with
      terminalRecorded := change.id :: x.terminalRecorded
      phase :=
        if alreadyRecordedTerminal w.log x.terminalRecorded change.id readOk then .recording rest
        else .emitting change rest }
  else w.setLoop process { x with phase := .emitting change rest }

def emit (w : World π) (process : π) (x : Loop) (change : StatusChange)
    (rest : List StatusChange) (stored : Bool) : World π :=
  let e : Entry := ⟨change.workspace, change.id,
    .statusChanged change.fromStatus change.toStatus, change.uid⟩
  { w.setLoop process { x with phase := .recording rest } with
    log := if stored then w.log ++ [e] else w.log }

def step (w : World π) : Action π → Option (World π)
  | .create task => w.create task
  | .delete name => some { w with tasks := w.tasks.filter fun t => t.name ≠ name }
  | .operator name phase endpoint => some { w with
      tasks := w.tasks.map fun t =>
        if t.name = name then { t with phase := phase, endpoint := endpoint } else t }
  | .pod addr agent => some { w with pods := Function.update w.pods addr agent }
  | .expire => some { w with observer := none }
  | .restart process => some (w.setLoop process .new)
  | .list process =>
    let x := w.loops process
    match x.phase with
    | .idle => some (w.setLoop process
        { x with phase := .overlay w.tasks [], seen := w.reported })
    | _ => none
  | .dial process name =>
    let x := w.loops process
    match x.phase with
    | .overlay tasks answers => w.dial process x tasks answers name
    | _ => none
  | .diff process =>
    let x := w.loops process
    match x.phase with
    | .overlay tasks answers => some (w.diff process x tasks answers)
    | _ => none
  | .acquire process =>
    let x := w.loops process
    match x.phase with
    | .observed pass => some (w.acquire process x pass)
    | _ => none
  | .check process readOk =>
    let x := w.loops process
    match x.phase with
    | .recording (change :: rest) => some (w.check process x change rest readOk)
    | _ => none
  | .emit process stored =>
    let x := w.loops process
    match x.phase with
    | .emitting change rest => some (w.emit process x change rest stored)
    | _ => none
  | .sleep process =>
    let x := w.loops process
    match x.phase with
    | .recording [] => some { w.setLoop process { x with phase := .idle } with
        due := w.due ++ x.seen }
    | _ => none

end World

/-- `restart_agent`: the CR goes, and comes back under its name. -/
def restartAgent (task : CalibanTask) (uid createdAt : String) : List (Action π) :=
  [.delete task.name, .create { task with
    uid := uid, createdAt := createdAt, phase := "", endpoint := none }]

/-- Nothing has been created or observed yet. -/
def World.start : World π :=
  ⟨[], fun _ => none, none, fun _ => .new, [], [], []⟩

end Prospero.WatchLoop
