import Prospero.Auth
import Prospero.Deadlines
import Prospero.Spawning

namespace Prospero.Attribution
open Auth (AuthState Crypto Identity Method Request Route middleware)
open Deadlines (Stamp deadlineIn expired)
open Reconcile (Roster)
open Spawning (spoken)

/-- `mcpInherits` is whether the MCP transport makes a tool call in the task of
the request that brings it, or in one that it has spawned for the session. -/
structure Server where
  crypto : Crypto
  auth : AuthState
  mcpInherits : Bool

/-- What emits events: a `poll_repo_once`, a `spawn_agent_with_socket`, an
`rm_agent`, an attach task, the watch loop of the Kubernetes backend. -/
inductive Job
  | poll
  | spawn (id : String) (deadline : Option String)
  | rm (id : String)
  | attach
  | watch

/-- The jobs that tell what they see of the fleet. -/
def Job.observes : Job → Bool
  | .poll | .watch => true
  | .spawn .. | .rm .. | .attach => false

/-- The handlers that come to emit. `add_workspace` and `set_workspace_config`
end in a poll, and an automation that is fired spawns its agent. -/
def performs : Method → Route → Job → Bool
  | .post, .workspaces, .poll => true
  | .put, .workspaceConfig, .poll => true
  | .post, .workspaceAgents, .spawn _ _ => true
  | .post, .automationRun, .spawn _ _ => true
  | .post, .automationTrigger, .spawn _ _ => true
  | _, .mcp, .spawn _ _ | _, .mcpTail, .spawn _ _ => true
  | .delete, .agent, .rm _ => true
  | _, _, _ => false

/-- The identity that a handler's work is done under. -/
def Server.scopeOf (server : Server) (r : Request) (identity : Identity) : Identity :=
  if r.route ∈ [.mcp, .mcpTail] ∧ ¬server.mcpInherits then .unscoped else identity

/-- The poll loop, the automation engine and every other spawned task runs in
the background; a handler runs under the identity that let its request in. -/
inductive Task (server : Server)
  | background (job : Job)
  | request (r : Request) (job : Job) (identity : Identity)
      (admitted : middleware server.crypto server.auth r = .ok identity)
      (performed : performs r.method r.route job = true)

namespace Task

variable {server : Server}

def job : Task server → Job
  | .background job => job
  | .request _ job _ _ _ => job

/-- `current` and `current_subject` -/
def identity : Task server → Identity
  | .background _ => .unscoped
  | .request r _ identity _ _ => server.scopeOf r identity

end Task

/-- An event as it was built, and the task that built it. -/
structure Written (server : Server) where
  task : Task server
  event : FleetEvent

/-- What a call still does once its agent is announced or its snapshot written. -/
inductive Stage
  | setting (id deadline : String)
  | enforcing
  | killing (due : List (String × String))
  | timedOut (id : String) (due : List (String × String))

structure Rest (π : Type) where
  process : π
  stage : Stage

/-- The fleet of every workspace, by its name. `tasks` tells which task a call
was last started in, `rest` what it has left to do after its part in the fleet. -/
structure World (server : Server) (π : Type) where
  fleets : String → Reconcile.World π
  deadlines : π → String → Option String
  tasks : String → Nat → Task server
  rest : String → Nat → Option (Rest π)
  written : List (Written server)

/-- An emission has its sequence number and time from its stamp. Where the append
is lost, `lost` has the error and the stamp of the marker that tells of it. -/
inductive Action (π τ : Type)
  | fleet (repo : String) (a : Reconcile.Action π)
  | restart (process : π)
  | forget (process : π) (repo : String)
  | background (job : Job) (repo : String) (call : Nat) (process : π)
  | request (r : Request) (job : Job) (repo : String) (call : Nat) (process : π)
  | emit (repo : String) (call : Nat) (stamp : Stamp) (lost : Option (Stamp × CoreError))
  | setDeadline (repo : String) (call : Nat) (stamp : Stamp) (lost : Option (Stamp × CoreError))
  | select (repo : String) (call : Nat) (history : String → List FleetEvent) (now : τ)
  | timeOut (repo : String) (call : Nat) (stamp : Stamp) (lost : Option (Stamp × CoreError))
  | kill (repo : String) (call : Nat) (ok : Bool)
  | done (repo : String) (call : Nat)
  | attached (repo id : String) (kind : EventKind) (stamp : Stamp)
      (lost : Option (Stamp × CoreError))
  | watched (repo id : String) (fromStatus toStatus : AgentStatus) (stamp : Stamp)
      (lost : Option (Stamp × CoreError))

/-- `Emitter::next_event` -/
def nextEvent (identity : Identity) (repo agentId : String) (kind : EventKind) (stamp : Stamp) :
    FleetEvent where
  seq := stamp.seq
  ts := stamp.ts
  repo := repo
  agentId := agentId
  kind := kind
  actor := identity.actor
  onBehalfOf := identity.subject

/-- The deadlines that a process knows once it has read the history of each
live agent that it had none for. -/
def loaded (deadlines : String → Option String) (agents : Roster)
    (history : String → List FleetEvent) (id : String) : Option String :=
  if agents.any fun a => a.1 = id && !a.2.isTerminal then
    (deadlines id).or (deadlineIn (history id))
  else deadlines id

/-- How a job begins in the fleet. -/
def Job.opening {π : Type} (call : Nat) (process : π) : Job → Option (Reconcile.Action π)
  | .poll => some (.poll call process)
  | .spawn id _ => some (.spawn call process id)
  | .rm id => some (.rm call process id)
  | .attach | .watch => none

/-- The steps of a fleet that neither begin a call nor emit. -/
def silent {π : Type} : Reconcile.Action π → Bool
  | .poll _ _ | .spawn _ _ _ | .rm _ _ _ | .emit _ | .restart _ => false
  | _ => true

variable {server : Server} {π τ : Type} [DecidableEq π]

namespace World

def setFleet (w : World server π) (repo : String) (f : Reconcile.World π) : World server π :=
  { w with fleets := Function.update w.fleets repo f }

def setRest (w : World server π) (repo : String) (call : Nat) (x : Option (Rest π)) :
    World server π :=
  { w with rest := Function.update w.rest repo (Function.update (w.rest repo) call x) }

def setTask (w : World server π) (repo : String) (call : Nat) (task : Task server) :
    World server π :=
  { w with tasks := Function.update w.tasks repo (Function.update (w.tasks repo) call task) }

def setDeadlines (w : World server π) (process : π) (deadlines : String → Option String) :
    World server π :=
  { w with deadlines := Function.update w.deadlines process deadlines }

/-- `Emitter::emit`: where the append is lost, a marker follows from the same task. -/
def emit (w : World server π) (task : Task server) (repo agentId : String) (kind : EventKind)
    (stamp : Stamp) (lost : Option (Stamp × CoreError)) : World server π :=
  let marker := lost.map fun (gap, err) =>
    nextEvent task.identity repo agentId (.storePersistFailed stamp.seq err.toString) gap
  { w with written := w.written ++
      (nextEvent task.identity repo agentId kind stamp :: marker.toList).map (⟨task, ·⟩) }

/-- A reconcile that owns the lifecycle goes on to `enforce_deadlines`. -/
def nowRest (w : World server π) (repo : String) : Reconcile.Action π → World server π
  | .replace call =>
    match (w.fleets repo).calls call with
    | some ⟨process, .reporting true _ _⟩ => w.setRest repo call (some ⟨process, .enforcing⟩)
    | _ => w
  | _ => w

def begin (w : World server π) (task : Task server) (repo : String) (call : Nat) (process : π) :
    Option (World server π) :=
  match w.rest repo call, task.job.opening call process with
  | none, some a =>
    ((w.fleets repo).step a).map fun f => (w.setFleet repo f).setTask repo call task
  | _, _ => none

def restart (w : World server π) (process : π) : World server π :=
  { w with
    fleets := fun repo => (w.fleets repo).restart process
    deadlines := Function.update w.deadlines process fun _ => none
    rest := fun repo call => (w.rest repo call).filter fun x => x.process ≠ process }

/-- A workspace that is removed leaves the process's snapshot. -/
def forget (w : World server π) (process : π) (repo : String) : World server π :=
  let f := w.fleets repo
  w.setFleet repo { f with
    snapshot := Function.update f.snapshot process []
    health := Function.update f.health process .healthy }

def step [LinearOrder τ] (parse : String → Option τ) (w : World server π) :
    Action π τ → Option (World server π)
  | .fleet repo a =>
    if silent a then ((w.fleets repo).step a).map fun f => (w.nowRest repo a).setFleet repo f
    else none
  | .restart process => some (w.restart process)
  | .forget process repo => some (w.forget process repo)
  | .background job repo call process => w.begin (.background job) repo call process
  | .request r job repo call process =>
    match hr : middleware server.crypto server.auth r with
    | .ok identity =>
      if hp : performs r.method r.route job then
        w.begin (.request r job identity hr hp) repo call process
      else none
    | .error _ => none
  | .emit repo call stamp lost =>
    match spoken (w.fleets repo) (.emit call), (w.fleets repo).step (.emit call) with
    | some (process, e), some f =>
      let task := w.tasks repo call
      let w' := (w.setFleet repo f).emit task repo e.agentId e.kind stamp lost
      match task.job with
      | .spawn id (some deadline) =>
        some (w'.setRest repo call (some ⟨process, .setting id deadline⟩))
      | _ => some w'
    | _, _ => none
  | .setDeadline repo call stamp lost => (w.rest repo call).bind fun x =>
    match x.stage with
    | .setting id deadline =>
      let w' := w.setDeadlines x.process
        (Function.update (w.deadlines x.process) id (some deadline))
      some ((w'.emit (w.tasks repo call) repo id (.deadlineSet deadline) stamp lost).setRest
        repo call none)
    | _ => none
  | .select repo call history now => (w.rest repo call).bind fun x =>
    match x.stage, (w.fleets repo).calls call with
    | .enforcing, none =>
      let agents := (w.fleets repo).snapshot x.process
      let deadlines := loaded (w.deadlines x.process) agents history
      some ((w.setDeadlines x.process deadlines).setRest repo call
        (some ⟨x.process, .killing (expired parse now deadlines agents)⟩))
    | _, _ => none
  | .timeOut repo call stamp lost => (w.rest repo call).bind fun x =>
    match x.stage with
    | .killing ((id, deadline) :: due) =>
      some ((w.emit (w.tasks repo call) repo id (.agentTimedOut deadline) stamp lost).setRest
        repo call (some ⟨x.process, .timedOut id due⟩))
    | _ => none
  | .kill repo call ok => (w.rest repo call).bind fun x =>
    match x.stage with
    | .timedOut id due =>
      -- where the kill failed, the deadline stays for the next poll
      let w' := if ok then
          w.setDeadlines x.process (Function.update (w.deadlines x.process) id none)
        else w
      some (w'.setRest repo call (some ⟨x.process, .killing due⟩))
    | _ => none
  | .done repo call => (w.rest repo call).bind fun x =>
    match x.stage with
    | .killing [] => some (w.setRest repo call none)
    | _ => none
  | .attached repo id kind stamp lost => some (w.emit (.background .attach) repo id kind stamp lost)
  | .watched repo id fromStatus toStatus stamp lost =>
    some (w.emit (.background .watch) repo id (.statusChanged fromStatus toStatus) stamp lost)

end World

/-- Every process has just started and nothing is written yet. -/
def World.start (server : Server) (registries : String → Roster) : World server π where
  fleets := fun repo => Reconcile.World.start (registries repo) []
  deadlines := fun _ _ => none
  tasks := fun _ _ => .background .poll
  rest := fun _ _ => none
  written := []

end Prospero.Attribution
