import Mathlib.Data.List.Infix
import Prospero.Attach
import Prospero.Lib.HashMap
import Prospero.SessionPlane
import Prospero.WatchLoop

namespace Prospero.KubeFleet
open Prospero.SessionPlane (AgentRecord Endpoint)
open Prospero.WatchLoop (phaseToStatus)

inductive PermissionPosture
  | supervised
  | unattended
deriving DecidableEq

/-- `status` is `"True"`, `"False"` or `"Unknown"`. -/
structure Condition where
  type : String
  status : String
  reason : String
  message : Option String
deriving DecidableEq

structure CalibanTaskStatus where
  phase : String
  calibandEndpoint : Option String
  conditions : List Condition
  permissionPosture : Option PermissionPosture
deriving DecidableEq

/-- A CR as the API server lists it: some of its metadata, the workspace that
its spec references, and its status. -/
structure CalibanTask where
  name : Option String
  uid : Option String
  creationTimestamp : Option String
  workspaceRef : String
  status : Option CalibanTaskStatus
deriving DecidableEq

/-- `metadata.name.clone().unwrap_or_default()` -/
def CalibanTask.nameOrDefault (task : CalibanTask) : String := task.name.getD ""

structure Agent where
  id : String
  name : String
  workspace : String
  status : AgentStatus
  startedAt : String
  isolated : Bool
  interactive : Bool
  permissionPosture : PermissionPosture
  reason : Option String
  detail : Option String
deriving DecidableEq

inductive EndpointError
  | empty
  | url (addr : String)
  | whitespace (addr : String)
deriving DecidableEq

/-- A bare `host:port` is all that may be dialled. -/
def validateCalibandEndpoint (addr : String) : Except EndpointError Unit :=
  if addr.toList.all Attach.isWhitespace then .error .empty
  else if "://".toList <:+: addr.toList then .error (.url addr)
  else if addr.toList.any Attach.isWhitespace then .error (.whitespace addr)
  else .ok ()

structure AgentHandle where
  id : String
  workspace : String
  endpoint : Option Endpoint
  created : Bool

/-- How a CR that is running can be attached to. -/
def handleFrom (task : CalibanTask) (repo : String) : Except EndpointError (Option AgentHandle) :=
  match task.status with
  | none => .ok none
  | some status =>
    if status.phase ≠ "Running" then .ok none
    else
      match status.calibandEndpoint, task.name with
      | some addr, some name =>
        match validateCalibandEndpoint addr with
        | .ok () => .ok (some ⟨name, repo, some (.tcp addr), false⟩)
        | .error e => .error e
      | _, _ => .ok none

/-- The control endpoint of a CR's pod, where there is one to dial. -/
def endpointOf (task : CalibanTask) : Option String :=
  match handleFrom task task.workspaceRef with
  | .ok (some ⟨_, _, some (.tcp addr), _⟩) => some addr
  | _ => none

/-- Names whose uid is not what it was. -/
def recreatedNames (lastUids current : HashMap String String) : List String :=
  current.keys.filter fun name =>
    match lastUids.lookup name with
    | some prev => some prev ≠ current.lookup name
    | none => false

/-- Why a task is not ready, in the operator's words. -/
def unreadyReason (task : CalibanTask) : Option String × Option String :=
  match (task.status.bind fun s => s.conditions.find? fun c => c.type = "Ready").filter
      fun c => c.status ≠ "True" with
  | some cond => (if cond.reason = "" then none else some cond.reason, cond.message)
  | none => (none, none)

def agentFromTask (task : CalibanTask) : Agent :=
  let (reason, detail) := unreadyReason task
  { id := task.nameOrDefault
    name := task.nameOrDefault
    workspace := task.workspaceRef
    status := phaseToStatus ((task.status.map CalibanTaskStatus.phase).getD "")
    startedAt := task.creationTimestamp.getD ""
    isolated := false
    interactive := false
    permissionPosture := (task.status.bind CalibanTaskStatus.permissionPosture).getD .supervised
    reason := reason
    detail := detail }

/-- One agent of a pod's `List`. -/
structure PodRecord extends AgentRecord where
  interactive : Bool

/-- What each endpoint answers to a `List` in time, if it does. -/
abbrev Pods := String → Option (List PodRecord)

/-- The endpoints of the CRs that are not left out. -/
def agentEndpoint (tasks : List CalibanTask) (included : String → Bool) :
    HashMap String String :=
  HashMap.collectBy CalibanTask.nameOrDefault
    (fun task => if included task.nameOrDefault then endpointOf task else none) tasks

/-- A pod's only record, or the first of several. -/
def podRecord (pods : Pods) (addr : String) : Option PodRecord :=
  (pods addr).bind List.head?

/-- The live status of an agent whose pod has answered, and its `interactive` flag. -/
def refresh (endpoints : HashMap String String) (pods : Pods) (agent : Agent) : Agent :=
  match (endpoints.lookup agent.id).bind (podRecord pods) with
  | some rec => { agent with interactive := rec.interactive, status := rec.status }
  | none => agent

/-- The agents with what their pods report, and the statuses that were reported. -/
def overlayPodStatus (tasks : List CalibanTask) (pods : Pods) (agents : List Agent)
    (included : String → Bool) : List Agent × HashMap String AgentStatus :=
  let endpoints := agentEndpoint tasks included
  (agents.map (refresh endpoints pods),
    HashMap.collectBy Agent.id
      (fun agent => ((endpoints.lookup agent.id).bind (podRecord pods)).map fun rec => rec.status)
      agents)

def agentsSettledCondition (agents : List AgentStatus) : Condition :=
  let settled := agents ≠ [] && agents.all AgentStatus.isTerminal
  if !settled then ⟨"AgentsSettled", "False", "AgentsActive", none⟩
  else if agents.any fun s => s = .failed || s = .crashed then
    ⟨"AgentsSettled", "True", "Failed", none⟩
  else ⟨"AgentsSettled", "True", "Succeeded", none⟩

inductive FleetChange
  | discovered (id workspace : String) (agent : Agent)
  | statusChanged (id workspace : String) (fromStatus toStatus : AgentStatus)
  | gone (id workspace : String)
  | workspaceHealth (workspace : String) (health : WorkspaceHealth)
deriving DecidableEq

/-- The terminal statuses already observed of the incarnations that are listed. -/
def settled (known : HashMap String Agent) (agents : List Agent) : HashMap String AgentStatus :=
  HashMap.collectBy Agent.id (fun a => (known.lookup a.id).bind fun prev =>
    if prev.status.isTerminal ∧ prev.startedAt = a.startedAt then some prev.status else none) agents

/-- A settled verdict is carried forward. -/
def carryForward (settled : HashMap String AgentStatus) (agent : Agent) : Agent :=
  match settled.lookup agent.id with
  | some status => { agent with status := status }
  | none => agent

/-- Where the loop over the listed CRs stands. -/
structure Diff where
  known : HashMap String Agent
  overlaid : HashMap String Agent
  seen : List String
  changes : List FleetChange
  toAttach : List (String × String × String)

def changeOf (prev : Option Agent) (name : String) (agent : Agent) : Option FleetChange :=
  match prev with
  | none => some (.discovered name agent.workspace agent)
  | some p =>
    if p.status ≠ agent.status then
      some (.statusChanged name agent.workspace p.status agent.status)
    else none

def Diff.visit (d : Diff) (task : CalibanTask) : Diff :=
  match task.name with
  | none => d
  | some name =>
    match d.overlaid.lookup name with
    | none => { d with seen := name :: d.seen }
    | some agent =>
      { known := d.known.insert name agent
        overlaid := d.overlaid.erase name
        seen := name :: d.seen
        changes := d.changes ++ (changeOf (d.known.lookup name) name agent).toList
        toAttach := d.toAttach ++
          ((endpointOf task).map fun addr => (agent.workspace, name, addr)).toList }

/-- What is known and was not listed. -/
def Diff.gone (d : Diff) : List String :=
  d.known.keys.filter fun name => !d.seen.contains name

def Diff.goneChanges (d : Diff) : List FleetChange :=
  d.gone.filterMap fun name => (d.known.lookup name).map fun agent => .gone name agent.workspace

/-- What the watch loop keeps from one poll to the next. -/
structure Loop where
  known : HashMap String Agent
  lastUids : HashMap String String

/-- What the API server and the pods show to one poll. -/
structure Observation where
  tasks : List CalibanTask
  pods : Pods

namespace Observation

def currentUids (o : Observation) : HashMap String String :=
  HashMap.collect <| o.tasks.filterMap fun task => task.name.map fun name =>
    (name, task.uid.getD "")

def recreated (o : Observation) (l : Loop) : List String :=
  recreatedNames l.lastUids o.currentUids

variable (o : Observation) (known : HashMap String Agent)

def settled : HashMap String AgentStatus :=
  KubeFleet.settled known (o.tasks.map agentFromTask)

/-- The overlay of the watch loop leaves out what is settled. -/
def overlay : List Agent × HashMap String AgentStatus :=
  overlayPodStatus o.tasks o.pods (o.tasks.map agentFromTask)
    fun name => ((o.settled known).lookup name).isNone

def overlaid : HashMap String Agent :=
  HashMap.collectBy Agent.id some ((o.overlay known).1.map (carryForward (o.settled known)))

/-- The loop over the listed CRs, under the lock. -/
def diff : Diff :=
  o.tasks.foldl Diff.visit ⟨known, o.overlaid known, [], [], []⟩

/-- One poll: what the loop keeps of it. -/
def pass (l : Loop) : Loop :=
  let d := o.diff l.known
  ⟨HashMap.eraseAll d.gone d.known, o.currentUids⟩

/-- What one poll broadcasts, and its `StatusChanged` among it for the log. -/
def changes : List FleetChange :=
  let d := o.diff known
  d.changes ++ d.goneChanges

/-- The conditions that `report_agents_settled` applies, by name. -/
def reports : List (String × Condition) :=
  (o.overlay known).2.entries.map fun e => (e.1, agentsSettledCondition [e.2])

end Observation

def Loop.start : Loop := ⟨∅, ∅⟩

/-- The watch loop takes one poll after another. -/
def poll (l : Loop) (o : Observation) : Option Loop := some (o.pass l)

structure Workspace where
  name : String
  agents : List Agent

/-- The agents under the registered workspaces that they reference; a second
workspace of one name would find them taken. -/
def grouped : List String → List Agent → List Workspace
  | [], _ => []
  | name :: registered, agents =>
    ⟨name, agents.filter fun a => a.workspace = name⟩ ::
      grouped registered (agents.filter fun a => a.workspace ≠ name)

/-- `K8sFleet::snapshot`. `registered` is absent when there is no registry of
workspaces, or when it could not be listed. -/
def snapshot (o : Observation) (registered : Option (List (Option String))) : List Workspace :=
  let agents := (overlayPodStatus o.tasks o.pods (o.tasks.map agentFromTask) fun _ => true).1
  match registered with
  | some names => grouped (names.map fun name => name.getD "") agents
  | none => [⟨"k8s", agents⟩]

end Prospero.KubeFleet
