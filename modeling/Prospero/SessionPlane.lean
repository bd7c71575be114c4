import Prospero.Leases

namespace Prospero.SessionPlane

inductive Endpoint
  | tcp (addr : String)
  | unix (path : String)

structure AgentRecord where
  id : String
  status : AgentStatus

/-- One pod's caliband. `spawns` counts the `Spawn` requests it has received;
its registry does not shrink while the pod lasts. -/
structure Pod where
  registry : List AgentRecord
  spawns : Nat

inductive PodAgent
  | attach (id : String)
  | terminal
  | spawn
  | missing

/-- What `ensure_pod_agent` makes of the pod's `List`. -/
def ensurePodAgent (agents : List AgentRecord) (hasSpec : Bool) : PodAgent :=
  match agents.find? (fun record => !record.status.isTerminal) with
  | some record => .attach record.id
  | none =>
    match agents with
    | _ :: _ => .terminal
    | [] => if hasSpec then .spawn else .missing

/-- Where an `attach` call, and then its task, or a `stop` call has got to. -/
inductive Phase
  | dedup
  | checked
  | acquired
  | owned
  | listing
  | spawning
  | streaming (attachId : String)
  | stopping
  | detached
  | releasing
  | gone
deriving DecidableEq

/-- The attach task is live: it resolves the pod's agent or streams from it. -/
def Phase.isLive : Phase → Bool
  | .listing | .spawning | .streaming _ => true
  | _ => false

/-- `spawned` is true from the spawn until its caller has recorded the abort
handle; `aborting` when `stop` has aborted the task, which runs on to its next
await point at most. `stopped` is a history variable: `stop` took its slot. -/
structure Proc where
  replica : ReplicaId
  agent : String
  addr : String
  hasSpec : Bool
  generation : Nat
  spawned : Bool
  aborting : Bool
  stopped : Bool
  phase : Phase

/-- `task` is a history variable: the task the slot was reserved for. -/
structure AttachTask where
  abort : Option Nat
  generation : Nat
  task : Nat

/-- Every replica's session plane over the shared lease table. `pods` has the
current pod at each control endpoint of each CR. -/
structure World where
  leases : Leases.World
  attached : ReplicaId → String → Option AttachTask
  generation : ReplicaId → Nat
  terminal : ReplicaId → List String
  procs : Nat → Option Proc
  pods : String → String → Pod

inductive Action
  | lease (a : Leases.Action)
  | attach (id : Nat) (me : ReplicaId) (agent : String) (endpoint : Endpoint) (hasSpec : Bool)
  | dedup (id : Nat)
  | tryAcquire (id : Nat) (ok : Bool)
  | recordHeld (id : Nat)
  | reserve (id : Nat)
  | recordAbort (id : Nat)
  | list (id : Nat) (ok : Bool)
  | spawn (id : Nat) (agentId : String) (received replied : Bool)
  | finish (id : Nat)
  | cancel (id : Nat)
  | stop (id : Nat) (me : ReplicaId) (agent : String)
  | forgetTerminal (id : Nat)
  | forgetHeld (id : Nat)
  | release (id : Nat) (ok : Bool)
  | forgetGone (me : ReplicaId) (agent : String)
  | status (agent addr : String) (place : Nat) (status : AgentStatus)
  | replacePod (agent addr : String)
  | restart (me : ReplicaId)

namespace World

def setProc (w : World) (id : Nat) (p : Proc) : World :=
  { w with procs := Function.update w.procs id (some p) }

def setSlot (w : World) (me : ReplicaId) (agent : String) (t : Option AttachTask) : World :=
  { w with attached := Function.update w.attached me (Function.update (w.attached me) agent t) }

/-- The process is in its `source` phase and does something. -/
def proceed (w : World) (id : Nat) (source : Phase) (f : Proc → Option World) : Option World :=
  match w.procs id with
  | some p => if p.phase = source then f p else none
  | none => none

/-- A process at `source` has one statement of its `LeasedOwnership` executed. -/
def statement (w : World) (id : Nat) (source : Phase) (a : Proc → Leases.Action)
    (target : Leases.World → Phase) : Option World :=
  w.proceed id source fun p =>
    (w.leases.step (a p)).map fun l => { w.setProc id { p with phase := target l } with leases := l }

/-- The clock and the replicas' heartbeats. -/
def admits (w : World) : Leases.Action → Bool
  | .tick _ => true
  | .heartbeat call _ _ => (w.procs call).isNone
  | .heartbeatRenew _ _ => true
  | .dropLost _ => true
  | _ => false

/-- `cleanup_attach`, with which every task that is not aborted ends. -/
def cleanupAttach (w : World) (id : Nat) (p : Proc) : World :=
  let w' := w.setProc id { p with phase := .detached }
  if (w.attached p.replica p.agent).map AttachTask.generation = some p.generation then
    w'.setSlot p.replica p.agent none
  else w'

def modifyProc (w : World) (id : Nat) (f : Proc → Proc) : World :=
  { w with procs := Function.update w.procs id ((w.procs id).map f) }

/-- The slot is emptied and its task aborted, if the handle is known. Telling
the task to shut down only lets it finish earlier. -/
def takeSlot (w : World) (me : ReplicaId) (agent : String) : World :=
  match w.attached me agent with
  | none => w
  | some t =>
    let w' := (w.setSlot me agent none).modifyProc t.task fun p => { p with stopped := true }
    match t.abort with
    | some task => w'.modifyProc task fun p => { p with aborting := true }
    | none => w'

/-- The process dies and comes back under its name: what was in memory is gone,
the lease table and the pods are not. -/
def restart (w : World) (me : ReplicaId) : World :=
  { w with
    leases := { w.leases with
      held := Function.update w.leases.held me []
      calls := fun call => (w.leases.calls call).filter fun c => c.1 ≠ me }
    attached := Function.update w.attached me fun _ => none
    generation := Function.update w.generation me 0
    terminal := Function.update w.terminal me []
    procs := fun id => (w.procs id).map fun p =>
      if p.replica = me then { p with spawned := false, aborting := false, phase := .gone }
      else p }

def setPod (w : World) (agent addr : String) (pod : Pod) : World :=
  { w with pods := Function.update w.pods agent (Function.update (w.pods agent) addr pod) }

def step (w : World) : Action → Option World
  | .lease a => if w.admits a then (w.leases.step a).map fun l => { w with leases := l } else none
  | .attach id me agent endpoint hasSpec =>
    match w.procs id, w.leases.calls id with
    | none, none =>
      match endpoint with
      | .unix _ => some w
      | .tcp addr =>
        if agent ∈ w.terminal me then some w
        else some (w.setProc id ⟨me, agent, addr, hasSpec, 0, false, false, false, .dedup⟩)
    | _, _ => none
  | .dedup id => w.proceed id .dedup fun p =>
      let phase := if (w.attached p.replica p.agent).isSome then .gone else .checked
      some (w.setProc id { p with phase := phase })
  | .tryAcquire id ok =>
    w.statement id .checked (fun p => .tryAcquire id p.replica p.agent ok)
      fun l => if (l.calls id).isSome then .acquired else .gone
  | .recordHeld id => w.statement id .acquired (fun _ => .recordHeld id) fun _ => .owned
  | .reserve id => w.proceed id .owned fun p =>
      let generation := w.generation p.replica
      let w := { w with generation := Function.update w.generation p.replica (generation + 1) }
      match w.attached p.replica p.agent with
      -- that task owns the lease and releases it on exit: do not release here
      | some _ => some (w.setProc id { p with phase := .gone })
      | none =>
        some ((w.setProc id { p with generation := generation, spawned := true, phase := .listing })
          |>.setSlot p.replica p.agent (some ⟨none, generation, id⟩))
  | .recordAbort id =>
    match w.procs id with
    | some p =>
      if p.spawned then
        let w' := w.setProc id { p with spawned := false }
        match w.attached p.replica p.agent with
        | some t =>
          if t.generation = p.generation then
            some (w'.setSlot p.replica p.agent (some { t with abort := some id }))
          else some w'
        | none => some w'
      else none
    | none => none
  | .list id ok => w.proceed id .listing fun p =>
      if ok then
        match ensurePodAgent (w.pods p.agent p.addr).registry p.hasSpec with
        | .attach attachId => some (w.setProc id { p with phase := .streaming attachId })
        | .terminal =>
          let w' := { w with
            terminal := Function.update w.terminal p.replica (p.agent :: w.terminal p.replica) }
          some (w'.cleanupAttach id p)
        | .spawn => some (w.setProc id { p with phase := .spawning })
        | .missing => some (w.cleanupAttach id p)
      else some (w.cleanupAttach id p)
  | .spawn id agentId received replied => w.proceed id .spawning fun p =>
      let pod := w.pods p.agent p.addr
      let pod' : Pod := ⟨pod.registry ++ [⟨agentId, .spawning⟩], pod.spawns + 1⟩
      let w' := if received then w.setPod p.agent p.addr pod' else w
      if received ∧ replied then some (w'.setProc id { p with phase := .streaming agentId })
      else some (w'.cleanupAttach id p)
  | .finish id =>
    match w.procs id with
    | some p =>
      match p.phase with
      | .streaming _ => some (w.cleanupAttach id p)
      | _ => none
    | none => none
  | .cancel id =>
    match w.procs id with
    | some p => if p.aborting then some (w.setProc id { p with phase := .gone }) else none
    | none => none
  | .stop id me agent =>
    match w.procs id, w.leases.calls id with
    | none, none =>
      some ((w.takeSlot me agent).setProc id
        ⟨me, agent, "", false, 0, false, false, false, .stopping⟩)
    | _, _ => none
  | .forgetTerminal id => w.proceed id .stopping fun p =>
      some { w.setProc id { p with phase := .detached } with
        terminal := Function.update w.terminal p.replica
          ((w.terminal p.replica).filter (· ≠ p.agent)) }
  | .forgetHeld id =>
    w.statement id .detached (fun p => .forgetHeld id p.replica p.agent) fun _ => .releasing
  | .release id ok => w.statement id .releasing (fun _ => .release id ok) fun _ => .gone
  | .forgetGone me agent =>
    some { w with
      terminal := Function.update w.terminal me ((w.terminal me).filter (· ≠ agent)) }
  | .status agent addr place status =>
    let pod := w.pods agent addr
    let registry := pod.registry.modify place fun record => { record with status := status }
    some (w.setPod agent addr { pod with registry := registry })
  | .replacePod agent addr => some (w.setPod agent addr ⟨[], 0⟩)
  | .restart me => some (w.restart me)

end World

def World.start (now : Int) (table : Leases.Table) (ttl : ReplicaId → Int)
    (registry : String → String → List AgentRecord) : World where
  leases := Leases.World.start now table ttl
  attached := fun _ _ => none
  generation := fun _ => 0
  terminal := fun _ => []
  procs := fun _ => none
  pods := fun agent addr => ⟨registry agent addr, 0⟩

end Prospero.SessionPlane
