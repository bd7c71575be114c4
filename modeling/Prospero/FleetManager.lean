import Prospero.Leases

namespace Prospero.FleetManager

/-- Where a `start_attach` call, and then the task it spawned, has got to. Each
constructor sits at an await point or a lock of its own. -/
inductive Phase
  | checked
  | acquired
  | owned
  | running
  | detached
  | releasing
  | gone
deriving DecidableEq

structure Proc where
  replica : ReplicaId
  agent : String
  phase : Phase
deriving DecidableEq

/-- Every replica's attach tasks over the shared lease table. A call and the
statements it makes of its `LeasedOwnership` bear one number, which is not used
again. -/
structure World where
  leases : Leases.World
  attached : ReplicaId → List String
  procs : Nat → Option Proc

inductive Action
  | lease (a : Leases.Action)
  | startAttach (id : Nat) (me : ReplicaId) (agent : String)
  | tryAcquire (id : Nat) (ok : Bool)
  | recordHeld (id : Nat)
  | reserve (id : Nat)
  | exit (id : Nat)
  | forgetHeld (id : Nat)
  | release (id : Nat) (ok : Bool)
  | restart (me : ReplicaId)

namespace World

def setPhase (w : World) (id : Nat) (p : Proc) (phase : Phase) : World :=
  { w with procs := Function.update w.procs id (some { p with phase := phase }) }

/-- The clock and the replicas' heartbeats. -/
def admits (w : World) : Leases.Action → Bool
  | .tick _ => true
  | .heartbeat call _ _ => (w.procs call).isNone
  | .heartbeatRenew _ _ => true
  | .dropLost _ => true
  | _ => false

/-- The process dies and comes back under its name: what was in memory is gone,
the lease table is not. -/
def restart (w : World) (me : ReplicaId) : World where
  leases := { w.leases with
    held := Function.update w.leases.held me []
    calls := fun call => (w.leases.calls call).filter fun c => c.1 ≠ me }
  attached := Function.update w.attached me []
  procs := fun id => (w.procs id).map fun p =>
    if p.replica = me then { p with phase := .gone } else p

/-- A process at `source` has one statement of its `LeasedOwnership` executed. -/
def statement (w : World) (id : Nat) (source : Phase) (a : Proc → Leases.Action)
    (target : Leases.World → Phase) : Option World :=
  match w.procs id with
  | some p =>
    if p.phase = source then
      (w.leases.step (a p)).map fun l => { w.setPhase id p (target l) with leases := l }
    else none
  | none => none

def step (w : World) : Action → Option World
  | .lease a => if w.admits a then (w.leases.step a).map fun l => { w with leases := l } else none
  | .startAttach id me agent =>
    match w.procs id, w.leases.calls id with
    | none, none =>
      if agent ∈ w.attached me then some w
      else some (w.setPhase id ⟨me, agent, .checked⟩ .checked)
    | _, _ => none
  | .tryAcquire id ok =>
    w.statement id .checked (fun p => .tryAcquire id p.replica p.agent ok)
      fun l => if (l.calls id).isSome then .acquired else .gone
  | .recordHeld id => w.statement id .acquired (fun _ => .recordHeld id) fun _ => .owned
  | .reserve id =>
    match w.procs id with
    | some p =>
      if p.phase = .owned then
        -- another call took the slot: it will release the lease, this one must not
        if p.agent ∈ w.attached p.replica then some (w.setPhase id p .gone)
        else some { w.setPhase id p .running with
          attached := Function.update w.attached p.replica (p.agent :: w.attached p.replica) }
      else none
    | none => none
  | .exit id =>
    match w.procs id with
    | some p =>
      if p.phase = .running then
        some { w.setPhase id p .detached with
          attached := Function.update w.attached p.replica
            ((w.attached p.replica).filter (· ≠ p.agent)) }
      else none
    | none => none
  | .forgetHeld id =>
    w.statement id .detached (fun p => .forgetHeld id p.replica p.agent) fun _ => .releasing
  | .release id ok => w.statement id .releasing (fun _ => .release id ok) fun _ => .gone
  | .restart me => some (w.restart me)

end World

def World.start (now : Int) (table : Leases.Table) (ttl : ReplicaId → Int) : World :=
  ⟨Leases.World.start now table ttl, fun _ => [], fun _ => none⟩

end Prospero.FleetManager
