import Prospero.Attach
import Prospero.FleetManager

namespace Prospero.Reattach

/-- All attach tasks that one agent ever has, over the replicas' attach
machinery. A task's `attach_loop` state is kept under its process number;
`pending` is what its connection has brought and the emitter was not yet
handed. `history` is the agent's durable log: for each event the task that
emitted it and the frame it is the image of. -/
structure World where
  fleet : FleetManager.World
  agent : String
  target : Attach.Target
  loops : Nat → Attach.Loop
  pending : Nat → List (Nat × EventKind)
  history : List (Nat × Nat)

/-- `ok` is false when the emitter gives up on an append. -/
inductive Action
  | fleet (a : FleetManager.Action)
  | connect (id : Nat) (c : Attach.Connection)
  | record (id : Nat) (ok : Bool)

namespace World

def running (w : World) (id : Nat) : Bool :=
  match w.fleet.procs id with
  | some p => p.agent = w.agent ∧ p.phase = .running
  | none => false

/-- A task of this agent ends when its `attach_loop` has returned. -/
def admits (w : World) : FleetManager.Action → Bool
  | .exit id => w.running id → (w.loops id).outcome.isSome ∧ (w.pending id).isEmpty
  | _ => true

def step (w : World) : Action → Option World
  | .fleet a => if w.admits a then (w.fleet.step a).map fun f => { w with fleet := f } else none
  | .connect id c =>
    if w.running id ∧ (w.pending id).isEmpty then
      (Attach.step w.target { w.loops id with emitted := [] } c).map fun l =>
        { w with
          loops := Function.update w.loops id l
          pending := Function.update w.pending id l.emitted }
    else none
  | .record id ok =>
    if w.running id then
      match w.pending id with
      | [] => none
      | frame :: rest =>
        some { w with
          pending := Function.update w.pending id rest
          history := if ok then w.history ++ [(id, frame.1)] else w.history }
    else none

end World

def World.start (fleet : FleetManager.World) (agent : String) (target : Attach.Target) : World :=
  ⟨fleet, agent, target, fun _ => Attach.Loop.start, fun _ => [], []⟩

end Prospero.Reattach
