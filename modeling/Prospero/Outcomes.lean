import Prospero.Reconcile

namespace Prospero.Outcomes
open Prospero.Reconcile (Roster Phase)

variable {π : Type} [DecidableEq π]

/-- The fleet with three history variables. `finished`: the agents that reached
a terminal status, and which. `seen`: for each reconcile, those that had when it
fetched its list. `due`: those that a reconcile which owned the lifecycle lease
had seen when it ended. -/
structure World (π : Type) where
  fleet : Reconcile.World π
  finished : Roster
  seen : Nat → List String
  due : List String

namespace World

/-- A terminal status is final and an agent id is not given out again. -/
def admits (w : World π) : Reconcile.Action π → Bool
  | .caliband id status =>
    match w.finished.lookup id with
    | none => true
    | some final => status = none || status = some final
  | .spawn _ _ id => (w.finished.lookup id).isNone
  | _ => true

def nowFinished (w : World π) : Reconcile.Action π → Roster
  | .caliband id (some status) =>
    if status.isTerminal ∧ w.finished.lookup id = none then w.finished ++ [(id, status)]
    else w.finished
  | _ => w.finished

def nowSeen (w : World π) : Reconcile.Action π → Nat → List String
  | .list call => Function.update w.seen call (w.finished.map Prod.fst)
  | _ => w.seen

def nowDue (w : World π) : Reconcile.Action π → List String
  | .replace call =>
    match (w.fleet.calls call).map Reconcile.Call.phase with
    | some (.reporting true _ _) => w.due ++ w.seen call
    | _ => w.due
  | _ => w.due

def step (w : World π) (a : Reconcile.Action π) : Option (World π) :=
  if w.admits a then (w.fleet.step a).map fun f => ⟨f, w.nowFinished a, w.nowSeen a, w.nowDue a⟩
  else none

end World

/-- No agents and no events yet. -/
def World.start : World π := ⟨Reconcile.World.start [] [], [], fun _ => [], []⟩

end Prospero.Outcomes
