import Prospero.KubeFleet
import Prospero.Lib.Feed

namespace Prospero.WatchFleet
open Prospero.KubeFleet (Agent FleetChange Loop Observation)

/-- What a change does to the fleet as a subscriber sees it. -/
def effect : FleetChange → Feed.Change String AgentStatus
  | .discovered id _ agent => .appear id agent.status
  | .statusChanged id _ _ toStatus => .change id toStatus
  | .gone id _ => .vanish id
  | .workspaceHealth .. => .skip

/-- The agents and statuses that the changes come to. -/
def fold (changes : List FleetChange) : String → Option AgentStatus :=
  Feed.replay (fun _ => none) (changes.map effect)

def statuses (known : HashMap String Agent) (id : String) : Option AgentStatus :=
  (known.lookup id).map Agent.status

/-- How many changes the broadcast channel retains. -/
def capacity : Nat := 256

/-- A stream of `watch_fleet`: where it is to read on in the channel, whether it
was polled already, the seeded ids whose `Discovered` is to be dropped, and what
it has yielded. -/
structure Subscriber where
  position : Nat
  seeded : Bool
  seen : List String
  received : List FleetChange

/-- A `Discovered` of the seed's is dropped. -/
def Subscriber.take (s : Subscriber) (change : FleetChange) : Subscriber :=
  match change with
  | .discovered id _ _ =>
    if id ∈ s.seen then { s with position := s.position + 1, seen := s.seen.erase id }
    else { s with position := s.position + 1, received := s.received ++ [change] }
  | _ => { s with position := s.position + 1, received := s.received ++ [change] }

/-- The watch loop and its subscribers. `sent` is all that was ever broadcast,
`pending` what the loop has in `known` and is yet to broadcast in this pass. -/
structure World where
  loop : Loop
  sent : List FleetChange
  pending : List FleetChange
  subscribers : Nat → Option Subscriber

inductive Action
  | poll (o : Observation)
  | send
  | subscribe (id : Nat)
  | seed (id : Nat)
  | receive (id : Nat)

namespace World

def setSubscriber (w : World) (id : Nat) (s : Subscriber) : World :=
  { w with subscribers := Function.update w.subscribers id (some s) }

/-- A `Discovered` for each agent that is known. -/
def seedOf (w : World) : List FleetChange :=
  w.loop.known.entries.map fun e => .discovered e.1 e.2.workspace e.2

/-- The subscriber yields everything that is known, once more. -/
def reseed (w : World) (s : Subscriber) (position : Nat) : Subscriber :=
  ⟨position, true, w.loop.known.keys, s.received ++ w.seedOf⟩

/-- Whoever is more than the channel's capacity behind goes on at the oldest
change that is retained. -/
def receive (w : World) (s : Subscriber) : Option Subscriber :=
  if s.position + capacity < w.sent.length then
    some (w.reseed s (w.sent.length - capacity))
  else (w.sent[s.position]?).map s.take

def step (w : World) : Action → Option World
  | .poll o =>
    match w.pending with
    | [] => some { w with loop := o.pass w.loop, pending := o.changes w.loop.known }
    | _ :: _ => none
  | .send =>
    match w.pending with
    | [] => none
    | change :: rest => some { w with sent := w.sent ++ [change], pending := rest }
  | .subscribe id =>
    match w.subscribers id with
    | none => some (w.setSubscriber id ⟨w.sent.length, false, [], []⟩)
    | some _ => none
  | .seed id => (w.subscribers id).bind fun s =>
    if s.seeded then none else some (w.setSubscriber id (w.reseed s s.position))
  | .receive id => (w.subscribers id).bind fun s =>
    if s.seeded then (w.receive s).map (w.setSubscriber id) else none

end World

def World.start : World := ⟨Loop.start, [], [], fun _ => none⟩

end Prospero.WatchFleet
