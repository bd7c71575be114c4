import Prospero.Lib.Feed
import Prospero.Reconcile

namespace Prospero.WatchChanges
open Prospero.Reconcile (Entry Roster)

/-- An agent goes by its id and its status here. -/
inductive FleetChange
  | discovered (id workspace : String) (status : AgentStatus)
  | statusChanged (id workspace : String) (fromStatus toStatus : AgentStatus)
  | gone (id workspace : String)
  | workspaceHealth (workspace : String) (health : WorkspaceHealth)
deriving DecidableEq

/-- What a change does to the fleet as a subscriber sees it: the agents of each
workspace, by their ids there. -/
def effect : FleetChange → Feed.Change (String × String) AgentStatus
  | .discovered id workspace status => .appear (workspace, id) status
  | .statusChanged id workspace _ toStatus => .change (workspace, id) toStatus
  | .gone id workspace => .vanish (workspace, id)
  | .workspaceHealth .. => .skip

/-- The agents and statuses that the changes come to. -/
def fold (changes : List FleetChange) : String × String → Option AgentStatus :=
  Feed.replay (fun _ => none) (changes.map effect)

/-- A stream of `watch_changes`: where it is to read on in the bus, whether it was
polled already, and what it has yielded. -/
structure Subscriber where
  position : Nat
  seeded : Bool
  received : List FleetChange

/-- One `FleetManager` over its workspaces, in the order of its snapshot. `bus`
has all that was published, each event with its workspace. -/
structure World where
  names : List String
  workspaces : String → Reconcile.World Unit
  bus : List (String × Entry)
  subscribers : Nat → Option Subscriber

/-- `giveUp` is the end of a stream's retries for an agent that is not in the
snapshot yet, or is not any more. -/
inductive Action
  | workspace (name : String) (a : Reconcile.Action Unit)
  | subscribe (id : Nat)
  | seed (id : Nat)
  | receive (id : Nat)
  | giveUp (id : Nat)

/-- The process lives on. -/
def admits : Reconcile.Action Unit → Bool
  | .restart _ => false
  | _ => true

namespace World

def roster (w : World) (name : String) : Roster := (w.workspaces name).snapshot ()

/-- The agents and statuses of the snapshot. -/
def served (w : World) (key : String × String) : Option AgentStatus :=
  if key.1 ∈ w.names then (w.roster key.1).lookup key.2 else none

/-- `find_agent`: the first of that id, whichever workspace has it. -/
def findAgent (w : World) (id : String) : Option AgentStatus :=
  w.names.findSome? fun name => (w.roster name).lookup id

def setSubscriber (w : World) (id : Nat) (s : Subscriber) : World :=
  { w with subscribers := Function.update w.subscribers id (some s) }

/-- The health of each workspace, and a `Discovered` for each of its agents. -/
def seedOf (w : World) : List FleetChange :=
  w.names.flatMap fun name =>
    .workspaceHealth name ((w.workspaces name).health ()) ::
      (w.roster name).map fun a => .discovered a.1 name a.2

/-- `event_to_change`, where it does not have to wait for the agent to appear. -/
def eventToChange (w : World) (ev : String × Entry) : Option FleetChange :=
  match ev.2.kind with
  | .agentDiscovered => (w.findAgent ev.2.agentId).map (.discovered ev.2.agentId ev.1 ·)
  | .statusChanged fromStatus toStatus =>
    some (.statusChanged ev.2.agentId ev.1 fromStatus toStatus)
  | .agentGone => some (.gone ev.2.agentId ev.1)
  | .repoHealth state => some (.workspaceHealth ev.1 state)
  | _ => none

/-- The agent of an `AgentDiscovered` is not in the snapshot. -/
def waits (w : World) (ev : String × Entry) : Bool :=
  match ev.2.kind with
  | .agentDiscovered => (w.findAgent ev.2.agentId).isNone
  | _ => false

/-- The stream's next event, as long as there is one. -/
def next (w : World) (id : Nat) : Option (Subscriber × String × Entry) :=
  (w.subscribers id).bind fun s =>
    if s.seeded then (w.bus[s.position]?).map fun ev => (s, ev) else none

def step (w : World) : Action → Option World
  | .workspace name a =>
    if name ∈ w.names ∧ admits a then
      ((w.workspaces name).step a).map fun v => { w with
        workspaces := Function.update w.workspaces name v
        -- what is appended to the log is published
        bus := w.bus ++ (v.log.drop (w.workspaces name).log.length).map fun e => (name, e) }
    else none
  | .subscribe id =>
    match w.subscribers id with
    | none => some (w.setSubscriber id ⟨w.bus.length, false, []⟩)
    | some _ => none
  | .seed id => (w.subscribers id).bind fun s =>
    if s.seeded then none else some (w.setSubscriber id ⟨s.position, true, w.seedOf⟩)
  | .receive id => (w.next id).bind fun (s, ev) =>
    if w.waits ev then none
    else some (w.setSubscriber id
      { s with
        position := s.position + 1
        received := s.received ++ (w.eventToChange ev).toList })
  | .giveUp id => (w.next id).bind fun (s, ev) =>
    if w.waits ev then some (w.setSubscriber id { s with position := s.position + 1 }) else none

end World

/-- Nothing has been registered or polled yet. -/
def World.start (names : List String) : World :=
  ⟨names, fun _ => Reconcile.World.start [] [], [], fun _ => none⟩

end Prospero.WatchChanges
