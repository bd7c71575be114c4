import Mathlib.Logic.Function.Basic
import Prospero.AgentStream
import Prospero.Lib.Broadcast

namespace Prospero.InProcessBus
open Broadcast (Received)

/-- A subscription to one stream, or with no key to all. `joined` is a history variable:
the place among the publications where it was made. -/
structure Subscription where
  key : Option StreamKey
  joined : Nat
  pos : Nat
  yielded : List BusEvent

/-- What a turn of a subscription's loop yields; `subscribe_all` has no filter. -/
def yield? (key : Option StreamKey) : Received FleetEvent → Option BusEvent
  | .value e => if key.all (· = streamKeyFor e.repo e.agentId) then some (.event e) else none
  | .lagged n => some (.lagged n)

/-- A bus, all that has been published on it, and its subscriptions. The channel may keep
more than the capacity that was asked for. -/
structure World where
  capacity : Nat
  published : List FleetEvent
  subscriptions : Nat → Option Subscription

inductive Action
  | publish (e : FleetEvent)
  | subscribe (id : Nat) (key : Option StreamKey)
  | recv (id : Nat)
  | drop (id : Nat)

namespace World

/-- A receiver is registered when its subscription is made, not when it is polled. -/
def subscribe (w : World) (key : Option StreamKey) : Subscription :=
  ⟨key, w.published.length, w.published.length, []⟩

/-- A turn of the loop, where there is something to receive. -/
def recv (w : World) (s : Subscription) : Option Subscription :=
  (Broadcast.recv w.capacity w.published s.pos).map fun (received, pos) =>
    { s with pos := pos, yielded := s.yielded ++ (yield? s.key received).toList }

def step (w : World) : Action → Option World
  | .publish e => some { w with published := w.published ++ [e] }
  | .subscribe id key =>
    match w.subscriptions id with
    | none => some { w with
        subscriptions := Function.update w.subscriptions id (some (w.subscribe key)) }
    | some _ => none
  | .recv id =>
    ((w.subscriptions id).bind w.recv).map fun s =>
      { w with subscriptions := Function.update w.subscriptions id (some s) }
  | .drop id => some { w with subscriptions := Function.update w.subscriptions id none }

def start (capacity : Nat) : World := ⟨capacity, [], fun _ => none⟩

end World

end Prospero.InProcessBus
