import Prospero.Lib.Paging
import Prospero.Store

namespace Prospero.McpEvents

structure EventsArgs where
  agentId : String
  fromSeq : Nat
  limit : Option Nat

def eventsDefault : Nat := 100
def eventsMax : Nat := 500

/-- How many events a call is given at most. -/
def width (limit : Option Nat) : Nat := min (limit.getD eventsDefault) eventsMax

structure Page where
  events : List FleetEvent
  truncated : Bool
  nextFrom : Option Nat

/-- `prospero_agent_events`, where the store's answer is what it is. -/
def prosperoAgentEvents (replay : StreamKey → Nat → Except CoreError (List FleetEvent))
    (args : EventsArgs) : Except String Page :=
  match replay args.agentId args.fromSeq with
  | .error e => .error ("reading history failed: " ++ e.toString)
  | .ok events => .ok {
      events := events.take (width args.limit)
      truncated := decide (width args.limit < events.length)
      nextFrom := (events.take (width args.limit)).getLast?.map (·.seq + 1) }

/-- A client that reads an agent's history page by page, while the history grows and is
pruned. The last three are history variables: what the agent's history has ever had from
the client's origin on, what was written behind the client, and what was pruned before the
client came to it. -/
structure World where
  agent : String
  origin : Nat
  log : List FleetEvent
  cursor : Nat
  told : List FleetEvent
  last : Option (Except String Page)
  ever : List FleetEvent
  late : List FleetEvent
  gone : List FleetEvent

/-- A call's read may fail. -/
inductive Action
  | call (limit : Option Nat)
  | fail (limit : Option Nat) (e : CoreError)
  | append (e : FleetEvent)
  | prune (beforeTs : String)

namespace World

/-- Where its next call begins: where the page says, if it says. -/
def take (w : World) (answer : Except String Page) : World :=
  match answer with
  | .error _ => { w with last := some answer }
  | .ok page => { w with
      last := some answer
      cursor := page.nextFrom.getD w.cursor
      told := w.told ++ page.events }

def call (w : World) (limit : Option Nat)
    (replay : StreamKey → Nat → Except CoreError (List FleetEvent)) : World :=
  w.take (prosperoAgentEvents replay ⟨w.agent, w.cursor, limit⟩)

def append (w : World) (e : FleetEvent) : World :=
  match Store.append e w.log with
  | .error _ => w
  | .ok log =>
    if e.streamKey = w.agent ∧ w.origin ≤ e.seq then
      { w with
        log := log
        ever := w.ever ++ [e]
        late := if e.seq < w.cursor then w.late ++ [e] else w.late }
    else { w with log := log }

def prune (w : World) (beforeTs : String) : World :=
  { w with
    log := w.log.filter (Store.survives beforeTs)
    gone := w.gone ++
      (Store.replay w.log w.agent w.cursor).filter fun e => !Store.survives beforeTs e }

def step (w : World) : Action → Option World
  | .call limit => some (w.call limit fun key fromSeq => .ok (Store.replay w.log key fromSeq))
  | .fail limit e => some (w.call limit fun _ _ => .error e)
  | .append e => some (w.append e)
  | .prune beforeTs => some (w.prune beforeTs)

def start (agent : String) (log : List FleetEvent) (origin : Nat) : World :=
  ⟨agent, origin, log, origin, [], none, Store.replay log agent origin, [], []⟩

end World

end Prospero.McpEvents
