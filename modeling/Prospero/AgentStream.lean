import Prospero.Emitter

namespace Prospero

/-- `lagged` reports events dropped for a slow local subscriber. -/
inductive BusEvent
  | event (e : FleetEvent)
  | lagged (skipped : Nat)

/-- One unit the stream forwards to its client. -/
inductive Frame
  | event (e : FleetEvent)
  | gap (skipped lastSeq : Nat)

def Frame.event? : Frame → Option FleetEvent
  | .event e => some e
  | .gap .. => none

namespace AgentStream

/-- What the `Tailer` makes of one broadcast message. -/
inductive Step
  | emit (frames : List Frame)
  | emitAndClose (frames : List Frame)
  | skip
  | close

structure Tailer where
  agentId : String
  lastDelivered : Nat

namespace Tailer

/-- The self-heal loop: replayed events above the mark, up to a terminal one. -/
def heal : Nat → List FleetEvent → Nat × List Frame × Bool
  | last, [] => (last, [], false)
  | last, e :: es =>
    if e.seq ≤ last then heal last es
    else if e.kind.isAgentFinished then (e.seq, [.event e], true)
    else
      let (last', frames, terminal) := heal e.seq es
      (last', .event e :: frames, terminal)

/-- `history` is the store's replay from a seq, empty when the read fails. -/
def onRecv (t : Tailer) (history : Nat → List FleetEvent) : Option BusEvent → Tailer × Step
  | some (.event e) =>
    if e.agentId = t.agentId ∧ t.lastDelivered < e.seq then
      ({ t with lastDelivered := e.seq },
        if e.kind.isAgentFinished then .emitAndClose [.event e] else .emit [.event e])
    else (t, .skip)
  | some (.lagged skipped) =>
    let (last, frames, terminal) := heal t.lastDelivered (history (t.lastDelivered + 1))
    let frames := .gap skipped t.lastDelivered :: frames
    ({ t with lastDelivered := last }, if terminal then .emitAndClose frames else .emit frames)
  | none => (t, .close)

end Tailer

/-- The body of `agent_stream`. `pos` is the receiver's place on the bus. -/
inductive Client
  | connecting
  | subscribed (pos : Nat)
  | replaying (pos lastDelivered : Nat) (rest : List FleetEvent)
  | tailing (pos : Nat) (tailer : Tailer)
  | closed

/-- One process with its in-process bus, whose messages are the publications in
order, and one client of `agent`. `joined` and `history` are history variables:
the place on the bus where the client subscribed, and what its replay read. -/
structure World where
  emitter : Emitter.World Unit
  agent : String
  fromSeq : Nat
  client : Client
  forwarded : List Frame
  joined : Nat
  history : List FleetEvent

inductive Action
  | emitter (a : Emitter.Action Unit)
  | subscribe
  | replay
  | yieldHistory
  | recv

namespace World

/-- The store's reads and appends succeed. Events under the agent's stream key
bear its id: no `repo:` or fleet event is on an agent stream. -/
def admits (w : World) : Emitter.Action Unit → Bool
  | .emit _ _ draft => draft.streamKey ≠ w.agent ∨ draft.agentId = w.agent
  | .highWater _ ok => ok
  | .append id .ran =>
    match w.emitter.writes id with
    | some x => (Store.append x.event w.emitter.events).toOption.isSome
    | none => false
  | .append _ (.failed ..) => false
  | _ => true

/-- The loop's `match` on the tailer's verdict. -/
def tail (w : World) (pos : Nat) (tailer : Tailer) (item : Option BusEvent) : World :=
  match tailer.onRecv (Store.replay w.emitter.events w.agent) item with
  | (tailer', .emit frames) =>
    { w with client := .tailing pos tailer', forwarded := w.forwarded ++ frames }
  | (_, .emitAndClose frames) => { w with client := .closed, forwarded := w.forwarded ++ frames }
  | (tailer', .skip) => { w with client := .tailing pos tailer' }
  | (_, .close) => { w with client := .closed }

def step (w : World) : Action → Option World
  | .emitter a =>
    if w.admits a then (w.emitter.step a).map fun e => { w with emitter := e } else none
  | .subscribe =>
    match w.client with
    | .connecting =>
      let pos := w.emitter.published.length
      some { w with client := .subscribed pos, joined := pos }
    | _ => none
  | .replay =>
    match w.client with
    | .subscribed pos =>
      let history := Store.replay w.emitter.events w.agent w.fromSeq
      some { w with client := .replaying pos (w.fromSeq - 1) history, history := history }
    | _ => none
  | .yieldHistory =>
    match w.client with
    | .replaying pos _ (e :: rest) =>
      let client := if e.kind.isAgentFinished then .closed else .replaying pos e.seq rest
      some { w with client := client, forwarded := w.forwarded ++ [.event e] }
    | .replaying pos lastDelivered [] =>
      some { w with client := .tailing pos ⟨w.agent, lastDelivered⟩ }
    | _ => none
  | .recv =>
    match w.client with
    | .tailing pos tailer =>
      match w.emitter.published[pos]? with
      | some p =>
        -- the subscription passes over other streams' events
        if p.event.streamKey = w.agent then some (w.tail (pos + 1) tailer (some (.event p.event)))
        else some { w with client := .tailing (pos + 1) tailer }
      | none => none
    | _ => none

end World

def World.start (log : List FleetEvent) (agent : String) (fromSeq : Nat) : World :=
  ⟨Emitter.World.start log, agent, fromSeq, .connecting, [], 0, []⟩

end AgentStream
end Prospero
