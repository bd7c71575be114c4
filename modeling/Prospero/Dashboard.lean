import Prospero.AgentStream

namespace Prospero.Dashboard
open Prospero.AgentStream (Tailer)

inductive StreamState
  | connecting
  | live
  | reconnecting (attempt : Nat)
  | closed
deriving DecidableEq

inductive Entry
  | event (e : FleetEvent)
  | gap (skipped : Nat)
  | undecodable (why : String)

structure StreamSession where
  agentId : String
  entries : List Entry
  lastSeq : Option Nat
  state : StreamState
  attempt : Nat

inductive Incoming
  | event (e : FleetEvent)
  | gap (skipped lastSeq : Nat)
  | unparseable (why : String)
  | ended

namespace StreamSession

def new (agentId : String) : StreamSession := ⟨agentId, [], none, .connecting, 0⟩

/-- One past the last sequence rendered: the server's `from` is inclusive. -/
def resumeFrom (s : StreamSession) : Nat :=
  match s.lastSeq with
  | none => 0
  | some last => last + 1

/-- Anything already rendered is ignored. -/
def push (s : StreamSession) (e : FleetEvent) : StreamSession :=
  if s.lastSeq.any (e.seq ≤ ·) then s
  else { s with
    entries := s.entries ++ [.event e]
    lastSeq := some e.seq
    state := if e.kind.isAgentFinished then .closed else .live
    attempt := 0 }

/-- `last_seq` stays: the events after the gap still arrive. -/
def pushGap (s : StreamSession) (skipped : Nat) : StreamSession :=
  if skipped = 0 then s else { s with entries := s.entries ++ [.gap skipped] }

def pushUndecodable (s : StreamSession) (why : String) : StreamSession :=
  { s with entries := s.entries ++ [.undecodable why] }

/-- A stream that has reached its terminal event is finished, not broken. -/
def disconnected (s : StreamSession) : StreamSession :=
  if s.state = .closed then s
  else
    let attempt := min (s.attempt + 1) (2 ^ 32 - 1)
    { s with attempt := attempt, state := .reconnecting attempt }

def shouldRetry (s : StreamSession) : Bool := s.state ≠ .closed

def apply (s : StreamSession) : Incoming → StreamSession
  | .event e => s.push e
  | .gap skipped _ => s.pushGap skipped
  | .unparseable why => s.pushUndecodable why
  | .ended => s.disconnected

end StreamSession

/-- The server's side of one connection: the body of `agent_stream`. What the tailer
has made of one message goes out frame by frame, and with `none` it is the last. -/
inductive Conn
  | replaying (lastDelivered : Nat) (rest : List FleetEvent)
  | tailing (tailer : Tailer)
  | sending (frames : List Frame) (next : Option Tailer)

/-- What the bus hands a subscription: a durable event, by its place in the log, the
count of those it has dropped, or its end. -/
inductive Message
  | durable (i : Nat)
  | lagged (skipped : Nat)
  | ended

/-- One client of `agent` over the durable log. The last two are history variables: whether
the agent has ever been recorded as finished, and what has been recorded for it since it
was last restarted after that. -/
structure World where
  log : List FleetEvent
  agent : String
  session : StreamSession
  conn : Option Conn
  finished : Bool
  latest : Option (List FleetEvent)

/-- The first three are the surroundings: the log grows and is pruned, and
`restart_agent` applies the agent anew under its key. `readOk` is whether the store's read succeeds,
`decoded` whether the client can read the frame. -/
inductive Action
  | append (e : FleetEvent)
  | prune (beforeTs : String)
  | restart
  | connect (readOk : Bool)
  | yieldHistory (decoded : Bool)
  | recv (message : Message) (readOk : Bool)
  | send (decoded : Bool)
  | drop

/-- What a frame is to the client. -/
def incoming (frame : Frame) (decoded : Bool) : Incoming :=
  match decoded, frame with
  | false, _ => .unparseable "event"
  | true, .event e => .event e
  | true, .gap skipped lastSeq => .gap skipped lastSeq

namespace World

/-- The history variables' share of an append. -/
def record (w : World) (e : FleetEvent) : World :=
  if e.streamKey = w.agent then
    { w with
      finished := w.finished || e.kind.isAgentFinished
      latest := w.latest.map (· ++ [e]) }
  else w

/-- The connection has ended, and the client hears of it. -/
def hangUp (w : World) : World :=
  { w with conn := none, session := w.session.apply .ended }

def read (w : World) (readOk : Bool) (fromSeq : Nat) : List FleetEvent :=
  if readOk then Store.replay w.log w.agent fromSeq else []

/-- What the stream's subscription makes of a message. -/
def item (w : World) : Message → Option (Option BusEvent)
  | .durable i =>
    match w.log[i]? with
    | some e => if e.streamKey = w.agent then some (some (.event e)) else none
    | none => none
  | .lagged skipped => some (some (.lagged skipped))
  | .ended => some none

def recv (w : World) (tailer : Tailer) (item : Option BusEvent) (readOk : Bool) : World :=
  match tailer.onRecv (w.read readOk) item with
  | (tailer', .emit frames) => { w with conn := some (.sending frames (some tailer')) }
  | (_, .emitAndClose frames) => { w with conn := some (.sending frames none) }
  | (tailer', .skip) => { w with conn := some (.tailing tailer') }
  | (_, .close) => w.hangUp

def step (w : World) : Action → Option World
  | .append e => (Store.append e w.log).toOption.map fun log => { w.record e with log := log }
  | .prune beforeTs => some { w with log := w.log.filter (Store.survives beforeTs) }
  | .restart => some { w with latest := if w.finished then some [] else none }
  | .connect readOk =>
    match w.conn with
    | none =>
      if w.session.shouldRetry then
        let fromSeq := w.session.resumeFrom
        some { w with conn := some (.replaying (fromSeq - 1) (w.read readOk fromSeq)) }
      else none
    | some _ => none
  | .yieldHistory decoded =>
    match w.conn with
    | some (.replaying _ (e :: rest)) =>
      let session := w.session.apply (incoming (.event e) decoded)
      if e.kind.isAgentFinished then some { w with session := session }.hangUp
      else some { w with session := session, conn := some (.replaying e.seq rest) }
    | some (.replaying lastDelivered []) =>
      some { w with conn := some (.tailing ⟨w.agent, lastDelivered⟩) }
    | _ => none
  | .recv message readOk =>
    match w.conn with
    | some (.tailing tailer) => (w.item message).map fun item => w.recv tailer item readOk
    | _ => none
  | .send decoded =>
    match w.conn with
    | some (.sending (frame :: frames) next) =>
      some { w with
        session := w.session.apply (incoming frame decoded)
        conn := some (.sending frames next) }
    | some (.sending [] (some tailer)) => some { w with conn := some (.tailing tailer) }
    | some (.sending [] none) => some w.hangUp
    | _ => none
  | .drop =>
    match w.conn with
    | some _ => some w.hangUp
    | none => none

end World

def World.start (log : List FleetEvent) (agent : String) : World where
  log := log
  agent := agent
  session := .new agent
  conn := none
  finished := log.any fun e => e.streamKey = agent && e.kind.isAgentFinished
  latest := none

end Prospero.Dashboard
