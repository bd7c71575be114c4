import Prospero.Dashboard

namespace Prospero.Reconnect
open Prospero.AgentStream (Tailer)
open Prospero.Dashboard (StreamSession incoming)

/-- The body of `agent_stream`. `readAt` is a history variable: how long the log was
when the history was read. -/
inductive Server
  | subscribed (fromSeq : Nat)
  | replaying (lastDelivered : Nat) (rest : List FleetEvent) (readAt : Nat)
  | tailing (tailer : Tailer)
  | ended

/-- One connection. The bus hands its subscription `inbox`, and `wire` are the frames
that the client has yet to get. The numbers are history variables, as are the two
fields at the end: how long the log was when a frame's event was handed over or read,
what the bus has handed over so far, and how long the log was on subscribing. -/
structure Conn where
  server : Server
  inbox : List (FleetEvent × Nat)
  wire : List (Frame × Nat)
  handed : List (FleetEvent × Nat)
  since : Nat

structure World where
  log : List FleetEvent
  agent : String
  session : StreamSession
  conn : Option Conn

/-- `hand` has the bus hand over a durable event, by its place in the log. With `lag` it
has dropped some of them, and reports what it has dropped of all streams. -/
inductive Action
  | append (e : FleetEvent)
  | hand (place : Nat)
  | lag (skipped dropped : Nat)
  | connect
  | readHistory
  | yieldHistory
  | recv
  | busClosed
  | deliver
  | drop

namespace World

/-- The bus hands a connection the events of its stream in seq order, and leaves out
none that has become durable since the connection subscribed. -/
def inOrder (w : World) (conn : Conn) (e : FleetEvent) : Bool :=
  e.streamKey = w.agent &&
    (conn.handed.all fun other => other.1.seq < e.seq) &&
    (w.log.drop conn.since).all fun f =>
      f.streamKey ≠ w.agent || e.seq ≤ f.seq || conn.handed.any fun other => other.1.seq = f.seq

/-- An emitter allocates seqs from 1 on, and what it puts under the agent's stream key
bears the agent's id: no `repo:` or fleet event is on an agent stream. -/
def wellFormed (w : World) (e : FleetEvent) : Bool :=
  0 < e.seq && (e.streamKey ≠ w.agent || e.agentId = w.agent)

/-- The loop's `match` on the tailer's verdict. -/
def tail (w : World) (conn : Conn) (tailer : Tailer) (item : Option BusEvent) (taken : Nat) :
    World :=
  match tailer.onRecv (Store.replay w.log w.agent) item with
  | (tailer', .emit frames) => { w with conn := some { conn with
      server := .tailing tailer', wire := conn.wire ++ frames.map fun f => (f, taken) } }
  | (_, .emitAndClose frames) => { w with conn := some { conn with
      server := .ended, wire := conn.wire ++ frames.map fun f => (f, taken) } }
  | (tailer', .skip) => { w with conn := some { conn with server := .tailing tailer' } }
  | (_, .close) => { w with conn := some { conn with server := .ended } }

/-- The connection is gone, and the client hears of it. -/
def hangUp (w : World) : World :=
  { w with conn := none, session := w.session.apply .ended }

def step (w : World) : Action → Option World
  | .append e =>
    if w.wellFormed e then (Store.append e w.log).toOption.map fun log => { w with log := log }
    else none
  | .connect =>
    match w.conn with
    | none =>
      if w.session.shouldRetry then
        let conn := ⟨.subscribed w.session.resumeFrom, [], [], [], w.log.length⟩
        some { w with conn := some conn }
      else none
    | some _ => none
  | .hand place =>
    match w.conn, w.log[place]? with
    | some conn, some e =>
      if w.inOrder conn e then
        some { w with conn := some { conn with
          inbox := conn.inbox ++ [(e, w.log.length)]
          handed := conn.handed ++ [(e, w.log.length)] } }
      else none
    | _, _ => none
  | .readHistory =>
    match w.conn with
    | some ⟨.subscribed fromSeq, inbox, wire, handed, since⟩ =>
      let server := .replaying (fromSeq - 1) (Store.replay w.log w.agent fromSeq) w.log.length
      some { w with conn := some ⟨server, inbox, wire, handed, since⟩ }
    | _ => none
  | .yieldHistory =>
    match w.conn with
    | some ⟨.replaying _ (e :: rest) readAt, inbox, wire, handed, since⟩ =>
      let server := if e.kind.isAgentFinished then .ended else .replaying e.seq rest readAt
      some { w with conn := some ⟨server, inbox, wire ++ [(.event e, readAt)], handed, since⟩ }
    | some ⟨.replaying lastDelivered [] _, inbox, wire, handed, since⟩ =>
      let server := .tailing ⟨w.agent, lastDelivered⟩
      some { w with conn := some ⟨server, inbox, wire, handed, since⟩ }
    | _ => none
  | .recv =>
    match w.conn with
    | some ⟨.tailing tailer, (e, n) :: inbox, wire, handed, since⟩ =>
      some (w.tail ⟨.tailing tailer, inbox, wire, handed, since⟩ tailer (some (.event e)) n)
    | _ => none
  | .lag skipped dropped =>
    match w.conn with
    | some ⟨.tailing tailer, inbox, wire, handed, since⟩ =>
      if dropped ≤ skipped then
        some (w.tail ⟨.tailing tailer, inbox.drop dropped, wire, handed, since⟩ tailer
          (some (.lagged skipped)) w.log.length)
      else none
    | _ => none
  | .busClosed =>
    match w.conn with
    | some ⟨.tailing tailer, [], wire, handed, since⟩ =>
      some (w.tail ⟨.tailing tailer, [], wire, handed, since⟩ tailer none w.log.length)
    | _ => none
  | .deliver =>
    match w.conn with
    | some ⟨server, inbox, (frame, _) :: wire, handed, since⟩ =>
      some { w with
        session := w.session.apply (incoming frame true)
        conn := some ⟨server, inbox, wire, handed, since⟩ }
    | some ⟨.ended, _, [], _, _⟩ => some w.hangUp
    | _ => none
  | .drop =>
    match w.conn with
    | some _ => some w.hangUp
    | none => none

/-- Nothing is durable yet, and the client has just opened the agent's pane. -/
def start (agent : String) : World := ⟨[], agent, .new agent, none⟩

end World

end Prospero.Reconnect
