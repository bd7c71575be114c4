import Prospero.Reconnect
import Prospero.Sse

namespace Prospero.ReconnectWire
open EventStream (Field Item)
open Sse (SerdeJson Laid frameToEvent heard)

instance (e : Sse.Event) (fields : List Field) : Decidable (Laid e fields) :=
  inferInstanceAs (Decidable (_ = _))

/-- A connection's bytes. Of the connection in `core` the wire holds the frames that the body
has yielded and axum has not yet written. Of what was written, `got` bytes have come; `written`
is a history variable, the frames in it. -/
structure World where
  core : Reconnect.World
  written : List (Frame × Nat)
  sent : List UInt8
  got : Nat

/-- `core` is a step of the log, the bus or the body. With `write` axum lays out the next frame;
with `arrive` some more bytes come; `close` is the end of a body that has come to its end. -/
inductive Action
  | core (a : Reconnect.Action)
  | write (fields : List Field)
  | keepAlive (text : List Char)
  | arrive (n : Nat)
  | close
  | drop

namespace World

variable {ν : Type} (serde : SerdeJson ν) (decode : List UInt8 → List Char)

/-- What `follow` has been called with on this connection. -/
def calls (w : World) : List Dashboard.Incoming := heard serde decode (w.sent.take w.got)

/-- The further calls that some more bytes give rise to. -/
def newCalls (w : World) (n : Nat) : List Dashboard.Incoming :=
  (heard serde decode (w.sent.take (w.got + n))).drop (w.calls serde decode).length

def arrive (w : World) (n : Nat) : World :=
  { w with
    core := { w.core with
      session := (w.newCalls serde decode n).foldl Dashboard.StreamSession.apply w.core.session }
    got := w.got + n }

def step (w : World) : Action → Option World
  | .core .deliver | .core .drop => none
  | .core .connect => (w.core.step .connect).map fun core => ⟨core, [], [], 0⟩
  | .core a => (w.core.step a).map fun core => { w with core := core }
  | .write fields =>
    match w.core.conn with
    | some ⟨server, inbox, frame :: wire, handed, since⟩ =>
      if Laid (frameToEvent serde frame.1) fields then
        some { w with
          core := { w.core with conn := some ⟨server, inbox, wire, handed, since⟩ }
          written := w.written ++ [frame]
          sent := w.sent ++ (Item.block fields).bytes }
      else none
    | _ => none
  | .keepAlive text =>
    if w.core.conn.isSome ∧ '\n' ∉ text ∧ '\r' ∉ text then
      some { w with sent := w.sent ++ (Item.comment text).bytes }
    else none
  | .arrive n =>
    if w.core.conn.isSome ∧ w.got + n ≤ w.sent.length then some (w.arrive serde decode n)
    else none
  | .close =>
    match w.core.conn with
    | some ⟨.ended, _, [], _, _⟩ => 
      if w.got = w.sent.length then some { w with core := w.core.hangUp } else none
    | _ => none
  | .drop => if w.core.conn.isSome then some { w with core := w.core.hangUp } else none

def start (agent : String) : World := ⟨.start agent, [], [], 0⟩

end World

end Prospero.ReconnectWire
