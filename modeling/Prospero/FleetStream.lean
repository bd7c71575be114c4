import Mathlib.Logic.Function.Basic
import Prospero.Lib.Decimal
import Prospero.PostgresStore

namespace Prospero.FleetStream
open PostgresStore

def fleetBatch : Nat := 256

/-- Where a stream starts; `latest` is the store's answer, if it gives one. -/
def startCursor (fromParam : Option String) (latest : Option Nat) : Nat :=
  match fromParam with
  | some "now" => latest.getD 0
  | some n => (Decimal.parse (2 ^ 64) n).getD 0
  | none => 0

/-- The body of `fleet_stream`: about to read, sending a batch, or waiting for
the bus. -/
inductive Phase
  | reading
  | sending (batch : List CursoredEvent)
  | waiting

structure Connection where
  cursor : Nat
  phase : Phase

/-- The events table, the inserts under way on any replica by the ordinal they
drew, and one consumer that reconnects from the last cursor it was issued. -/
structure World where
  ordinal : Nat
  inserts : Nat → Option FleetEvent
  rows : List EventRow
  connection : Option Connection
  received : List CursoredEvent

/-- An insert draws its ordinal when it starts; its row is seen from its commit
on. `ok` is false when the store read fails. -/
inductive Action
  | beginInsert (e : FleetEvent)
  | commit (ordinal : Nat)
  | abort (ordinal : Nat)
  | connect
  | read (ok : Bool)
  | send
  | doorbell
  | disconnect

namespace World

/-- The `from` of the consumer's next request: absent at first. -/
def resumeFrom (w : World) : Option String :=
  w.received.getLast?.map fun c => toString c.cursor

/-- The unique index lets through only one of several inserts under one key. -/
def commit (w : World) (ordinal : Nat) (e : FleetEvent) : Option World :=
  match Store.append e (w.rows.map EventRow.event) with
  | .ok _ => some { w with
      inserts := Function.update w.inserts ordinal none
      rows := w.rows ++ [⟨ordinal, e⟩] }
  | .error _ => none

/-- One `replay_fleet`; a failed one reads as an empty batch. -/
def read (w : World) (cursor : Nat) (ok : Bool) : World :=
  match if ok then replayFleet w.rows cursor fleetBatch else [] with
  | [] => { w with connection := some ⟨cursor, .waiting⟩ }
  | c :: batch => { w with connection := some ⟨cursor, .sending (c :: batch)⟩ }

def step (w : World) : Action → Option World
  | .beginInsert e =>
    let next := w.ordinal + 1
    if next < 2 ^ 63 then
      some { w with ordinal := next, inserts := Function.update w.inserts next (some e) }
    else none
  | .commit ordinal => (w.inserts ordinal).bind (w.commit ordinal)
  | .abort ordinal => some { w with inserts := Function.update w.inserts ordinal none }
  | .connect =>
    match w.connection with
    | none =>
      let cursor := startCursor w.resumeFrom (some (latestFleetCursor w.rows))
      some { w with connection := some ⟨cursor, .reading⟩ }
    | some _ => none
  | .read ok =>
    match w.connection with
    | some ⟨cursor, .reading⟩ => some (w.read cursor ok)
    | _ => none
  | .send =>
    match w.connection with
    | some ⟨_, .sending (c :: batch)⟩ => some { w with
        connection := some ⟨c.cursor, .sending batch⟩
        received := w.received ++ [c] }
    | some ⟨cursor, .sending []⟩ => some { w with connection := some ⟨cursor, .reading⟩ }
    | _ => none
  | .doorbell =>
    match w.connection with
    | some ⟨cursor, .waiting⟩ => some { w with connection := some ⟨cursor, .reading⟩ }
    | _ => none
  | .disconnect => some { w with connection := none }

end World

/-- A fresh table and a consumer that has not connected yet. -/
def World.start : World := ⟨0, fun _ => none, [], none, []⟩

end Prospero.FleetStream
