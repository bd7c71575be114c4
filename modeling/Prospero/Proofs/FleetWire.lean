import Prospero.Proofs.FleetStream
import Prospero.Proofs.Sse

namespace Prospero.Proofs.FleetWire
open Prospero.Sse Proofs.Sse
open EventStream (Field Item)
open Prospero.FleetStream (startCursor)
open PostgresStore (CursoredEvent)

variable {ν : Type} {serde : SerdeJson ν}

/-- The event of the fleet stream that a consumer has been told of, with the cursor that is
its id. -/
def cursored (serde : SerdeJson ν) (e : EventStream.Event) : Option CursoredEvent :=
  match Decimal.parse (2 ^ 64) (String.ofList e.id), serde.eventFromStr (String.ofList e.data) with
  | some cursor, .ok event => some ⟨cursor, event⟩
  | _, _ => none

section Resume

variable (hs : serde.Documented)
include hs

variable {decode : List UInt8 → List Char} (hd : ∀ s : String, decode (Lines.encode s) = s.toList)
include hd

end Resume

end Prospero.Proofs.FleetWire
