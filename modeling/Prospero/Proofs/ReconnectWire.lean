import Prospero.Lib.Machine
import Prospero.Proofs.Sse
import Prospero.ReconnectWire

namespace Prospero.Proofs.ReconnectWire
open Prospero.ReconnectWire Prospero.Sse Proofs.Sse
open EventStream (Field Item)
open Prospero.Dashboard (StreamSession)

section Frames

/-- A world as it is with some frames on the wire ahead of those that are there. -/
def ahead (front : List (Frame × Nat)) (core : Reconnect.World) : Reconnect.World :=
  { core with conn := core.conn.map fun c => { c with wire := front ++ c.wire } }

variable {core core' : Reconnect.World} {front : List (Frame × Nat)}

end Frames

section Bytes

variable {ν : Type} {serde : SerdeJson ν} {decode : List UInt8 → List Char}

variable {frames : List Frame} {items : List Item}

variable (hs : serde.Documented) (hd : ∀ s : String, decode (Lines.encode s) = s.toList)
include hs hd

end Bytes

section Refinement

variable {ν : Type} (serde : SerdeJson ν) (decode : List UInt8 → List Char)

/-- The connection's bytes are the frames that were written, and `serde_json` wrote each. -/
structure Sound (w : World) : Prop where
  laid : ∃ items, Wire (frameToEvent serde) (w.written.map Prod.fst) items ∧
    w.sent = items.flatMap Item.bytes
  texts : ∀ f ∈ w.written.map Prod.fst, ∃ text, serde.toString f = .ok text
  got : w.got ≤ w.sent.length

/-- The frame that comes next can be written. -/
def Writes (w : World) : Action → Prop
  | .write _ => ∀ conn, w.core.conn = some conn → ∀ f ∈ conn.wire.head?,
      ∃ text, serde.toString f.1 = .ok text
  | _ => True

/-- The frames that were written and have not come. -/
def unheard (w : World) : List (Frame × Nat) :=
  w.written.drop (w.calls serde decode).length

variable {serde decode} {w w' : World}
variable (hs : serde.Documented) (hd : ∀ s : String, decode (Lines.encode s) = s.toList)
include hs hd

end Refinement

section Sample

def spawnedFields : List Field := [⟨"data".toList, spawnedText.toList, true⟩]

def yielded : World where
  core := ⟨[spawned], "a1", .new "a1", some ⟨.replaying 1 [] 1, [], [(.event spawned, 1)], [], 1⟩⟩
  written := []
  sent := []
  got := 0

def kept : World := { yielded with sent := [] ++ (Item.comment []).bytes }

def sent : World :=
  { kept with
    core := { kept.core with conn := some ⟨.replaying 1 [] 1, [], [], [], 1⟩ }
    written := [(.event spawned, 1)]
    sent := kept.sent ++ (Item.block spawnedFields).bytes }

end Sample

end Prospero.Proofs.ReconnectWire
