import Mathlib.Data.List.Sort
import Prospero.Event
import Prospero.Lib.KeyedLog

namespace Prospero

/-- The errors an event store hands its callers. -/
inductive CoreError
  | store (message : String)
  | seqConflict
deriving DecidableEq

def CoreError.toString : CoreError → String
  | .store message => "store error: " ++ message
  | .seqConflict => "event seq conflict"

namespace Store

/-- A failed `INSERT`: the unique index, or anything else with its text. -/
inductive SqlError
  | uniqueViolation
  | other (message : String)
deriving DecidableEq

def mapAppendError : SqlError → CoreError
  | .uniqueViolation => .seqConflict
  | .other message => .store ("append: " ++ message)

/-- `INSERT INTO events`, in a table with `UNIQUE (stream_key, seq)`. -/
def append (event : FleetEvent) (log : List FleetEvent) : Except CoreError (List FleetEvent) :=
  match KeyedLog.insert? FleetEvent.key event log with
  | some log' => .ok log'
  | none => .error (mapAppendError .uniqueViolation)

/-- `WHERE stream_key = ? AND seq >= ? ORDER BY seq` -/
def replay (log : List FleetEvent) (key : StreamKey) (fromSeq : Nat) : List FleetEvent :=
  (log.filter fun e => e.streamKey = key ∧ fromSeq ≤ e.seq).insertionSort fun a b => a.seq ≤ b.seq

/-- `COALESCE(MAX(seq), 0)` -/
def highWater (log : List FleetEvent) (key : StreamKey) : Nat :=
  ((log.filter fun e => e.streamKey = key).map FleetEvent.seq).foldl max 0

/-- What `DELETE FROM events WHERE ts < ?` leaves; timestamps compare as text. -/
def survives (beforeTs : String) (e : FleetEvent) : Bool :=
  !decide (e.ts < beforeTs)

end Store
end Prospero
