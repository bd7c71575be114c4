import Mathlib.Algebra.Group.Int.Defs
import Prospero.Store

namespace Prospero.PostgresStore

/-- The bit pattern of a `u64` read as an `i64`. -/
def asI64 (n : Nat) : Int :=
  if n % 2 ^ 64 < 2 ^ 63 then (n % 2 ^ 64 : Nat) else (n % 2 ^ 64 : Nat) - 2 ^ 64

/-- A committed row of `events`; `global_ordinal` is its `BIGSERIAL` key. -/
structure EventRow where
  globalOrdinal : Nat
  event : FleetEvent

structure CursoredEvent where
  cursor : Nat
  event : FleetEvent

def EventRow.cursored (r : EventRow) : CursoredEvent := ⟨r.globalOrdinal, r.event⟩

/-- `WHERE global_ordinal > $1 ORDER BY global_ordinal LIMIT $2` -/
def replayFleet (rows : List EventRow) (afterCursor limit : Nat) : List CursoredEvent :=
  (((rows.filter fun r => asI64 afterCursor < r.globalOrdinal).insertionSort
    fun a b => a.globalOrdinal ≤ b.globalOrdinal).take limit).map EventRow.cursored

/-- `COALESCE(MAX(global_ordinal), 0)` -/
def latestFleetCursor (rows : List EventRow) : Nat :=
  (rows.map EventRow.globalOrdinal).foldl max 0

end Prospero.PostgresStore
