import Mathlib.Data.Int.Notation
import Prospero.RetentionAge

namespace Prospero.DeadlineArithmetic
open Prospero.RetentionAge (Reading maxUtc minUtc rfc3339 yearOf)

/-- What is used of the crate `chrono`; instants and durations are in nanoseconds. -/
structure Chrono where
  /-- `Duration::try_seconds` -/
  trySeconds : Int → Option Int
  /-- `DateTime + Duration`, which may panic. -/
  add : Int → Int → Option Int
  toRfc3339 : Int → String
  parseFromRfc3339 : String → Option Int

/-- Its documentation: a duration has at most `i64::MAX` milliseconds either way, a sum that
is no date panics, and RFC 3339 is read back, whose years have four digits. -/
structure Chrono.Documented (c : Chrono) : Prop where
  trySeconds : ∀ secs, c.trySeconds secs =
    if (secs * 1000).natAbs ≤ 2 ^ 63 - 1 then some (secs * 1000000000) else none
  add : ∀ t d, c.add t d = if minUtc ≤ t + d ∧ t + d ≤ maxUtc then some (t + d) else none
  toRfc3339 : ∀ t, minUtc ≤ t → t ≤ maxUtc → c.toRfc3339 t = rfc3339 t
  parseFromRfc3339 : ∀ t, minUtc ≤ t → t ≤ maxUtc → c.parseFromRfc3339 (rfc3339 t) =
    if 0 ≤ yearOf t ∧ yearOf t ≤ 9999 then some t else none

/-- `deadline_from`, absent where it panics. -/
def deadlineFrom (c : Chrono) (started : Int) (timeoutSecs : Option UInt64) :
    Option (Option String) :=
  match timeoutSecs with
  | none => some none
  | some secs =>
    match c.trySeconds secs.toInt64.toInt with
    | none => some none
    | some delta => (c.add started delta).map fun deadline => some (c.toRfc3339 deadline)

end Prospero.DeadlineArithmetic
