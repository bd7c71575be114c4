import Mathlib.Algebra.Group.Int.Defs
import Mathlib.Algebra.Group.Nat.Defs
import Mathlib.Tactic.Common

namespace Words

/-- `as i64` -/
theorem toInt64_toInt (n : UInt64) : n.toInt64.toInt =
    if n.toNat < 2 ^ 63 then (n.toNat : Int) else n.toNat - 2 ^ 64 := by
  rw [Int64.toInt, UInt64.toBitVec_toInt64, BitVec.toInt_eq_toNat_cond, UInt64.toNat_toBitVec]
  split <;> split <;> first | rfl | omega

/-- `LIMIT`, which a negative number takes off. -/
def limit {α : Type*} (n : Int64) (xs : List α) : List α :=
  if n.toInt < 0 then xs else xs.take n.toInt.toNat

/-- A limit that turns negative in the cast is more than any list has. -/
theorem limit_cast {α : Type*} {xs : List α} (h : xs.length < 2 ^ 63) (n : UInt64) :
    limit n.toInt64 xs = xs.take n.toNat := by
  have hcast := toInt64_toInt n
  have hlt := n.toNat_lt
  unfold limit
  by_cases hn : n.toNat < 2 ^ 63
  · rw [if_pos hn] at hcast
    rw [hcast, if_neg (by omega), Int.toNat_natCast]
  · rw [if_neg hn] at hcast
    rw [hcast, if_pos (by omega), List.take_of_length_le (by omega)]

end Words
