import Mathlib.Tactic.Common

namespace Decimal

/-- The standard library's reading of an unsigned integer below `bound`: an
optional plus sign and at least one digit. -/
def parse (bound : Nat) (s : String) : Option Nat :=
  let digits := match s.toList with
    | '+' :: cs => cs
    | cs => cs
  if digits ≠ [] ∧ digits.all Char.isDigit then
    let n := Nat.ofDigitChars 10 digits 0
    if n < bound then some n else none
  else none

theorem toString_toList (n : Nat) : (toString n).toList = Nat.toDigits 10 n := by
  simp [Nat.toString_eq_repr, Nat.repr]

theorem isDigit_of_mem {n : Nat} {c : Char} (h : c ∈ (toString n).toList) : c.isDigit = true := by
  rw [toString_toList] at h
  exact Nat.isDigit_of_mem_toDigits (by omega) (by omega) h

theorem not_mem_toString {c : Char} (hc : c.isDigit = false) (n : Nat) :
    c ∉ (toString n).toList := by
  intro h
  rw [isDigit_of_mem h] at hc
  cases hc

/-- Digits are read as the number they spell. -/
theorem parse_digits {bound : Nat} {cs : List Char} (hne : cs ≠ [])
    (hall : ∀ c ∈ cs, c.isDigit = true) (hlt : Nat.ofDigitChars 10 cs 0 < bound) :
    parse bound (String.ofList cs) = some (Nat.ofDigitChars 10 cs 0) := by
  have hall' : cs.all Char.isDigit = true := List.all_eq_true.mpr hall
  unfold parse
  rw [String.toList_ofList]
  split
  · have hplus : ('+' : Char).isDigit = true := hall '+' (List.mem_cons_self ..)
    exact absurd hplus (by decide)
  · simp only [hne, hall', hlt, ne_eq, not_false_eq_true, and_self, ↓reduceIte]

theorem parse_toString {bound n : Nat} (h : n < bound) : parse bound (toString n) = some n := by
  have hne : (toString n).toList ≠ [] := by
    rw [toString_toList]
    exact Nat.toDigits_ne_nil
  have hval : Nat.ofDigitChars 10 (toString n).toList 0 = n := by
    rw [toString_toList]
    exact Nat.ofDigitChars_ten_toDigits
  have hparse := parse_digits hne (fun c hc => isDigit_of_mem hc) (hval.symm ▸ h)
  rwa [String.ofList_toList, hval] at hparse

theorem toString_negSucc (m : Nat) :
    (toString (Int.negSucc m)).toList = '-' :: (toString (m + 1)).toList := by
  change ("-" ++ (m + 1).repr).toList = '-' :: (toString (m + 1)).toList
  rw [String.toList_append]
  rfl

theorem not_mem_intToString {c : Char} (hdigit : c.isDigit = false) (hminus : c ≠ '-') (x : Int) :
    c ∉ (toString x).toList := by
  cases x with
  | ofNat m => exact not_mem_toString hdigit m
  | negSucc m =>
    rw [toString_negSucc]
    exact List.not_mem_cons_of_ne_of_not_mem hminus (not_mem_toString hdigit (m + 1))

theorem toString_injective {m m' : Nat} (h : toString m = toString m') : m = m' := by
  have hm : parse (m + m' + 1) (toString m) = some m := parse_toString (by omega)
  have hm' : parse (m + m' + 1) (toString m') = some m' := parse_toString (by omega)
  rw [h] at hm
  exact Option.some.inj (hm.symm.trans hm')

theorem intToString_injective {x x' : Int} (h : (toString x).toList = (toString x').toList) :
    x = x' := by
  have hdash : ∀ m : Nat, '-' ∉ (toString (Int.ofNat m)).toList := not_mem_toString (by decide)
  have hneg : ∀ m : Nat, '-' ∈ (toString (Int.negSucc m)).toList := by
    intro m
    rw [toString_negSucc]
    exact List.mem_cons_self ..
  cases x with
  | ofNat m =>
    cases x' with
    | ofNat m' => exact congrArg Int.ofNat (toString_injective (String.toList_inj.mp h))
    | negSucc m' => exact absurd (h ▸ hneg m') (hdash m)
  | negSucc m =>
    cases x' with
    | ofNat m' => exact absurd (h ▸ hneg m) (hdash m')
    | negSucc m' =>
      rw [toString_negSucc, toString_negSucc] at h
      have hsucc := toString_injective (String.toList_inj.mp (List.cons.inj h).2)
      rw [Nat.succ.inj hsucc]

end Decimal
