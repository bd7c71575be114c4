import Mathlib.Data.List.Lex
import Mathlib.Order.Basic
import Prospero.Lib.FixedWidth

namespace Prospero

def isLeapYear (year : Nat) : Bool := year % 4 = 0 && (year % 100 ≠ 0 || year % 400 = 0)

def daysIn (year month : Nat) : Nat :=
  match month with
  | 4 | 6 | 9 | 11 => 30
  | 2 => if isLeapYear year then 29 else 28
  | _ => 31

/-- A UTC instant of the years RFC 3339 writes with four digits. -/
structure DateTime where
  year : Nat
  month : Nat
  day : Nat
  hour : Nat
  minute : Nat
  second : Nat
  nanosecond : Nat
  valid : year ≤ 9999 ∧ 1 ≤ month ∧ month ≤ 12 ∧ 1 ≤ day ∧ day ≤ daysIn year month ∧
    hour < 24 ∧ minute < 60 ∧ second < 60 ∧ nanosecond < 1000000000
deriving DecidableEq

namespace DateTime

def civil (t : DateTime) : List Nat := [t.year, t.month, t.day, t.hour, t.minute, t.second]

def fields (t : DateTime) : List Nat := t.civil ++ [t.nanosecond]

theorem fields_injective : Function.Injective fields := by
  intro t u h
  cases t
  cases u
  simpa [fields, civil] using h

instance : LinearOrder DateTime := LinearOrder.lift' fields fields_injective

def wholeSecond (t : DateTime) : DateTime :=
  { t with
    nanosecond := 0
    valid := by
      have h := t.valid
      omega }

end DateTime

/-- The columns of `YYYY-MM-DDTHH:MM:SSZ`. -/
def stampLayout : List (Nat × Char) :=
  [(4, '-'), (2, '-'), (2, 'T'), (2, ':'), (2, ':'), (2, 'Z')]

/-- Whole seconds and a literal `Z`. -/
def stamp (t : DateTime) : String := String.ofList (FixedWidth.render stampLayout t.civil)

namespace DateTime

variable {t u : DateTime}

theorem lt_iff : t < u ↔ t.fields < u.fields := Iff.rfl

theorem daysIn_le (year month : Nat) : daysIn year month ≤ 31 := by
  unfold daysIn
  split <;> try omega
  split <;> omega

theorem civil_fits (t : DateTime) : FixedWidth.Fits stampLayout t.civil := by
  have h := t.valid
  have hdays := daysIn_le t.year t.month
  simp only [FixedWidth.Fits, stampLayout, civil, List.forall₂_cons, List.forall₂_nil_right_iff,
    and_true]
  omega

theorem fields_lt : t.fields < u.fields ↔
    t.civil < u.civil ∨ t.civil = u.civil ∧ t.nanosecond < u.nanosecond := by
  rw [fields, fields, FixedWidth.append_lt_append (by simp [civil]), List.cons_lt_cons_iff]
  simp

theorem wholeSecond_lt : t.wholeSecond < u.wholeSecond ↔ t.civil < u.civil := by
  rw [lt_iff, fields_lt]
  simp only [wholeSecond, Nat.lt_irrefl, and_false, or_false]
  exact Iff.rfl

theorem wholeSecond_eq (h : t.nanosecond = 0) : t.wholeSecond = t := by
  cases t
  cases h
  rfl

end DateTime

variable {t u : DateTime}

/-- Stamps sort as the instants do, to the second. -/
theorem stamp_lt : stamp t < stamp u ↔ t.wholeSecond < u.wholeSecond := by
  rw [DateTime.wholeSecond_lt, stamp, stamp, String.lt_iff_toList_lt, String.toList_ofList,
    String.toList_ofList, FixedWidth.render_lt t.civil_fits u.civil_fits]

theorem lt_of_stamp_lt (h : stamp t < stamp u) : t < u :=
  DateTime.fields_lt.mpr (Or.inl (DateTime.wholeSecond_lt.mp (stamp_lt.mp h)))

end Prospero
