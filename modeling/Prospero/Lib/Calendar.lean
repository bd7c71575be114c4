import Mathlib.Algebra.Order.Group.Int
import Mathlib.Algebra.Order.Ring.Nat
import Mathlib.Order.ConditionallyCompleteLattice.Basic
import Mathlib.Data.Int.ConditionallyCompleteOrder

namespace Calendar

section Periods

variable {start : Int → Int} {j k m n : Int}

/-- Period `k` has `n` in it, where the periods begin at `start`. -/
def Within (start : Int → Int) (k n : Int) : Prop := start k ≤ n ∧ n < start (k + 1)

/-- The earlier period has the earlier number. -/
theorem Within.lt (hs : StrictMono start) (hm : Within start j m) (hn : Within start k n)
    (hjk : j < k) : m < n := by
  have hnext : start (j + 1) ≤ start k := hs.monotone hjk
  exact lt_of_lt_of_le hm.2 (hnext.trans hn.1)

theorem Within.lt_iff (hs : StrictMono start) (hm : Within start j m) (hn : Within start k n) :
    m < n ↔ j < k ∨ j = k ∧ m - start j < n - start k := by
  rcases lt_trichotomy j k with hjk | rfl | hkj
  · simp [hjk, hm.lt hs hn hjk]
  · simp
  · have hnm := hn.lt hs hm hkj
    omega

theorem Within.le_iff (hs : StrictMono start) (hn : Within start k n) : start j ≤ n ↔ j ≤ k := by
  constructor
  · intro h
    by_contra hkj
    have hnext : start (k + 1) ≤ start j := hs.monotone (not_le.mp hkj)
    have hlt := hn.2
    omega
  · intro h
    exact (hs.monotone h).trans hn.1

end Periods

section Lengths

/-- Which of periods of these lengths a number falls in, and how far in. -/
def locate : List Nat → Nat → Nat × Nat
  | [], n => (0, n)
  | len :: lens, n =>
    if n < len then (0, n) else ((locate lens (n - len)).1 + 1, (locate lens (n - len)).2)

variable {lens : List Nat} {m n : Nat}

theorem locate_lt (lens : List Nat) (m n : Nat) : m < n ↔ (locate lens m).1 < (locate lens n).1 ∨
    (locate lens m).1 = (locate lens n).1 ∧ (locate lens m).2 < (locate lens n).2 := by
  induction lens generalizing m n with
  | nil => simp [locate]
  | cons len lens ih =>
    have hrest := ih (m - len) (n - len)
    unfold locate
    split <;> split
    · simp
    · simp only [Nat.zero_lt_succ, true_or, iff_true]
      omega
    · simp only [Nat.not_lt_zero, false_or, Nat.succ_ne_zero, false_and, iff_false]
      omega
    · simp only [Nat.add_lt_add_iff_right, Nat.add_right_cancel_iff, ← hrest]
      omega

theorem locate_within (h : n < lens.sum) :
    ∃ len, lens[(locate lens n).1]? = some len ∧ (locate lens n).2 < len := by
  induction lens generalizing n with
  | nil => simp at h
  | cons len lens ih =>
    unfold locate
    split
    · rename_i hlt
      exact ⟨len, rfl, hlt⟩
    · rw [List.sum_cons] at h
      exact ih (n := n - len) (by omega)

theorem locate_fits (h : n < lens.sum) {b : Nat} (hb : ∀ len ∈ lens, len ≤ b) :
    (locate lens n).1 < lens.length ∧ (locate lens n).2 < b := by
  obtain ⟨len, hlen, hlt⟩ := locate_within h
  obtain ⟨hi, rfl⟩ := List.getElem?_eq_some_iff.mp hlen
  exact ⟨hi, lt_of_lt_of_le hlt (hb _ (List.getElem_mem hi))⟩

variable (lens) in
/-- The periods before it and how far in it is make up the number. -/
theorem locate_sum (h : n < lens.sum) :
    (lens.take (locate lens n).1).sum + (locate lens n).2 = n := by
  induction lens generalizing n with
  | nil => simp at h
  | cons len lens ih =>
    unfold locate
    split
    · simp
    · rw [List.sum_cons] at h
      have hrest := ih (n := n - len) (by omega)
      rw [List.take_succ_cons, List.sum_cons]
      omega

/-- A number so far into a period is found there. -/
theorem locate_take {i len a : Nat} (hlen : lens[i]? = some len) (ha : a < len) :
    locate lens ((lens.take i).sum + a) = (i, a) := by
  induction lens generalizing i with
  | nil => cases hlen
  | cons first lens ih =>
    cases i with
    | zero =>
      obtain rfl : first = len := Option.some.inj hlen
      simp [locate, ha]
    | succ i =>
      have hrest := ih (i := i) hlen
      have hpast : ¬first + (lens.take i).sum + a < first := by omega
      have hsub : first + (lens.take i).sum + a - first = (lens.take i).sum + a := by omega
      rw [List.take_succ_cons, List.sum_cons, locate, if_neg hpast, hsub, hrest]

theorem take_lt_sum {i len a : Nat} (hlen : lens[i]? = some len) (ha : a < len) :
    (lens.take i).sum + a < lens.sum := by
  obtain ⟨hi, rfl⟩ := List.getElem?_eq_some_iff.mp hlen
  have hsplit := congrArg List.sum (List.take_append_drop i lens)
  rw [List.sum_append, List.drop_eq_getElem_cons hi, List.sum_cons] at hsplit
  omega

end Lengths

section Gregorian

def isLeap (year : Int) : Bool := year % 4 = 0 && (year % 100 ≠ 0 || year % 400 = 0)

/-- The days before a year, from the first of year 0. -/
def yearStart (year : Int) : Int :=
  365 * year + (year + 3) / 4 - (year + 99) / 100 + (year + 399) / 400

theorem yearStart_succ (year : Int) :
    yearStart (year + 1) = yearStart year + if isLeap year then 366 else 365 := by
  unfold yearStart isLeap
  split
  · rename_i h
    simp only [Bool.and_eq_true, Bool.or_eq_true, decide_eq_true_eq] at h
    omega
  · rename_i h
    simp only [Bool.and_eq_true, Bool.or_eq_true, decide_eq_true_eq] at h
    omega

theorem yearStart_strictMono : StrictMono yearStart := by
  apply strictMono_int_of_lt_succ
  intro year
  rw [yearStart_succ]
  split <;> omega

/-- 400 years have 146097 days, and no year starts two days off their mean. -/
theorem yearStart_mean (year : Int) :
    146097 * year - 400 < 400 * yearStart year ∧ 400 * yearStart year < 146097 * year + 800 := by
  unfold yearStart
  omega

/-- The year of a day: a guess by the mean length of a year, put right by one. -/
def yearOf (day : Int) : Int :=
  let year := 400 * day / 146097
  if day < yearStart year then year - 1
  else if yearStart (year + 1) ≤ day then year + 1
  else year

theorem yearOf_within (day : Int) : Within yearStart (yearOf day) day := by
  unfold yearOf Within
  simp only
  generalize hguess : 400 * day / 146097 = year
  split
  · rename_i h
    have hmean := yearStart_mean (year - 1)
    rw [Int.sub_add_cancel]
    omega
  · rename_i h
    split
    · rename_i h'
      have hmean := yearStart_mean (year + 1 + 1)
      omega
    · rename_i h'
      exact ⟨not_lt.mp h, not_le.mp h'⟩

def monthLengths (year : Int) : List Nat :=
  [31, if isLeap year then 29 else 28, 31, 30, 31, 30, 31, 31, 30, 31, 30, 31]

theorem sum_monthLengths (year : Int) :
    yearStart (year + 1) = yearStart year + (monthLengths year).sum := by
  rw [yearStart_succ, monthLengths]
  split <;> rfl

/-- A day's month and day of the month, both from 1. -/
def monthDay (day : Int) : Nat × Nat :=
  let year := yearOf day
  let found := locate (monthLengths year) (day - yearStart year).toNat
  (found.1 + 1, found.2 + 1)

theorem monthDay_fits (day : Int) : (monthDay day).1 ≤ 12 ∧ (monthDay day).2 ≤ 31 := by
  have hwithin := yearOf_within day
  have hsum := sum_monthLengths (yearOf day)
  have hlens : ∀ len ∈ monthLengths (yearOf day), len ≤ 31 := by
    unfold monthLengths
    split <;> simp
  have hlt : (day - yearStart (yearOf day)).toNat < (monthLengths (yearOf day)).sum := by
    unfold Within at hwithin
    omega
  have hfits := locate_fits hlt hlens
  exact ⟨hfits.1, hfits.2⟩

/-- The day of a date. -/
def dayNumber (year : Int) (month day : Nat) : Int :=
  yearStart year + ((monthLengths year).take (month - 1)).sum + (day - 1 : Nat)

theorem dayNumber_monthDay (day : Int) :
    dayNumber (yearOf day) (monthDay day).1 (monthDay day).2 = day := by
  have hwithin := yearOf_within day
  have hsum := sum_monthLengths (yearOf day)
  unfold Within at hwithin
  have hlocate := locate_sum (monthLengths (yearOf day))
    (n := (day - yearStart (yearOf day)).toNat) (by omega)
  simp only [dayNumber, monthDay, Nat.add_sub_cancel]
  omega

/-- A month of the year and a day of that month. -/
def IsDate (year : Int) (month day : Nat) : Prop :=
  1 ≤ month ∧ 1 ≤ day ∧ ∃ len, (monthLengths year)[month - 1]? = some len ∧ day ≤ len

theorem monthDay_isDate (day : Int) :
    IsDate (yearOf day) (monthDay day).1 (monthDay day).2 := by
  have hwithin := yearOf_within day
  have hsum := sum_monthLengths (yearOf day)
  unfold Within at hwithin
  have hn : (day - yearStart (yearOf day)).toNat < (monthLengths (yearOf day)).sum := by omega
  obtain ⟨len, hlen, hlt⟩ := locate_within hn
  exact ⟨Nat.le_add_left .., Nat.le_add_left .., len, hlen, hlt⟩

variable {year year' : Int} {month month' day day' : Nat}

theorem dayNumber_within (h : IsDate year month day) :
    Within yearStart year (dayNumber year month day) := by
  obtain ⟨-, hday, len, hlen, hle⟩ := h
  have hlt := take_lt_sum hlen (a := day - 1) (by omega)
  have hsum := sum_monthLengths year
  unfold Within dayNumber
  omega

theorem locate_dayNumber (h : IsDate year month day) :
    locate (monthLengths year) (dayNumber year month day - yearStart year).toNat =
      (month - 1, day - 1) := by
  obtain ⟨-, hday, len, hlen, hle⟩ := h
  have hnumber : (dayNumber year month day - yearStart year).toNat =
      ((monthLengths year).take (month - 1)).sum + (day - 1) := by
    unfold dayNumber
    omega
  rw [hnumber]
  exact locate_take hlen (by omega)

/-- Dates are numbered in their order. -/
theorem dayNumber_lt (h : IsDate year month day) (h' : IsDate year' month' day') :
    dayNumber year month day < dayNumber year' month' day' ↔
      year < year' ∨ year = year' ∧ (month < month' ∨ month = month' ∧ day < day') := by
  have hwithin := dayNumber_within h
  have hwithin' := dayNumber_within h'
  rw [hwithin.lt_iff yearStart_strictMono hwithin']
  refine or_congr_right (and_congr_right fun hyear => ?_)
  subst hyear
  have hnat : dayNumber year month day - yearStart year <
        dayNumber year month' day' - yearStart year ↔
      (dayNumber year month day - yearStart year).toNat <
        (dayNumber year month' day' - yearStart year).toNat := by
    unfold Within at hwithin hwithin'
    omega
  have hone := h.1
  have hone' := h.2.1
  have htwo := h'.1
  have htwo' := h'.2.1
  rw [hnat, locate_lt (monthLengths year), locate_dayNumber h, locate_dayNumber h']
  omega

/-- Days come in the order of their dates. -/
theorem day_lt (m n : Int) : m < n ↔ yearOf m < yearOf n ∨ yearOf m = yearOf n ∧
    ((monthDay m).1 < (monthDay n).1 ∨
      (monthDay m).1 = (monthDay n).1 ∧ (monthDay m).2 < (monthDay n).2) := by
  have hm := yearOf_within m
  have hn := yearOf_within n
  rw [hm.lt_iff yearStart_strictMono hn]
  refine or_congr_right (and_congr_right fun hyear => ?_)
  have hlocate := locate_lt (monthLengths (yearOf n)) (m - yearStart (yearOf m)).toNat
    (n - yearStart (yearOf n)).toNat
  unfold Within at hm hn
  have hnat : m - yearStart (yearOf m) < n - yearStart (yearOf n) ↔
      (m - yearStart (yearOf m)).toNat < (n - yearStart (yearOf n)).toNat := by omega
  rw [hnat, hlocate]
  simp only [monthDay, hyear, Nat.add_lt_add_iff_right, Nat.add_right_cancel_iff]

theorem day_eq (m n : Int) : m = n ↔ yearOf m = yearOf n ∧ monthDay m = monthDay n := by
  constructor
  · intro h
    rw [h]
    exact ⟨rfl, rfl⟩
  · intro ⟨hyear, hmonth⟩
    rcases lt_trichotomy m n with hmn | hmn | hnm
    · simp [day_lt, hyear, hmonth] at hmn
    · exact hmn
    · simp [day_lt, hyear, hmonth] at hnm

end Gregorian

end Calendar
