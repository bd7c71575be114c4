import Prospero.DeadlineArithmetic
import Prospero.Lib.Words
import Prospero.Proofs.RetentionAge

namespace Prospero.Proofs.DeadlineArithmetic
open Prospero.DeadlineArithmetic
open Prospero.RetentionAge (Reading columns dayOf fraction layout maxUtc minUtc nanoOfDay
  nanosPerDay nanosecondOf rfc3339 secondOf yearOf)

/-- When a timeout from a start is up. -/
def expiry (started : Int) (secs : UInt64) : Int := started + secs.toNat * 1000000000

/-- The deadline of a spawn: no panic, a text that reads back as the start and the timeout,
and none at all where their sum is no date. -/
def Safe (c : Chrono) (started : Reading) (timeoutSecs : Option UInt64) : Prop :=
  ∃ deadline, deadlineFrom c started.instant timeoutSecs = some deadline ∧
    (∀ text, deadline = some text → ∃ secs, timeoutSecs = some secs ∧
      c.parseFromRfc3339 text = some (expiry started.instant secs)) ∧
    ∀ secs, timeoutSecs = some secs → maxUtc < expiry started.instant secs → deadline = none

/-- The timeout is up before the year 10000, or it is so long either way round the signed
integers that it is no duration. -/
def Bounded (started : Reading) : Option UInt64 → Prop
  | none => True
  | some secs => yearOf (expiry started.instant secs) ≤ 9999 ∨
    9223372036854775 < secs.toNat ∧ secs.toNat < 2 ^ 64 - 9223372036854775

variable {c : Chrono} {started : Reading} {secs : UInt64}

theorem maxUtc_eq : maxUtc = 8210266876799999999999 := by decide

theorem minUtc_le_zero : minUtc ≤ 0 := by decide

/-- What no date reaches is after the year 9999. -/
theorem beyond_year {t : Int} (h : maxUtc < t) : ¬yearOf t ≤ 9999 := by
  have hyear := (RetentionAge.year_le_iff 10000 t).mpr
  have hstart : (Calendar.yearStart 10000 - 719528) * nanosPerDay ≤ maxUtc := by
    decide
  have h10000 := hyear (hstart.trans h.le)
  omega

variable (started secs) in
/-- A timeout that is a duration is added to the start. -/
theorem deadlineFrom_some (hc : c.Documented)
    (hsecs : (secs.toInt64.toInt * 1000).natAbs ≤ 2 ^ 63 - 1) :
    deadlineFrom c started.instant (some secs) =
      if minUtc ≤ started.instant + secs.toInt64.toInt * 1000000000 ∧
          started.instant + secs.toInt64.toInt * 1000000000 ≤ maxUtc then
        some (some (rfc3339 (started.instant + secs.toInt64.toInt * 1000000000)))
      else none := by
  simp only [deadlineFrom, hc.trySeconds, if_pos hsecs, hc.add]
  split
  · rename_i hrange
    rw [Option.map_some, hc.toRfc3339 _ hrange.1 hrange.2]
  · rfl

/-- The deadline is the sum, where the sum is a date; then all hangs on its year. -/
theorem safe_of_duration (hc : c.Documented) (hsecs : secs.toNat ≤ 9223372036854775) :
    Safe c started (some secs) ↔ yearOf (expiry started.instant secs) ≤ 9999 := by
  have hsmall : secs.toNat < 2 ^ 63 := by omega
  have hvalue : secs.toInt64.toInt = secs.toNat := by rw [Words.toInt64_toInt, if_pos hsmall]
  have hdeadline := deadlineFrom_some started secs hc (by omega)
  have hstart := started.valid
  have hmin := minUtc_le_zero
  rw [hvalue] at hdeadline
  by_cases hmax : expiry started.instant secs ≤ maxUtc
  · have hlow : minUtc ≤ expiry started.instant secs := by
      unfold expiry
      omega
    have hyear : 0 ≤ yearOf (expiry started.instant secs) := by
      have hclock := RetentionAge.year_clock (t := expiry started.instant secs)
        (by unfold expiry; omega)
      omega
    rw [if_pos ⟨hlow, hmax⟩] at hdeadline
    have hread := hc.parseFromRfc3339 _ hlow hmax
    constructor
    · intro h
      obtain ⟨deadline, hresult, hparse, -⟩ := h
      obtain rfl := Option.some.inj (hdeadline.symm.trans hresult)
      obtain ⟨secs', hsame, hback⟩ := hparse _ rfl
      obtain rfl := Option.some.inj hsame
      rw [show started.instant + (secs.toNat : Int) * 1000000000 =
        expiry started.instant secs from rfl, hread] at hback
      split at hback
      · rename_i hfour
        exact hfour.2
      · cases hback
    · intro h
      refine ⟨_, hdeadline, ?_, ?_⟩
      · intro text htext
        obtain rfl := Option.some.inj htext
        exact ⟨secs, rfl, hread.trans (if_pos ⟨hyear, h⟩)⟩
      · intro secs' hsame hbeyond
        obtain rfl := Option.some.inj hsame
        exact absurd hmax (not_le.mpr hbeyond)
  · rw [if_neg fun h => hmax h.2] at hdeadline
    refine iff_of_false ?_ (beyond_year (not_le.mp hmax))
    intro h
    obtain ⟨deadline, hresult, -⟩ := h
    rw [hdeadline] at hresult
    cases hresult

variable (secs) in
/-- A timeout that has turned negative has its deadline before the start, or panics. -/
theorem not_safe_of_negative (hc : c.Documented) (hsecs : 2 ^ 64 - 9223372036854775 ≤ secs.toNat) :
    ¬Safe c started (some secs) := by
  have hlarge : ¬secs.toNat < 2 ^ 63 := by omega
  have hlt := secs.toNat_lt
  have hvalue : secs.toInt64.toInt = secs.toNat - 2 ^ 64 := by
    rw [Words.toInt64_toInt, if_neg hlarge]
  have hdeadline := deadlineFrom_some started secs hc (by omega)
  intro h
  obtain ⟨deadline, hresult, hparse, -⟩ := h
  rw [hdeadline] at hresult
  split at hresult
  · rename_i hrange
    obtain rfl := Option.some.inj hresult
    obtain ⟨secs', hsame, hback⟩ := hparse _ rfl
    obtain rfl := Option.some.inj hsame
    rw [hc.parseFromRfc3339 _ hrange.1 hrange.2] at hback
    split at hback
    · have heq := Option.some.inj hback
      unfold expiry at heq
      omega
    · cases hback
  · cases hresult

/-- A deadline is safe exactly where the timeout is up in a year that RFC 3339 has, or is
no duration and no date. -/
theorem deadline_safe_iff (c : Chrono) (hc : c.Documented) (started : Reading)
    (timeoutSecs : Option UInt64) :
    Safe c started timeoutSecs ↔ Bounded started timeoutSecs := by
  cases timeoutSecs with
  | none => exact iff_of_true ⟨none, rfl, nofun, nofun⟩ trivial
  | some secs =>
    have hstart := started.valid.1
    have hmax := maxUtc_eq
    rcases le_or_gt secs.toNat 9223372036854775 with hsmall | hlarge
    · rw [safe_of_duration hc hsmall, Bounded]
      exact (or_iff_left fun h => absurd h.1 (not_lt.mpr hsmall)).symm
    · have hbeyond : maxUtc < expiry started.instant secs := by
        unfold expiry
        omega
      have hyear := beyond_year hbeyond
      rcases lt_or_ge secs.toNat (2 ^ 64 - 9223372036854775) with hnone | hnegative
      · refine iff_of_true ⟨none, ?_, nofun, fun _ _ _ => rfl⟩ (Or.inr ⟨hlarge, hnone⟩)
        have hno : ¬(secs.toInt64.toInt * 1000).natAbs ≤ 2 ^ 63 - 1 := by
          rw [Words.toInt64_toInt]
          split <;> omega
        simp only [deadlineFrom, hc.trySeconds, if_neg hno]
      · refine iff_of_false (not_safe_of_negative secs hc hnegative) ?_
        intro h
        rcases h with hfour | ⟨-, hlt⟩
        · exact hyear hfour
        · exact absurd hnegative (not_le.mpr hlt)

section Read

def dateLayout : List (Nat × Char) := (4, '-') :: layout

/-- Nanoseconds from what stands after the seconds, and the offset of UTC. -/
def readFraction : List Char → Option Nat
  | '.' :: cs =>
    let figures := cs.takeWhile Char.isDigit
    if cs.drop figures.length = "+00:00".toList then
      some (FixedWidth.value figures * 10 ^ (9 - figures.length))
    else none
  | cs => if cs = "+00:00".toList then some 0 else none

/-- RFC 3339 in UTC, as it is written out. -/
def readRfc3339 (text : String) : Option Int :=
  match FixedWidth.scan dateLayout (text.toList.take 17), readFraction (text.toList.drop 19) with
  | some [year, month, day, hour, minute], some nanosecond =>
    let second := FixedWidth.value ((text.toList.drop 17).take 2)
    some ((Calendar.dayNumber year month day - 719528) * nanosPerDay +
      (hour * 3600 + minute * 60 + second) * 1000000000 + nanosecond)
  | _, _ => none

theorem isDigit_of_digits {w n : Nat} : ∀ ch ∈ FixedWidth.digits w n, ch.isDigit = true :=
  FixedWidth.digits_forall (by decide) w n

theorem takeWhile_digits (w n : Nat) :
    (FixedWidth.digits w n ++ "+00:00".toList).takeWhile Char.isDigit = FixedWidth.digits w n := by
  rw [List.takeWhile_append_of_pos isDigit_of_digits]
  exact List.append_nil _

theorem readFraction_fraction {m : Nat} (h : m < 10 ^ 9) :
    readFraction (fraction m ++ "+00:00".toList) = some m := by
  by_cases hm : m = 0
  · subst hm
    decide
  · obtain ⟨w, v, hwv, -, -, htext, hwhole, -⟩ := RetentionAge.fraction_shape hm
    have hfit : m / 10 ^ v < 10 ^ w := by
      rw [← hwv, Nat.pow_add, Nat.mul_comm] at h
      exact Nat.div_lt_of_lt_mul h
    have hv : 9 - w = v := by omega
    rw [htext, List.cons_append]
    simp only [readFraction, takeWhile_digits, FixedWidth.length_digits]
    rw [if_pos (List.drop_left' (FixedWidth.length_digits ..)), FixedWidth.value_digits hfit, hv,
      Nat.div_mul_cancel (Nat.dvd_of_mod_eq_zero hwhole)]

/-- The hours, minutes, seconds and the rest of a day's nanoseconds. -/
theorem day_parts (t : Int) : ((nanoOfDay t / 3600000000000 : Nat) * 3600 +
    (nanoOfDay t / 60000000000 % 60 : Nat) * 60 +
      (secondOf t : Nat)) * 1000000000 +
    (nanosecondOf t : Int) = t % nanosPerDay := by
  unfold secondOf nanosecondOf
  have hday : (nanoOfDay t : Int) = t % nanosPerDay := by
    unfold nanoOfDay nanosPerDay
    omega
  rw [← hday]
  omega

theorem readRfc3339_rfc3339 {t : Int} (h : 0 ≤ yearOf t ∧ yearOf t ≤ 9999) :
    readRfc3339 (rfc3339 t) = some t := by
  have hfits : FixedWidth.Fits dateLayout ((yearOf t).toNat :: columns t) :=
    .cons (by simp only; omega) (RetentionAge.columns_fit t)
  have hlist : (rfc3339 t).toList = FixedWidth.render dateLayout
      ((yearOf t).toNat :: columns t) ++
      (FixedWidth.digits 2 (secondOf t) ++
        (fraction (nanosecondOf t) ++
          "+00:00".toList)) := by
    rw [rfc3339, String.toList_ofList, RetentionAge.yearText_plain h.1 h.2, dateLayout,
      FixedWidth.render, List.append_assoc, List.cons_append]
  have hlength : (FixedWidth.render dateLayout
      ((yearOf t).toNat :: columns t)).length = 17 := by
    simp [FixedWidth.render, dateLayout, layout,
      columns]
  have hsecond : secondOf t < 10 ^ 2 := by
    unfold secondOf
    omega
  have hnano : nanosecondOf t < 10 ^ 9 := Nat.mod_lt _ (by decide)
  unfold readRfc3339
  rw [hlist, List.take_left' hlength, FixedWidth.scan_render hfits, List.drop_left' hlength,
    List.take_left' (FixedWidth.length_digits ..), FixedWidth.value_digits hsecond]
  have hdrop : ∀ xs ys : List Char, xs.length = 17 →
      (xs ++ ys).drop 19 = ys.drop 2 := by
    intro xs ys hxs
    rw [show 19 = 17 + 2 from rfl, ← List.drop_drop, List.drop_left' hxs]
  rw [hdrop _ _ hlength, List.drop_left' (FixedWidth.length_digits ..), readFraction_fraction hnano]
  have hyear : ((yearOf t).toNat : Int) = yearOf t := by omega
  have hdate := Calendar.dayNumber_monthDay (dayOf t)
  have hparts := day_parts t
  simp only [columns, hyear]
  rw [yearOf, hdate]
  unfold dayOf nanosPerDay at *
  refine congrArg some ?_
  omega

theorem yearText_signed {year : Int} (h : ¬(0 ≤ year ∧ year ≤ 9999)) : ∃ sign w,
    Prospero.RetentionAge.yearText year = sign :: FixedWidth.digits (4 + w) year.natAbs := by
  have hwidth : ∃ w, Prospero.RetentionAge.yearWidth year.natAbs = 4 + w := by
    unfold Prospero.RetentionAge.yearWidth
    split
    · exact ⟨0, rfl⟩
    · split
      · exact ⟨1, rfl⟩
      · exact ⟨2, rfl⟩
  obtain ⟨w, hw⟩ := hwidth
  rw [Prospero.RetentionAge.yearText, if_neg h, hw]
  exact ⟨_, w, rfl⟩

/-- A signed year has a digit where the reader looks for the first dash. -/
theorem readRfc3339_signed {t : Int} (h : ¬(0 ≤ yearOf t ∧ yearOf t ≤ 9999)) :
    readRfc3339 (rfc3339 t) = none := by
  obtain ⟨sign, w, hyear⟩ := yearText_signed h
  have hscan : FixedWidth.scan dateLayout ((rfc3339 t).toList.take 17) = none := by
    rw [rfc3339, String.toList_ofList, hyear, FixedWidth.digits_add]
    simp [dateLayout, FixedWidth.scan, FixedWidth.digits]
  rw [readRfc3339, hscan]

end Read

section Sample

def chrono : Chrono where
  trySeconds secs := if (secs * 1000).natAbs ≤ 2 ^ 63 - 1 then some (secs * 1000000000) else none
  add t d := if minUtc ≤ t + d ∧ t + d ≤ maxUtc then some (t + d) else none
  toRfc3339 := rfc3339
  parseFromRfc3339 := readRfc3339

theorem chrono_documented : chrono.Documented := by
  refine ⟨fun _ => rfl, fun _ _ => rfl, fun _ _ _ => rfl, fun t _ _ => ?_⟩
  simp only [chrono]
  split
  · rename_i hplain
    exact readRfc3339_rfc3339 hplain
  · rename_i hsigned
    exact readRfc3339_signed hsigned

/-- A minute and a half from noon. -/
theorem deadline_safe_minute : Safe chrono RetentionAge.noon (some 90) :=
  (deadline_safe_iff chrono chrono_documented RetentionAge.noon (some 90)).mpr
    (Or.inl (by decide))

/-- The longest timeout there is. -/
def longest : UInt64 := 18446744073709551615

/-- It comes to a deadline of a second before the start. -/
theorem longest_timeout_expired :
    deadlineFrom chrono RetentionAge.noon.instant (some longest) =
        some (some (rfc3339 (RetentionAge.noon.instant - 1000000000))) ∧
      ¬∀ (c : Chrono) (_ : c.Documented) (started : Reading) (timeoutSecs : Option UInt64),
        Safe c started timeoutSecs := by
  refine ⟨rfl, fun h => ?_⟩
  exact not_safe_of_negative longest chrono_documented (by decide)
    (h chrono chrono_documented RetentionAge.noon (some longest))

end Sample

end Prospero.Proofs.DeadlineArithmetic
