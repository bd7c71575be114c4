import Prospero.Proofs.CivilCalendar
import Prospero.Proofs.UsageWindow

namespace Prospero.Proofs.Timestamp
open Prospero.UsageWindow (Moment)
open Prospero.RetentionAge (columns layout nanosecondOf secondOf yearOf yearText)
open Proofs.RetentionAge (columns_fit)

/-- The order of the instants: by second, and within one by the nanoseconds into it. -/
def Earlier (m n : Moment) : Prop :=
  m.second < n.second ∨ m.second = n.second ∧ m.frac < n.frac

instance (m n : Moment) : Decidable (Earlier m n) := by
  unfold Earlier
  infer_instance

/-- The second an instant is in; a leap second is one. -/
def wholeSecond (m : Moment) : Moment :=
  { m with
    frac := m.frac / 1000000000 * 1000000000
    leap := by
      have h := m.leap
      omega }

section Order

variable (m n : Moment)

theorem earlier_trichotomy : Earlier m n ∨ m = n ∨ Earlier n m := by
  cases m
  cases n
  simp only [Earlier, Moment.mk.injEq]
  omega

theorem stamp_lt_stamp : UsageWindow.stamp m < UsageWindow.stamp n ↔
    columns m.base < columns n.base ∨ columns m.base = columns n.base ∧
      (secondOf m.base + m.frac / 1000000000 < secondOf n.base + n.frac / 1000000000 ∨
        secondOf m.base + m.frac / 1000000000 = secondOf n.base + n.frac / 1000000000 ∧
          m.frac % 1000000000 < n.frac % 1000000000) := by
  have hfrac := UsageWindow.frac_lt m
  have hfrac' := UsageWindow.frac_lt n
  have hsecond := Proofs.RetentionAge.secondOf_lt m.base
  have hsecond' := Proofs.RetentionAge.secondOf_lt n.base
  exact Proofs.RetentionAge.after_lt (columns_fit m.base) (columns_fit n.base) (by omega)
    (by omega) (Nat.mod_lt _ (by decide)) (Nat.mod_lt _ (by decide))

/-- The year, and what is written after it. -/
def Written : Prop :=
  yearOf m.base < yearOf n.base ∨ yearOf m.base = yearOf n.base ∧
    UsageWindow.stamp m < UsageWindow.stamp n

theorem Written.asymm {m n : Moment} (h : Written m n) : ¬Written n m := by
  rintro (hyear | ⟨hyear, hlt⟩)
  · rcases h with hyear' | ⟨hyear', -⟩ <;> omega
  · rcases h with hyear' | ⟨-, hlt'⟩
    · omega
    · exact lt_asymm hlt hlt'

theorem written_of_second_lt {m n : Moment} (h : m.second < n.second) : Written m n := by
  have hbase : m.base < n.base := by
    unfold Moment.base
    omega
  unfold Written
  rw [stamp_lt_stamp]
  rcases (Proofs.RetentionAge.lt_iff m.base n.base).mp hbase with hyear | ⟨hyear, hcolumns |
    ⟨hcolumns, hsecond⟩⟩
  · exact Or.inl hyear
  · exact Or.inr ⟨hyear, Or.inl hcolumns⟩
  · have hnano := UsageWindow.nanosecondOf_base m (f := 0) (by decide)
    have hnano' := UsageWindow.nanosecondOf_base n (f := 0) (by decide)
    have hlast := Proofs.RetentionAge.secondOf_lt n.base
    have hleap := UsageWindow.secondOf_leap m
    rw [Nat.cast_zero, Int.add_zero] at hnano hnano'
    -- a leap second is the last of its minute
    have hplain : m.frac < 1000000000 := by omega
    exact Or.inr ⟨hyear, Or.inr ⟨hcolumns, Or.inl (by omega)⟩⟩

theorem earlier_iff : Earlier m n ↔ Written m n := by
  rcases lt_trichotomy m.second n.second with hlt | heq | hgt
  · exact iff_of_true (Or.inl hlt) (written_of_second_lt hlt)
  · have hbase : m.base = n.base := by
      unfold Moment.base
      omega
    unfold Earlier Written
    rw [stamp_lt_stamp, hbase]
    simp only [lt_irrefl, true_and, false_or]
    omega
  · refine iff_of_false ?_ (written_of_second_lt hgt).asymm
    unfold Earlier
    omega

end Order

section Texts

variable {m n : Moment}

/-- An instant of the years 0 to 9999. -/
def FourDigits (m : Moment) : Prop := 0 ≤ yearOf m.base ∧ yearOf m.base ≤ 9999

theorem rfc3339_lt (hm : FourDigits m) (hn : FourDigits n) :
    m.rfc3339 < n.rfc3339 ↔ Earlier m n := by
  rw [String.lt_iff_toList_lt, UsageWindow.rfc3339_toList, UsageWindow.rfc3339_toList,
    Proofs.RetentionAge.text_lt_four hm.1 hm.2 hn.1 hn.2, earlier_iff]
  exact Iff.rfl

/-- A text that sorts as the instants do is that of one instant only. -/
theorem text_eq {text : Moment → String} (hmn : text m < text n ↔ Earlier m n)
    (hnm : text n < text m ↔ Earlier n m) : text m = text n ↔ m = n := by
  constructor
  · intro h
    rw [h, iff_false_left (lt_irrefl _)] at hmn hnm
    rcases earlier_trichotomy m n with hlt | heq | hgt
    · exact absurd hlt hmn
    · exact heq
    · exact absurd hgt hnm
  · intro h
    rw [h]

/-- The columns of whole seconds, without the zone. -/
def dated (m : Moment) : List Char :=
  yearText (yearOf m.base) ++ '-' :: (FixedWidth.render layout (columns m.base) ++
    FixedWidth.digits 2 (secondOf m.base + m.frac / 1000000000))

theorem stamp_toList : m.stamp.toList = dated m ++ ['Z'] := by
  rw [Moment.stamp, String.toList_ofList, dated]
  simp only [List.append_assoc, List.cons_append]

theorem wholeSecond_toList : (wholeSecond m).rfc3339.toList = dated m ++ "+00:00".toList := by
  have hfraction : RetentionAge.fraction ((wholeSecond m).frac % 1000000000) = [] := by
    rw [wholeSecond, Nat.mul_mod_left]
    rfl
  have hleap : (wholeSecond m).frac / 1000000000 = m.frac / 1000000000 :=
    Nat.mul_div_cancel _ (by decide)
  rw [Moment.rfc3339, String.toList_ofList, dated, hfraction, hleap]
  simp only [List.append_assoc, List.cons_append, List.nil_append]
  rfl

theorem length_dated (hm : FourDigits m) : (dated m).length = 19 := by
  rw [dated, Proofs.RetentionAge.yearText_plain hm.1 hm.2]
  simp [FixedWidth.render, layout, columns]

theorem stamp_lt (hm : FourDigits m) (hn : FourDigits n) :
    m.stamp < n.stamp ↔ Earlier (wholeSecond m) (wholeSecond n) := by
  have hlength : (dated m).length = (dated n).length := by
    rw [length_dated hm, length_dated hn]
  rw [← rfc3339_lt (m := wholeSecond m) (n := wholeSecond n) hm hn, String.lt_iff_toList_lt,
    String.lt_iff_toList_lt, stamp_toList, stamp_toList, wholeSecond_toList, wholeSecond_toList,
    FixedWidth.append_lt_append hlength, FixedWidth.append_lt_append hlength]
  simp only [lt_irrefl]

end Texts

section Civil

variable {t : Int}

theorem civil_valid (h : 0 ≤ yearOf t ∧ yearOf t ≤ 9999) :
    (yearOf t).toNat ≤ 9999 ∧ 1 ≤ (Calendar.monthDay (RetentionAge.dayOf t)).1 ∧
      (Calendar.monthDay (RetentionAge.dayOf t)).1 ≤ 12 ∧
      1 ≤ (Calendar.monthDay (RetentionAge.dayOf t)).2 ∧
      (Calendar.monthDay (RetentionAge.dayOf t)).2 ≤
        daysIn (yearOf t).toNat (Calendar.monthDay (RetentionAge.dayOf t)).1 ∧
      RetentionAge.nanoOfDay t / 3600000000000 < 24 ∧
      RetentionAge.nanoOfDay t / 60000000000 % 60 < 60 ∧ secondOf t < 60 ∧
      nanosecondOf t < 1000000000 := by
  have hday : RetentionAge.nanoOfDay t < 86400000000000 := by
    unfold RetentionAge.nanoOfDay RetentionAge.nanosPerDay
    omega
  have hfits := Calendar.monthDay_fits (RetentionAge.dayOf t)
  obtain ⟨hmonth, hpos, len, hlen, hle⟩ := Calendar.monthDay_isDate (RetentionAge.dayOf t)
  have hyear : Calendar.yearOf (RetentionAge.dayOf t) = ((yearOf t).toNat : Int) :=
    (Int.toNat_of_nonneg h.1).symm
  rw [hyear, CivilCalendar.monthLengths_eq, List.getElem?_map, List.getElem?_range (by omega),
    Option.map_some, Nat.sub_add_cancel hmonth] at hlen
  refine ⟨by omega, hmonth, hfits.1, hpos, ?_, by omega, by omega,
    Proofs.RetentionAge.secondOf_lt t, Proofs.RetentionAge.nanosecondOf_lt t⟩
  rwa [Option.some.inj hlen]

/-- An instant as the engine has it. -/
def civil (t : Int) (h : 0 ≤ yearOf t ∧ yearOf t ≤ 9999) : DateTime where
  year := (yearOf t).toNat
  month := (Calendar.monthDay (RetentionAge.dayOf t)).1
  day := (Calendar.monthDay (RetentionAge.dayOf t)).2
  hour := RetentionAge.nanoOfDay t / 3600000000000
  minute := RetentionAge.nanoOfDay t / 60000000000 % 60
  second := secondOf t
  nanosecond := nanosecondOf t
  valid := civil_valid h

/-- The engine's stamps are those of the clock's instants. -/
theorem stamp_civil {m : Moment} (hm : FourDigits m) (hplain : m.frac < 1000000000) :
    stamp (civil m.base hm) = m.stamp := by
  rw [stamp, Moment.stamp, Proofs.RetentionAge.yearText_plain hm.1 hm.2,
    Nat.div_eq_of_lt hplain]
  rfl

end Civil

/-- Renderings sort as the instants do, to the nanosecond or to the second. -/
theorem renderings_sort (m n : Moment) (hm : FourDigits m) (hn : FourDigits n) :
    (m.rfc3339 < n.rfc3339 ↔ Earlier m n) ∧ (m.rfc3339 = n.rfc3339 ↔ m = n) ∧
      (m.stamp < n.stamp ↔ Earlier (wholeSecond m) (wholeSecond n)) ∧
      (m.stamp = n.stamp ↔ wholeSecond m = wholeSecond n) := by
  refine ⟨rfc3339_lt hm hn, text_eq (rfc3339_lt hm hn) (rfc3339_lt hn hm), stamp_lt hm hn, ?_⟩
  rw [← String.toList_inj, stamp_toList, stamp_toList, List.append_left_inj]
  have hwhole : (wholeSecond m).rfc3339 = (wholeSecond n).rfc3339 ↔ wholeSecond m = wholeSecond n :=
    text_eq (rfc3339_lt hm hn) (rfc3339_lt hn hm)
  rw [← hwhole, ← String.toList_inj, wholeSecond_toList, wholeSecond_toList, List.append_left_inj]

section Sample

def noon : Moment := ⟨1767355200, 0, by decide, by decide⟩

def afterNoon : Moment := ⟨1767355200, 500000000, by decide, by decide⟩

theorem renderings_sort_noon : noon.rfc3339 < afterNoon.rfc3339 ∧
    noon.rfc3339 ≠ afterNoon.rfc3339 ∧ ¬noon.stamp < afterNoon.stamp ∧
    noon.stamp = afterNoon.stamp := by
  have hsort := renderings_sort noon afterNoon ⟨by decide, by decide⟩ ⟨by decide, by decide⟩
  refine ⟨hsort.1.mpr (by decide), ?_, ?_, hsort.2.2.2.mpr rfl⟩
  · intro h
    exact absurd (congrArg Moment.frac (hsort.2.1.mp h)) (by decide)
  · intro h
    exact absurd (hsort.2.2.1.mp h) (by decide)

end Sample

end Prospero.Proofs.Timestamp
