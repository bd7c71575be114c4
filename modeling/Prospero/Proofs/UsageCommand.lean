import Mathlib.Data.Bool.AllAny
import Prospero.Proofs.Sessions
import Prospero.Proofs.UsageWindow
import Prospero.UsageCommand

namespace Prospero.Proofs.UsageCommand
open Prospero.UsageCommand
open Prospero.Automations (trim)
open Prospero.RetentionAge (Reading columns layout maxUtc minUtc nanosPerDay yearOf yearText)
open Prospero.UsageWindow (Moment UsageQuery maxUsageWindowDays now usageWindow)

section Form

variable {c : Crates}

/-- What stands in a query as it is. -/
def Quiet (text : List Char) : Prop := '%' ∉ text ∧ '&' ∉ text ∧ '=' ∉ text

end Form

section Path

variable {c : Crates} {debug : String → String} {clock : Reading}

end Path

section Window

variable {c : Crates} {debug : String → String} {clock : Reading}

theorem whole_leap (m : Moment) : m.frac / 1000000000 * 1000000000 < 1000000000 ∨
    m.second % 60 = 59 ∧ m.frac / 1000000000 * 1000000000 < 2000000000 := by
  have hleap := m.leap
  omega

/-- A moment to the second; of a leap second its own beginning is left. -/
def whole (m : Moment) : Moment where
  second := m.second
  frac := m.frac / 1000000000 * 1000000000
  leap := whole_leap m
  range := m.range

/-- The year is of four digits. -/
def Plain (m : Moment) : Prop := 0 ≤ yearOf m.base ∧ yearOf m.base ≤ 9999

end Window

section Command

variable {c : Crates} {debug : String → String}

/-- What a window begins at: so many days before now, or a moment. -/
inductive Start
  | back (days : Nat)
  | from (moment : Moment)

/-- What the server answers with the sums of. -/
def Served (c : Crates) (debug : String → String) (clock : Reading) (path : List Char) :
    Start → Prop
  | .back days => days ≤ 36500 ∧ getUsage c debug path clock =
      some (.ok (RetentionAge.rfc3339 (clock.instant - days * nanosPerDay),
        RetentionAge.rfc3339 clock.instant))
  | .from m =>
    (Plain m → getUsage c debug path clock =
      some (.ok (m.rfc3339, RetentionAge.rfc3339 clock.instant))) ∧
    (¬Plain m → ∃ why, getUsage c debug path clock = some (.error why))

section Sample

theorem after_inj {ms ns : List Nat} {second second' nano nano' : Nat}
    (hms : FixedWidth.Fits layout ms) (hns : FixedWidth.Fits layout ns) (hsecond : second < 100)
    (hsecond' : second' < 100) (hnano : nano < 10 ^ 9) (hnano' : nano' < 10 ^ 9)
    (h : Proofs.RetentionAge.after ms second nano = Proofs.RetentionAge.after ns second' nano') :
    ms = ns ∧ second = second' ∧ nano = nano' := by
  have hlt := Proofs.RetentionAge.after_lt hms hns hsecond hsecond' hnano hnano'
  have hgt := Proofs.RetentionAge.after_lt hns hms hsecond' hsecond hnano' hnano
  rw [h, iff_false_left (lt_irrefl _)] at hlt
  rw [h, iff_false_left (lt_irrefl _)] at hgt
  rcases lt_trichotomy ms ns with hcol | hcol | hcol
  · exact absurd (Or.inl hcol) hlt
  · refine ⟨hcol, ?_⟩
    have hlow : ¬(second < second' ∨ second = second' ∧ nano < nano') :=
      fun hclock => hlt (Or.inr ⟨hcol, hclock⟩)
    have hhigh : ¬(second' < second ∨ second' = second ∧ nano' < nano) :=
      fun hclock => hgt (Or.inr ⟨hcol.symm, hclock⟩)
    omega
  · exact absurd (Or.inl hcol) hgt

/-- Within the years of four digits no two moments are written alike. -/
theorem rfc3339_inj {m m' : Moment} (hm : Plain m) (hm' : Plain m') (h : m.rfc3339 = m'.rfc3339) :
    m = m' := by
  have htext : yearText (yearOf m.base) ++ '-' :: Proofs.UsageWindow.stamp m =
      yearText (yearOf m'.base) ++ '-' :: Proofs.UsageWindow.stamp m' := by
    rw [← Proofs.UsageWindow.rfc3339_toList, ← Proofs.UsageWindow.rfc3339_toList, h]
  rw [Proofs.RetentionAge.yearText_plain hm.1 hm.2, Proofs.RetentionAge.yearText_plain hm'.1 hm'.2]
    at htext
  obtain ⟨hdigits, hstamp⟩ := List.append_inj htext (by simp)
  obtain ⟨hlow, hhigh⟩ := hm
  obtain ⟨hlow', hhigh'⟩ := hm'
  have hyear : yearOf m.base = yearOf m'.base := by
    have hnat := (FixedWidth.digits_inj (by omega) (by omega)).mp hdigits
    omega
  have hfrac := Proofs.UsageWindow.frac_lt m
  have hfrac' := Proofs.UsageWindow.frac_lt m'
  have hsecond := Proofs.RetentionAge.secondOf_lt m.base
  have hsecond' := Proofs.RetentionAge.secondOf_lt m'.base
  obtain ⟨hcolumns, hclock, hnano⟩ := after_inj (Proofs.RetentionAge.columns_fit m.base)
    (Proofs.RetentionAge.columns_fit m'.base) (by omega) (by omega) (Nat.mod_lt _ (by decide))
    (Nat.mod_lt _ (by decide)) (List.cons.inj hstamp).2
  have hleap := Proofs.UsageWindow.secondOf_leap m
  have hleap' := Proofs.UsageWindow.secondOf_leap m'
  have hseconds : RetentionAge.secondOf m.base = RetentionAge.secondOf m'.base := by omega
  have hlt := Proofs.RetentionAge.lt_iff m.base m'.base
  have hgt := Proofs.RetentionAge.lt_iff m'.base m.base
  have hzero := Proofs.UsageWindow.nanosecondOf_base m (f := 0) (by decide)
  have hzero' := Proofs.UsageWindow.nanosecondOf_base m' (f := 0) (by decide)
  simp only [Nat.cast_zero, add_zero] at hzero hzero'
  simp only [hyear, hcolumns, hseconds, hzero, hzero', lt_irrefl, and_false, or_false,
    iff_false] at hlt hgt
  have hbase : m.base = m'.base := le_antisymm (not_lt.mp hgt) (not_lt.mp hlt)
  have hwhole : m.second = m'.second := by
    unfold UsageWindow.Moment.base at hbase
    omega
  have hrest : m.frac = m'.frac := by omega
  cases m
  cases m'
  cases hwhole
  cases hrest
  rfl

open Classical in
/-- Reads back what is written of the years of four digits, and nothing else. -/
noncomputable def readBack (text : String) : Except String Moment :=
  if h : ∃ m, Plain m ∧ m.rfc3339 = text then .ok h.choose
  else .error "input contains invalid characters"

noncomputable def crates : Crates where
  chrono := { Proofs.UsageWindow.chrono with parseFromRfc3339 := readBack }
  parseFromStr := fun text => if text = "2026-01-02" then some ⟨20455, by decide⟩ else none
  fromUtf8Lossy := fun bytes => (Lines.decode bytes).getD ""

end Sample

end Command

end Prospero.Proofs.UsageCommand
