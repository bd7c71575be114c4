import Mathlib.Tactic.Linarith
import Prospero.RetentionAge

namespace Prospero.Proofs.RetentionAge
open Prospero.RetentionAge

section Order

variable {t u : Int}

theorem columns_fit (t : Int) : FixedWidth.Fits layout (columns t) := by
  have hfits := Calendar.monthDay_fits (dayOf t)
  have hday : nanoOfDay t < 86400000000000 := by
    unfold nanoOfDay nanosPerDay
    omega
  simp only [FixedWidth.Fits, layout, columns, List.forall₂_cons, List.forall₂_nil_right_iff,
    and_true]
  omega

/-- Nanoseconds of a day in hours, minutes and seconds. -/
theorem clock_lt (p q : Nat) : p < q ↔ p / 3600000000000 < q / 3600000000000 ∨
    p / 3600000000000 = q / 3600000000000 ∧
      (p / 60000000000 % 60 < q / 60000000000 % 60 ∨
        p / 60000000000 % 60 = q / 60000000000 % 60 ∧
          (p / 1000000000 % 60 < q / 1000000000 % 60 ∨
            p / 1000000000 % 60 = q / 1000000000 % 60 ∧ p % 1000000000 < q % 1000000000)) := by
  have hhour : ∀ n : Nat, n / 3600000000000 = n / 1000000000 / 60 / 60 := by
    intro n
    rw [Nat.div_div_eq_div_mul, Nat.div_div_eq_div_mul]
  have hminute : ∀ n : Nat, n / 60000000000 = n / 1000000000 / 60 := by
    intro n
    rw [Nat.div_div_eq_div_mul]
  simp only [hhour, hminute]
  omega

/-- Within a year the columns come in the order of time. -/
theorem lt_iff (t u : Int) : t < u ↔ yearOf t < yearOf u ∨ yearOf t = yearOf u ∧
    (columns t < columns u ∨ columns t = columns u ∧ (secondOf t < secondOf u ∨
      secondOf t = secondOf u ∧ nanosecondOf t < nanosecondOf u)) := by
  have hinstant : t < u ↔ dayOf t < dayOf u ∨ dayOf t = dayOf u ∧ nanoOfDay t < nanoOfDay u := by
    unfold dayOf nanoOfDay nanosPerDay
    omega
  rw [hinstant, Calendar.day_eq (dayOf t) (dayOf u), Calendar.day_lt (dayOf t) (dayOf u),
    clock_lt (nanoOfDay t) (nanoOfDay u)]
  simp only [columns, secondOf, nanosecondOf, yearOf, List.cons_lt_cons_iff, List.cons.injEq,
    List.not_lt_nil, and_true, and_false, or_false, Prod.ext_iff, and_or_left, and_assoc, or_assoc]

theorem below_plus : FixedWidth.Below '+' := by
  unfold FixedWidth.Below
  decide

theorem below_minus : FixedWidth.Below '-' := by
  unfold FixedWidth.Below
  decide

/-- A fraction is written with the fewest groups of three digits that hold it. -/
theorem fraction_shape {m : Nat} (h : m ≠ 0) : ∃ w v, w + v = 9 ∧ 3 ∣ v ∧ v < 9 ∧
    fraction m = '.' :: FixedWidth.digits w (m / 10 ^ v) ∧ m % 10 ^ v = 0 ∧
    (v < 3 → m % 1000 ≠ 0) ∧ (v < 6 → m % 1000000 ≠ 0) := by
  unfold fraction
  rw [if_neg h]
  split
  · exact ⟨3, 6, rfl, by decide, by decide, rfl, by assumption, by omega, by omega⟩
  · rename_i h6
    split
    · exact ⟨6, 3, rfl, by decide, by decide, rfl, by assumption, by omega, fun _ => h6⟩
    · rename_i h3
      exact ⟨9, 0, rfl, by decide, by decide, by simp, by simp [Nat.mod_one], fun _ => h3,
        fun _ => h6⟩

theorem fraction_lt {m n : Nat} (hm : m < 10 ^ 9) (hn : n < 10 ^ 9) (r : List Char) :
    fraction m ++ '+' :: r < fraction n ++ '+' :: r ↔ m < n := by
  have hdot : ∀ cs : List Char, '+' :: r < '.' :: cs := fun cs => List.Lex.rel (by decide)
  by_cases hm0 : m = 0
  · by_cases hn0 : n = 0
    · simp [hm0, hn0]
    · obtain ⟨w, v, -, -, -, hf, -⟩ := fraction_shape hn0
      rw [hm0, hf]
      exact iff_of_true (hdot _) (Nat.pos_of_ne_zero hn0)
  · obtain ⟨w, v, hw, hv3, hv9, hf, hz, h3, h6⟩ := fraction_shape hm0
    by_cases hn0 : n = 0
    · rw [hn0, hf]
      exact iff_of_false (lt_asymm (hdot _)) (Nat.not_lt_zero m)
    · obtain ⟨w', v', hw', hv3', hv9', hf', hz', h3', h6'⟩ := fraction_shape hn0
      rw [hf, hf', List.cons_append, List.cons_append, List.cons_lt_cons_self]
      apply FixedWidth.fraction_lt below_plus hw hw' hm hn hz hz'
      intro hlt
      obtain rfl | rfl | rfl : v = 0 ∨ v = 3 ∨ v = 6 := by omega
      · omega
      · exact h3' hlt
      · exact h6' hlt

/-- What stands after the year. -/
def after (columns : List Nat) (second nanosecond : Nat) : List Char :=
  FixedWidth.render layout columns ++
    (FixedWidth.digits 2 second ++ (fraction nanosecond ++ "+00:00".toList))

/-- Columns of the right width come in the order of their texts. -/
theorem after_lt {ms ns : List Nat} {second second' nano nano' : Nat}
    (hms : FixedWidth.Fits layout ms) (hns : FixedWidth.Fits layout ns) (hsecond : second < 100)
    (hsecond' : second' < 100) (hnano : nano < 10 ^ 9) (hnano' : nano' < 10 ^ 9) :
    after ms second nano < after ns second' nano' ↔ ms < ns ∨ ms = ns ∧
      (second < second' ∨ second = second' ∧ nano < nano') := by
  have hcolumns : FixedWidth.render layout ms = FixedWidth.render layout ns ↔ ms = ns := by
    constructor
    · intro h
      have hscan := FixedWidth.scan_render hms
      rw [h, FixedWidth.scan_render hns] at hscan
      exact (Option.some.inj hscan).symm
    · intro h
      rw [h]
  unfold after
  rw [FixedWidth.append_lt_append (FixedWidth.length_render hms hns), hcolumns,
    FixedWidth.render_lt hms hns,
    FixedWidth.append_lt_append (by simp), FixedWidth.digits_lt hsecond hsecond',
    FixedWidth.digits_inj hsecond hsecond']
  exact or_congr_right (and_congr_right fun _ => or_congr_right (and_congr_right fun _ =>
    fraction_lt hnano hnano' _))

def rest (t : Int) : List Char := after (columns t) (secondOf t) (nanosecondOf t)

theorem secondOf_lt (t : Int) : secondOf t < 60 := Nat.mod_lt _ (by decide)

theorem nanosecondOf_lt (t : Int) : nanosecondOf t < 10 ^ 9 := Nat.mod_lt _ (by decide)

theorem rest_lt (t u : Int) : rest t < rest u ↔ columns t < columns u ∨ columns t = columns u ∧
    (secondOf t < secondOf u ∨ secondOf t = secondOf u ∧ nanosecondOf t < nanosecondOf u) :=
  after_lt (columns_fit t) (columns_fit u) (by linarith [secondOf_lt t])
    (by linarith [secondOf_lt u]) (nanosecondOf_lt t) (nanosecondOf_lt u)

/-- Of two instants of a year the earlier has the smaller text. -/
theorem lt_iff_rest (t u : Int) :
    t < u ↔ yearOf t < yearOf u ∨ yearOf t = yearOf u ∧ rest t < rest u := by
  rw [lt_iff, rest_lt]

theorem rfc3339_lt (t u : Int) : rfc3339 t < rfc3339 u ↔
    yearText (yearOf t) ++ '-' :: rest t < yearText (yearOf u) ++ '-' :: rest u := by
  have hlist : ∀ x, (rfc3339 x).toList = yearText (yearOf x) ++ '-' :: rest x :=
    fun _ => String.toList_ofList
  rw [String.lt_iff_toList_lt, hlist, hlist]

end Order

section Years

variable {t u : Int}

theorem year_le_iff (year t : Int) :
    year ≤ yearOf t ↔ (Calendar.yearStart year - 719528) * nanosPerDay ≤ t := by
  rw [yearOf, ← (Calendar.yearOf_within (dayOf t)).le_iff Calendar.yearStart_strictMono]
  unfold dayOf nanosPerDay
  omega

theorem year_max (h : t ≤ maxUtc) : yearOf t ≤ 262142 := by
  have hnot : ¬262143 ≤ yearOf t := by
    rw [year_le_iff]
    unfold maxUtc at h
    omega
  omega

/-- The emitter's clock starts in 1970. -/
theorem year_clock (h : 0 ≤ t) : 1970 ≤ yearOf t := (year_le_iff _ t).mpr h

theorem yearText_plain {year : Int} (h : 0 ≤ year) (h' : year ≤ 9999) :
    yearText year = FixedWidth.digits 4 year.toNat := if_pos ⟨h, h'⟩

theorem yearText_before {year : Int} (h : year < 0) : yearText year =
    '-' :: FixedWidth.digits (yearWidth year.natAbs) year.natAbs := by
  rw [yearText, if_neg (by omega), if_pos h]

theorem yearText_beyond {year : Int} (h : 9999 < year) : yearText year =
    '+' :: FixedWidth.digits (yearWidth year.natAbs) year.natAbs := by
  rw [yearText, if_neg (by omega), if_neg (by omega)]

theorem yearText_five {year : Int} (h : 9999 < year) (h' : year ≤ 99999) :
    yearText year = '+' :: FixedWidth.digits 5 year.natAbs := by
  rw [yearText_beyond h, yearWidth, if_neg (by omega), if_pos (by omega)]

theorem yearText_six {year : Int} (h : 99999 < year) :
    yearText year = '+' :: FixedWidth.digits 6 year.natAbs := by
  rw [yearText_beyond (by omega), yearWidth, if_neg (by omega), if_neg (by omega)]

/-- An event's text sorts against a cutoff's as their instants do. -/
def InOrder (year cutoff : Int) : Prop :=
  year ≤ 9999 ∧ cutoff ≤ 9999 ∨
    9999 < year ∧ 9999 < cutoff ∧
      ((year ≤ 99999 ↔ cutoff ≤ 99999) ∨ year ≤ cutoff / 10 ∨ cutoff ≤ year / 10)

variable {y z : Int} {r s : List Char}

/-- Years in texts of one width leave the order of time to stand. -/
theorem text_lt_same (hlength : (yearText y).length = (yearText z).length)
    (hlt : yearText y < yearText z ↔ y < z) (heq : yearText y = yearText z ↔ y = z) :
    yearText y ++ '-' :: r < yearText z ++ '-' :: s ↔ y < z ∨ y = z ∧ r < s := by
  rw [FixedWidth.append_lt_append hlength, hlt, heq, List.cons_lt_cons_self]

theorem text_lt_signed {w : Nat} (hpos : 0 ≤ y) (hpos' : 0 ≤ z)
    (htext : yearText y = '+' :: FixedWidth.digits w y.natAbs)
    (htext' : yearText z = '+' :: FixedWidth.digits w z.natAbs) (hfit : y.natAbs < 10 ^ w)
    (hfit' : z.natAbs < 10 ^ w) :
    yearText y ++ '-' :: r < yearText z ++ '-' :: s ↔ y < z ∨ y = z ∧ r < s := by
  apply text_lt_same
  · simp [htext, htext']
  · rw [htext, htext', List.cons_lt_cons_self, FixedWidth.digits_lt hfit hfit']
    omega
  · rw [htext, htext', List.cons.injEq, eq_self, true_and, FixedWidth.digits_inj hfit hfit']
    omega

theorem text_lt_four (hpos : 0 ≤ y) (hfour : y ≤ 9999) (hpos' : 0 ≤ z) (hfour' : z ≤ 9999) :
    yearText y ++ '-' :: r < yearText z ++ '-' :: s ↔ y < z ∨ y = z ∧ r < s := by
  have hplain := yearText_plain hpos hfour
  have hplain' := yearText_plain hpos' hfour'
  have hfit : y.toNat < 10 ^ 4 := by omega
  have hfit' : z.toNat < 10 ^ 4 := by omega
  apply text_lt_same
  · simp [hplain, hplain']
  · rw [hplain, hplain', FixedWidth.digits_lt hfit hfit']
    omega
  · rw [hplain, hplain', FixedWidth.digits_inj hfit hfit']
    omega

theorem text_lt_plain (hclock : 1970 ≤ y) (hyear : y ≤ 9999) :
    yearText y ++ '-' :: r < yearText z ++ '-' :: s ↔
      ((y < z ∨ y = z ∧ r < s) ↔ InOrder y z) := by
  have hplain := yearText_plain (by omega) hyear
  rcases lt_or_ge z 0 with hbefore | hafter
  · -- a minus sorts before every digit
    have htext : ¬yearText y ++ '-' :: r < yearText z ++ '-' :: s := by
      rw [hplain, yearText_before hbefore]
      exact lt_asymm (FixedWidth.mark_lt_digits below_minus 3 _ _ _)
    have htime : ¬(y < z ∨ y = z ∧ r < s) := by omega
    have horder : InOrder y z := Or.inl ⟨hyear, by omega⟩
    simp only [htext, htime, horder, false_iff, not_true_eq_false]
  · rcases le_or_gt z 9999 with hfour | hbeyond
    · have horder : InOrder y z := Or.inl ⟨hyear, hfour⟩
      simp only [horder, iff_true]
      exact text_lt_four (by omega) hyear hafter hfour
    · have htext : ¬yearText y ++ '-' :: r < yearText z ++ '-' :: s := by
        rw [hplain, yearText_beyond hbeyond]
        exact lt_asymm (FixedWidth.mark_lt_digits below_plus 3 _ _ _)
      have htime : y < z ∨ y = z ∧ r < s := by omega
      have horder : ¬InOrder y z := by
        unfold InOrder
        omega
      simp only [htext, htime, horder, true_iff]

theorem text_lt_beyond (hyear : 9999 < y) (hlast : y ≤ 262142) (hlast' : z ≤ 262142) :
    yearText y ++ '-' :: r < yearText z ++ '-' :: s ↔
      ((y < z ∨ y = z ∧ r < s) ↔ InOrder y z) := by
  have hsigned := yearText_beyond hyear
  rcases le_or_gt z 9999 with hfour | hbeyond
  · -- a plus sorts before a minus and before every digit
    have htext : yearText y ++ '-' :: r < yearText z ++ '-' :: s := by
      rw [hsigned]
      rcases lt_or_ge z 0 with hbefore | hafter
      · rw [yearText_before hbefore]
        exact List.Lex.rel (by decide)
      · rw [yearText_plain hafter hfour]
        exact FixedWidth.mark_lt_digits below_plus 3 _ _ _
    have htime : ¬(y < z ∨ y = z ∧ r < s) := by omega
    have horder : ¬InOrder y z := by
      unfold InOrder
      omega
    simp only [htext, htime, horder]
  · rcases le_or_gt y 99999 with hfive | hsix
    · have htext := yearText_five hyear hfive
      rcases le_or_gt z 99999 with hfive' | hsix'
      · have horder : InOrder y z := Or.inr ⟨hyear, hbeyond, Or.inl (iff_of_true hfive hfive')⟩
        simp only [horder, iff_true]
        exact text_lt_signed (by omega) (by omega) htext (yearText_five hbeyond hfive') (by omega)
          (by omega)
      · have htime : y < z ∨ y = z ∧ r < s := by omega
        have hshort := FixedWidth.short_lt_long (v := 0) (s := '-' :: s) (r := r)
          below_minus (w := 5) (m := y.natAbs) (n := z.natAbs) (by omega) (by omega)
        simp only [htime, true_iff]
        rw [htext, yearText_six hsix', List.cons_append, List.cons_append,
          List.cons_lt_cons_self, hshort]
        unfold InOrder
        omega
    · have htext := yearText_six hsix
      rcases le_or_gt z 99999 with hfive' | hsix'
      · have htime : ¬(y < z ∨ y = z ∧ r < s) := by omega
        have hlong := FixedWidth.long_lt_short (v := 0) (s := '-' :: r) (r := s)
          below_minus (w := 5) (m := z.natAbs) (n := y.natAbs) (by omega) (by omega)
        simp only [htime, false_iff]
        rw [htext, yearText_five hbeyond hfive', List.cons_append, List.cons_append,
          List.cons_lt_cons_self, hlong]
        unfold InOrder
        omega
      · have horder : InOrder y z :=
          Or.inr ⟨hyear, hbeyond, Or.inl (iff_of_false (by omega) (by omega))⟩
        simp only [horder, iff_true]
        exact text_lt_signed (by omega) (by omega) htext (yearText_six hsix') (by omega) (by omega)

/-- A text of a year the clock reads sorts before another exactly when it should, or where
the years are out of order and it should not. -/
theorem dated_lt (hclock : 1970 ≤ y) (hlast : y ≤ 262142) (hlast' : z ≤ 262142) :
    yearText y ++ '-' :: r < yearText z ++ '-' :: s ↔
      ((y < z ∨ y = z ∧ r < s) ↔ InOrder y z) := by
  rcases le_or_gt y 9999 with hyear | hyear
  · exact text_lt_plain hclock hyear
  · exact text_lt_beyond hyear hlast hlast'

theorem text_lt (ht : 0 ≤ t) (hmax : t ≤ maxUtc) (hmax' : u ≤ maxUtc) :
    rfc3339 t < rfc3339 u ↔ (t < u ↔ InOrder (yearOf t) (yearOf u)) := by
  rw [rfc3339_lt, dated_lt (year_clock ht) (year_max hmax) (year_max hmax'), ← lt_iff_rest]

end Years

section Prune

variable {c : Chrono}

theorem inOrder_comm {year cutoff : Int} : InOrder year cutoff ↔ InOrder cutoff year := by
  unfold InOrder
  constructor <;> omega

/-- Two readings of the clock with one text are one. -/
theorem rfc3339_inj {t u : Reading} (h : rfc3339 t.instant = rfc3339 u.instant) :
    t.instant = u.instant := by
  have htu := text_lt t.valid.1 t.valid.2 u.valid.2
  have hut := text_lt u.valid.1 u.valid.2 t.valid.2
  rw [h, iff_false_left (lt_irrefl _)] at htu
  rw [h, iff_false_left (lt_irrefl _), inOrder_comm] at hut
  rcases lt_trichotomy t.instant u.instant with hlt | heq | hgt
  · have hnot := lt_asymm hlt
    tauto
  · exact heq
  · have hnot := lt_asymm hgt
    tauto

theorem filter_map_eq_iff {α β : Type} {f : α → β} {p : β → Bool} {q : α → Bool} {l : List α}
    (hq : ∀ a ∈ l, ∀ b ∈ l, f a = f b → q a = q b) :
    (l.map f).filter p = (l.filter q).map f ↔ ∀ a ∈ l, p (f a) = q a := by
  constructor
  · intro h a ha
    have hmem : f a ∈ (l.map f).filter p ↔ f a ∈ (l.filter q).map f := by rw [h]
    cases hpa : p (f a) with
    | true =>
      obtain ⟨b, hb, hab⟩ := List.mem_map.mp
        (hmem.mp (List.mem_filter.mpr ⟨List.mem_map_of_mem ha, hpa⟩))
      obtain ⟨hb, hqb⟩ := List.mem_filter.mp hb
      rw [hq a ha b hb hab.symm, hqb]
    | false =>
      by_contra hqa
      have hqa : q a = true := by simpa using Ne.symm hqa
      have hmem' := hmem.mpr (List.mem_map_of_mem (List.mem_filter.mpr ⟨ha, hqa⟩))
      rw [(List.mem_filter.mp hmem').2] at hpa
      cases hpa
  · intro h
    rw [List.filter_map]
    exact congrArg (List.map f) (List.filter_congr h)

/-- The events that are no more than the age before now. -/
def young (now : Reading) (maxAge : Nat) (log : List (Rendered c)) : List FleetEvent :=
  (log.filter fun r => now.instant - maxAge * 1000000000 ≤ r.clock.instant).map Rendered.event

theorem minUtc_le_zero : minUtc ≤ 0 := by decide

/-- The age is a duration, the cutoff a date, and no event's year is out of order with the
cutoff's; or the age is no duration, and an event is before now exactly where their years are
out of order. -/
def Bounded (now : Reading) (maxAge : Nat) (log : List (Rendered c)) : Prop :=
  if maxAge * 1000 ≤ 2 ^ 63 - 1 then
    minUtc ≤ now.instant - maxAge * 1000000000 ∧ ∀ r ∈ log,
      InOrder (yearOf r.clock.instant) (yearOf (now.instant - maxAge * 1000000000))
  else ∀ r ∈ log,
    (r.clock.instant < now.instant ↔ ¬InOrder (yearOf r.clock.instant) (yearOf now.instant))

end Prune

section Sample

def chrono : Chrono where
  fromStd secs := if secs * 1000 ≤ 2 ^ 63 - 1 then some ((secs : Int) * 1000000000) else none
  sub t d := if minUtc ≤ t - d ∧ t - d ≤ maxUtc then some (t - d) else none
  toRfc3339 := rfc3339

theorem chrono_documented : chrono.Documented :=
  ⟨fun _ => rfl, fun _ _ => rfl, fun _ _ _ => rfl⟩

def noon : Reading := ⟨1767355200000000000, by decide⟩

/-- An event of an hour before. -/
def recent : Rendered chrono where
  event := ⟨1, rfc3339 1767351661000000000, "one", "a", .agentGone, none, none⟩
  clock := ⟨1767351661000000000, by decide⟩
  ts := rfl

end Sample

end Prospero.Proofs.RetentionAge
