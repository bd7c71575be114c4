import Prospero.Lib.Calendar
import Prospero.Proofs.Interpolation
import Prospero.Timeline
import Prospero.Timestamp

namespace Prospero.Proofs.CivilCalendar
open Prospero.Timeline

section Days

/-- Rounding towards zero, as the source mends it for the years before 0. -/
theorem era_floor (year : Int) :
    (if 0 ≤ year then year else year - 399).tdiv 400 = year / 400 := by
  split
  · rename_i h
    exact Int.tdiv_eq_ediv_of_nonneg h
  · rename_i h
    have hneg : year - 399 = -(399 - year) := by omega
    rw [hneg, Int.neg_tdiv, Int.tdiv_eq_ediv_of_nonneg (by omega)]
    omega

/-- The days before a month, counted from January and from March. -/
theorem month_table (year : Int) {month : Nat} (h : 1 ≤ month ∧ month ≤ 12) :
    ((Calendar.monthLengths year).take (month - 1)).sum + (if month ≤ 2 then 306 else 0) =
      (153 * ((month + 9) % 12) + 2) / 5 +
        (if month ≤ 2 then 0 else if Calendar.isLeap year then 60 else 59) := by
  have htable : ∀ leap : Bool, ∀ month ∈ List.range' 1 12,
      (([31, if leap then 29 else 28, 31, 30, 31, 30, 31, 31, 30, 31, 30, 31] : List Nat).take
        (month - 1)).sum + (if month ≤ 2 then 306 else 0) =
      (153 * ((month + 9) % 12) + 2) / 5 +
        (if month ≤ 2 then 0 else if leap then 60 else 59) := by decide
  exact htable (Calendar.isLeap year) month (List.mem_range'_1.mpr (by omega))

/-- The days of a date from 1970 on, as the source counts them. -/
def daysFromCivil (y mo d : Int) : Int :=
  let yAdj := if mo ≤ 2 then y - 1 else y
  let era := (if 0 ≤ yAdj then yAdj else yAdj - 399).tdiv 400
  let yoe := yAdj - era * 400
  let mp := (mo + 9).tmod 12
  let doy := (153 * mp + 2).tdiv 5 + d - 1
  let doe := yoe * 365 + yoe.tdiv 4 - yoe.tdiv 100 + doy
  era * 146097 + doe - 719468

/-- Years of an era and its eras make up all the years. -/
theorem era_days (y : Int) :
    y / 400 * 146097 + ((y - y / 400 * 400) * 365 + (y - y / 400 * 400) / 4 -
      (y - y / 400 * 400) / 100) = 365 * y + y / 4 - y / 100 + y / 400 := by
  omega

theorem daysFromCivil_eq (year : Int) {month day : Nat} (hmonth : 1 ≤ month ∧ month ≤ 12)
    (hday : 1 ≤ day) :
    daysFromCivil year month day = Calendar.dayNumber year month day - 719528 := by
  have htable := month_table year hmonth
  have hnext := Calendar.yearStart_succ year
  have hdoy : ((153 * ((month + 9) % 12) + 2) / 5 : Int) =
      ((153 * ((month + 9) % 12) + 2) / 5 : Nat) := by push_cast; rfl
  unfold daysFromCivil Calendar.dayNumber
  generalize hy : (if (month : Int) ≤ 2 then year - 1 else year) = y
  have hyoe : 0 ≤ y - y / 400 * 400 := by omega
  have hera := era_days y
  simp only [era_floor]
  rw [Int.tdiv_eq_ediv_of_nonneg hyoe, Int.tdiv_eq_ediv_of_nonneg hyoe,
    Int.tmod_eq_emod_of_nonneg (by omega), Int.tdiv_eq_ediv_of_nonneg (by omega), hdoy]
  generalize (153 * ((month + 9) % 12) + 2) / 5 = doy at *
  generalize ((Calendar.monthLengths year).take (month - 1)).sum = before at *
  unfold Calendar.yearStart at *
  by_cases hfirst : month ≤ 2
  · -- January and February close the year that began in March before them
    rw [if_pos hfirst, if_pos hfirst] at htable
    rw [if_pos (by omega)] at hy
    omega
  · rw [if_neg hfirst, if_neg hfirst] at htable
    rw [if_neg (by omega)] at hy
    split at hnext <;> rename_i hleap
    · rw [if_pos hleap] at htable
      omega
    · rw [if_neg hleap] at htable
      omega

end Days

section Columns

variable {pre cs post : List Char}

/-- Every character is one byte. -/
def Plain (cs : List Char) : Prop := ∀ ch ∈ cs, ch.utf8Size = 1

theorem Plain.sum (h : Plain cs) : (cs.map Char.utf8Size).sum = cs.length := by
  induction cs with
  | nil => rfl
  | cons c cs ih =>
    rw [List.map_cons, List.sum_cons, h c (List.mem_cons_self ..),
      ih fun ch hch => h ch (List.mem_cons_of_mem c hch), List.length_cons, Nat.add_comm]

theorem takeBytes_plain (h : Plain cs) : Automations.takeBytes cs.length (cs ++ post) = cs := by
  induction cs with
  | nil =>
    cases post with
    | nil => rfl
    | cons c post => simp [Automations.takeBytes, (Char.utf8Size_pos c).ne']
  | cons c cs ih =>
    have hc := h c (List.mem_cons_self ..)
    have hrest := ih fun ch hch => h ch (List.mem_cons_of_mem c hch)
    rw [List.cons_append, Automations.takeBytes, hc, List.length_cons,
      if_pos (Nat.le_add_left 1 cs.length), Nat.add_sub_cancel, hrest]

theorem slice_column (hpre : Plain pre) (hcs : Plain cs) :
    slice pre.length (pre.length + cs.length) (pre ++ (cs ++ post)) = some cs := by
  unfold slice
  simp only [takeBytes_plain hpre, Nat.add_sub_cancel_left, List.drop_left, takeBytes_plain hcs,
    hpre.sum, hcs.sum, and_self, if_true]

theorem plain_digits (w n : Nat) : Plain (FixedWidth.digits w n) :=
  FixedWidth.digits_forall (by decide) w n

/-- A column is read back as its number. -/
theorem read_column {w n : Nat} (hpre : Plain pre) (hn : n < 10 ^ w) (hw : 0 < w)
    (hmax : 10 ^ w ≤ 2 ^ 63) : (slice pre.length (pre.length + w)
      (pre ++ (FixedWidth.digits w n ++ post))).bind Auth.parseInt64 = some (n : Int) := by
  have hcolumn : slice pre.length (pre.length + (FixedWidth.digits w n).length)
      (pre ++ (FixedWidth.digits w n ++ post)) = some (FixedWidth.digits w n) :=
    slice_column hpre (plain_digits w n)
  have hdigits : ∀ ch ∈ FixedWidth.digits w n, ch.isDigit = true :=
    FixedWidth.digits_forall (by decide) w n
  have hvalue : Nat.ofDigitChars 10 (FixedWidth.digits w n) 0 = n :=
    FixedWidth.value_digits hn
  have hne : FixedWidth.digits w n ≠ [] :=
    List.ne_nil_of_length_pos (by rwa [FixedWidth.length_digits])
  have hparse := Decimal.parse_digits hne hdigits (hvalue.symm ▸ lt_of_lt_of_le hn hmax)
  rw [FixedWidth.length_digits] at hcolumn
  rw [hcolumn, Option.bind_some]
  unfold Auth.parseInt64
  split
  · rename_i heq
    exact absurd (hdigits '-' (heq ▸ List.mem_cons_self ..)) (by decide)
  · rename_i heq
    exact absurd (hdigits '-' (heq ▸ List.mem_cons_self ..)) (by decide)
  · rw [hparse, hvalue]
    rfl

/-- The bytes of each column, from a first one on. -/
def spans : Nat → List (Nat × Char) → List (Nat × Nat)
  | _, [] => []
  | a, (w, _) :: layout => (a, a + w) :: spans (a + w + 1) layout

theorem plain_append {cs ds : List Char} (hcs : Plain cs) (hds : Plain ds) : Plain (cs ++ ds) := by
  intro ch hch
  rcases List.mem_append.mp hch with h | h
  · exact hcs ch h
  · exact hds ch h

theorem read_columns {layout : List (Nat × Char)} {fields : List Nat}
    (hfits : FixedWidth.Fits layout fields)
    (hlayout : ∀ c ∈ layout, 0 < c.1 ∧ 10 ^ c.1 ≤ 2 ^ 63 ∧ Plain [c.2]) (hpre : Plain pre) :
    List.Forall₂ (fun span (n : Nat) => (slice span.1 span.2
      (pre ++ (FixedWidth.render layout fields ++ post))).bind Auth.parseInt64 = some (n : Int))
      (spans pre.length layout) fields := by
  induction hfits generalizing pre with
  | nil => exact .nil
  | @cons c n layout fields hfit _ ih =>
    obtain ⟨w, mark⟩ := c
    obtain ⟨hw, hmax, hmark⟩ := hlayout (w, mark) (List.mem_cons_self ..)
    have hrest := ih
      (fun c hc => hlayout c (List.mem_cons_of_mem _ hc))
      (plain_append hpre (plain_append (plain_digits w n) hmark))
    simp only [List.append_assoc, List.length_append, FixedWidth.length_digits, List.length_singleton,
      List.singleton_append, ← Nat.add_assoc] at hrest
    rw [FixedWidth.render, spans, List.append_assoc, List.cons_append]
    exact .cons (read_column hpre hfit hw hmax) hrest

end Columns

section Texts

def dateLayout : List (Nat × Char) := [(4, '-'), (2, '-'), (2, 'T'), (2, ':'), (2, ':')]

/-- `YYYY-MM-DDTHH:MM:SS` and whatever follows it. -/
def written (t : DateTime) (tail : List Char) : String :=
  String.ofList (FixedWidth.render dateLayout [t.year, t.month, t.day, t.hour, t.minute] ++
    (FixedWidth.digits 2 t.second ++ tail))

theorem render_plain {layout : List (Nat × Char)} (hlayout : ∀ c ∈ layout, Plain [c.2])
    (fields : List Nat) : Plain (FixedWidth.render layout fields) := by
  induction layout generalizing fields with
  | nil => simp [FixedWidth.render, Plain]
  | cons c layout ih =>
    cases fields with
    | nil => simp [FixedWidth.render, Plain]
    | cons n fields =>
      have hrest := ih (fun c hc => hlayout c (List.mem_cons_of_mem _ hc)) fields
      exact plain_append (plain_digits c.1 n)
        (plain_append (hlayout c (List.mem_cons_self ..)) hrest)

theorem rfc3339ToMillis_written (t : DateTime) (tail : List Char) :
    rfc3339ToMillis (written t tail) = some ((daysFromCivil t.year t.month t.day * 86400 +
      t.hour * 3600 + t.minute * 60 + t.second) * 1000) := by
  have hvalid := t.valid
  have hdays := DateTime.daysIn_le t.year t.month
  have hfits : FixedWidth.Fits dateLayout [t.year, t.month, t.day, t.hour, t.minute] := by
    simp only [FixedWidth.Fits, dateLayout, List.forall₂_cons, List.forall₂_nil_right_iff, and_true]
    omega
  have hlayout : ∀ c ∈ dateLayout, 0 < c.1 ∧ 10 ^ c.1 ≤ 2 ^ 63 ∧ Plain [c.2] := by
    have hmarks : '-'.utf8Size = 1 ∧ 'T'.utf8Size = 1 ∧ ':'.utf8Size = 1 := by decide
    simp [dateLayout, Plain, hmarks]
  have hread := @read_columns [] (FixedWidth.digits 2 t.second ++ tail) _ _ hfits hlayout
    (by simp [Plain])
  have hsecond := @read_column _ tail 2 t.second
    (render_plain (fun c hc => (hlayout c hc).2.2) [t.year, t.month, t.day, t.hour, t.minute])
    (by omega) (by decide) (by decide)
  rw [List.nil_append, List.length_nil] at hread
  have hspans : spans 0 dateLayout = [(0, 4), (5, 7), (8, 10), (11, 13), (14, 16)] := rfl
  simp only [hspans, List.forall₂_cons, List.forall₂_nil_right_iff, and_true] at hread
  obtain ⟨hyear, hmonth, hday, hhour, hminute⟩ := hread
  have hlength : (FixedWidth.render dateLayout
      [t.year, t.month, t.day, t.hour, t.minute]).length = 17 := by
    simp [FixedWidth.render, dateLayout]
  rw [hlength] at hsecond
  have hbytes : ¬(written t tail).utf8ByteSize < 19 := by
    rw [written, Interpolation.utf8ByteSize_ofList, List.map_append, List.sum_append,
      (render_plain (fun c hc => (hlayout c hc).2.2) _).sum, hlength, List.map_append,
      List.sum_append, (plain_digits 2 t.second).sum, FixedWidth.length_digits]
    omega
  unfold rfc3339ToMillis
  rw [if_neg hbytes, written, String.toList_ofList]
  have hpart : (1 : Int) ≤ t.month ∧ (t.month : Int) ≤ 12 ∧ 1 ≤ (t.day : Int) ∧
      (t.day : Int) ≤ 31 := by omega
  simp only [hyear, hmonth, hday, hhour, hminute, hsecond, Option.bind_eq_bind, Option.bind_some,
    if_pos hpart]
  rfl

end Texts

section Count

def daysInYear (year : Nat) : Nat := ((List.range 12).map fun m => daysIn year (m + 1)).sum

/-- The days since the first of year 0, year by year and month by month. -/
def dayCount (t : DateTime) : Nat :=
  ((List.range t.year).map daysInYear).sum +
    ((List.range (t.month - 1)).map fun m => daysIn t.year (m + 1)).sum + (t.day - 1)

def secondCount (t : DateTime) : Nat :=
  dayCount t * 86400 + t.hour * 3600 + t.minute * 60 + t.second

def epoch : DateTime := ⟨1970, 1, 1, 0, 0, 0, 0, by decide⟩

theorem monthLengths_eq (year : Nat) :
    Calendar.monthLengths year = (List.range 12).map fun m => daysIn year (m + 1) := by
  have hleap : Calendar.isLeap year = isLeapYear year := by
    unfold Calendar.isLeap isLeapYear
    rw [Bool.eq_iff_iff]
    simp only [Bool.and_eq_true, Bool.or_eq_true, decide_eq_true_eq]
    omega
  unfold Calendar.monthLengths
  rw [hleap]
  rfl

theorem yearStart_eq (year : Nat) :
    Calendar.yearStart year = ((List.range year).map daysInYear).sum := by
  induction year with
  | zero => rfl
  | succ year ih =>
    have hnext := Calendar.sum_monthLengths year
    rw [monthLengths_eq] at hnext
    rw [List.range_succ, List.map_append, List.sum_append, Nat.cast_succ, hnext, ih]
    simp [daysInYear]

theorem dayNumber_eq (t : DateTime) : Calendar.dayNumber t.year t.month t.day = dayCount t := by
  have hvalid := t.valid
  have hbefore : (Calendar.monthLengths t.year).take (t.month - 1) =
      (List.range (t.month - 1)).map fun m => daysIn t.year (m + 1) := by
    rw [monthLengths_eq, ← List.map_take, List.take_range, Nat.min_eq_left (by omega)]
  rw [Calendar.dayNumber, dayCount, yearStart_eq, hbefore]
  rfl

theorem isDate (t : DateTime) : Calendar.IsDate t.year t.month t.day := by
  have hvalid := t.valid
  refine ⟨hvalid.2.1, hvalid.2.2.2.1, daysIn t.year t.month, ?_, hvalid.2.2.2.2.1⟩
  have hmonth : t.month - 1 + 1 = t.month := Nat.sub_add_cancel hvalid.2.1
  rw [monthLengths_eq, List.getElem?_map, List.getElem?_range (by omega), Option.map_some, hmonth]

theorem dayCount_lt (t u : DateTime) : dayCount t < dayCount u ↔
    t.year < u.year ∨ t.year = u.year ∧ (t.month < u.month ∨ t.month = u.month ∧ t.day < u.day) := by
  have hlt := Calendar.dayNumber_lt (isDate t) (isDate u)
  rw [dayNumber_eq, dayNumber_eq] at hlt
  omega

/-- The count goes up with the date and time. -/
theorem secondCount_lt (t u : DateTime) :
    t.wholeSecond < u.wholeSecond ↔ secondCount t < secondCount u := by
  have ht := t.valid
  have hu := u.valid
  have hdays := dayCount_lt t u
  have hdays' := dayCount_lt u t
  rw [DateTime.wholeSecond_lt]
  simp only [DateTime.civil, List.cons_lt_cons_iff, List.not_lt_nil, and_false, or_false]
  unfold secondCount
  omega

theorem secondCount_epoch : secondCount epoch = 719528 * 86400 := by
  have hday : Calendar.dayNumber epoch.year epoch.month epoch.day = (719528 : Nat) := rfl
  have hcount : dayCount epoch = 719528 :=
    Int.ofNat.inj ((dayNumber_eq epoch).symm.trans hday)
  rw [secondCount, hcount]
  rfl

theorem rfc3339ToMillis_count (t : DateTime) (tail : List Char) :
    rfc3339ToMillis (written t tail) =
      some (1000 * ((secondCount t : Int) - secondCount epoch)) := by
  have hvalid := t.valid
  rw [rfc3339ToMillis_written, daysFromCivil_eq t.year ⟨hvalid.2.1, hvalid.2.2.1⟩ hvalid.2.2.2.1,
    dayNumber_eq, secondCount_epoch, secondCount]
  refine congrArg some ?_
  omega

theorem durationMs_some {start finish : String} {a b : Int} (ha : rfc3339ToMillis start = some a)
    (hb : rfc3339ToMillis finish = some b) :
    durationMs start finish = if b - a < 0 then none else some (b - a) := by
  unfold durationMs
  rw [ha, hb]
  rfl

end Count

/-- The arithmetic is the calendar's: seconds since 1970, in the order of the dates, and
durations to the second. -/
theorem millis_civil (t u : DateTime) (tail tail' : List Char) :
    rfc3339ToMillis (written t tail) =
        some (1000 * ((secondCount t : Int) - secondCount epoch)) ∧
      (t.wholeSecond < u.wholeSecond ↔ ∃ a b, rfc3339ToMillis (written t tail) = some a ∧
        rfc3339ToMillis (written u tail') = some b ∧ a < b) ∧
      durationMs (written t tail) (written u tail') =
        if secondCount t ≤ secondCount u then
          some (1000 * ((secondCount u : Int) - secondCount t))
        else none := by
  have ht := rfc3339ToMillis_count t tail
  have hu := rfc3339ToMillis_count u tail'
  generalize secondCount epoch = base at ht hu ⊢
  refine ⟨ht, ?_, ?_⟩
  · rw [secondCount_lt, ht, hu]
    constructor
    · intro h
      exact ⟨_, _, rfl, rfl, by omega⟩
    · rintro ⟨a, b, ha, hb, hlt⟩
      have ha' := Option.some.inj ha
      have hb' := Option.some.inj hb
      omega
  · rw [durationMs_some ht hu]
    split
    · rename_i h
      rw [if_neg (by omega)]
    · rename_i h
      rw [if_pos (by omega)]
      refine congrArg some ?_
      omega

end Prospero.Proofs.CivilCalendar
