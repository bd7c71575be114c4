import Prospero.Lib.Checks
import Prospero.Proofs.RetentionAge
import Prospero.Proofs.Reporting
import Prospero.UsageWindow

namespace Prospero.Proofs.UsageWindow
open Prospero.UsageWindow
open Prospero.RetentionAge (Reading columns dayOf maxUtc minUtc nanoOfDay nanosPerDay nanosecondOf
  secondOf yearOf yearText layout)
open Proofs.RetentionAge (InOrder after columns_fit noon rest)

section Instants

/-- The clock is short of a moment. No reading is in a leap second. -/
def Before (t : Int) (m : Moment) : Prop :=
  t / 1000000000 < m.second ∨ t / 1000000000 = m.second ∧ t % 1000000000 < m.frac

instance (t : Int) (m : Moment) : Decidable (Before t m) := by
  unfold Before
  infer_instance

variable (m : Moment) {f : Nat}

theorem dayOf_base (hf : f < 1000000000) : dayOf (m.base + f) = dayOf m.base := by
  unfold dayOf nanosPerDay Moment.base
  omega

theorem nanoOfDay_base (hf : f < 1000000000) : nanoOfDay (m.base + f) = nanoOfDay m.base + f := by
  unfold nanoOfDay nanosPerDay Moment.base
  omega

theorem nanoOfDay_second : nanoOfDay m.base = (m.second % 86400).toNat * 1000000000 := by
  unfold nanoOfDay nanosPerDay Moment.base
  omega

theorem columns_base (hf : f < 1000000000) : columns (m.base + f) = columns m.base := by
  have hnano := nanoOfDay_second m
  have hhour : (nanoOfDay m.base + f) / 3600000000000 = nanoOfDay m.base / 3600000000000 := by
    rw [hnano]
    omega
  have hminute : (nanoOfDay m.base + f) / 60000000000 = nanoOfDay m.base / 60000000000 := by
    rw [hnano]
    omega
  rw [columns, columns, dayOf_base m hf, nanoOfDay_base m hf, hhour, hminute]

theorem secondOf_base (hf : f < 1000000000) : secondOf (m.base + f) = secondOf m.base := by
  have hnano := nanoOfDay_second m
  rw [secondOf, secondOf, nanoOfDay_base m hf, hnano]
  omega

theorem nanosecondOf_base (hf : f < 1000000000) : nanosecondOf (m.base + f) = f := by
  have hnano := nanoOfDay_second m
  rw [nanosecondOf, nanoOfDay_base m hf, hnano]
  omega

theorem yearOf_base (hf : f < 1000000000) : yearOf (m.base + f) = yearOf m.base := by
  rw [yearOf, yearOf, dayOf_base m hf]

theorem frac_lt : m.frac < 2000000000 := by
  rcases m.leap with hplain | hleap
  · omega
  · exact hleap.2

/-- A leap second follows the last second of a minute. -/
theorem secondOf_leap (h : 1000000000 ≤ m.frac) : secondOf m.base = 59 := by
  have hsecond : m.second % 60 = 59 := by
    rcases m.leap with hplain | hleap
    · omega
    · exact hleap.1
  have hnano := nanoOfDay_second m
  rw [secondOf, hnano]
  omega

/-- What stands after the year. -/
def stamp : List Char :=
  after (columns m.base) (secondOf m.base + m.frac / 1000000000) (m.frac % 1000000000)

theorem stamp_plain (h : m.frac < 1000000000) : stamp m = rest (m.base + m.frac) := by
  rw [stamp, rest, columns_base m h, secondOf_base m h, nanosecondOf_base m h,
    Nat.div_eq_of_lt h, Nat.mod_eq_of_lt h, Nat.add_zero]

theorem rest_lt_stamp (t : Int) : rest t < stamp m ↔
    columns t < columns m.base ∨ columns t = columns m.base ∧
      (secondOf t < secondOf m.base + m.frac / 1000000000 ∨
        secondOf t = secondOf m.base + m.frac / 1000000000 ∧
          nanosecondOf t < m.frac % 1000000000) := by
  have hfrac := frac_lt m
  have hsecond := Proofs.RetentionAge.secondOf_lt m.base
  have hsecond' := Proofs.RetentionAge.secondOf_lt t
  exact Proofs.RetentionAge.after_lt (columns_fit t) (columns_fit m.base) (by omega) (by omega)
    (Proofs.RetentionAge.nanosecondOf_lt t) (Nat.mod_lt _ (by decide))

/-- Moments come in the order of their years and of what is written after them. -/
theorem before_iff (t : Int) : Before t m ↔
    yearOf t < yearOf m.base ∨ yearOf t = yearOf m.base ∧ rest t < stamp m := by
  rcases Nat.lt_or_ge m.frac 1000000000 with hplain | hleap
  · have hbefore : Before t m ↔ t < m.base + m.frac := by
      unfold Before Moment.base
      omega
    rw [hbefore, Proofs.RetentionAge.lt_iff_rest, yearOf_base m hplain, stamp_plain m hplain]
  · -- it comes after every instant of its last second
    have hbefore : Before t m ↔ ¬m.base + (999999999 : Nat) < t := by
      have hfrac := frac_lt m
      unfold Before Moment.base
      omega
    have hsecond := secondOf_leap m hleap
    have hlast := Proofs.RetentionAge.secondOf_lt t
    have hnano := Proofs.RetentionAge.nanosecondOf_lt t
    rw [hbefore, Proofs.RetentionAge.lt_iff, yearOf_base m (by decide), columns_base m (by decide),
      secondOf_base m (by decide), nanosecondOf_base m (by decide), hsecond, rest_lt_stamp, hsecond]
    have hclock : ¬(59 < secondOf t ∨ 59 = secondOf t ∧ 999999999 < nanosecondOf t) := by omega
    have hclock' : secondOf t < 59 + m.frac / 1000000000 := by omega
    rcases lt_trichotomy (yearOf t) (yearOf m.base) with hyear | hyear | hyear
    · have hne : ¬yearOf m.base < yearOf t := by omega
      have hne' : ¬yearOf m.base = yearOf t := by omega
      simp [hyear, hne, hne']
    · rcases lt_trichotomy (columns t) (columns m.base) with hcol | hcol | hcol
      · simp [hyear, hcol, lt_asymm hcol, ne_of_gt hcol]
      · simp only [hyear, hcol, lt_irrefl, hclock, hclock', true_and, false_or, true_or, and_false,
          not_false_eq_true]
      · simp [hyear, hcol, lt_asymm hcol, ne_of_gt hcol]
    · have hne : ¬yearOf t < yearOf m.base := by omega
      have hne' : ¬yearOf t = yearOf m.base := by omega
      simp [hyear, hne, hne']

end Instants

section Texts

variable {c : Chrono} (clock : Reading) (m : Moment)

theorem rfc3339_toList : m.rfc3339.toList = yearText (yearOf m.base) ++ '-' :: stamp m :=
  String.toList_ofList

theorem base_now : (now clock).base + (now clock).frac = clock.instant := by
  simp only [now, Moment.ofNanos, Moment.base]
  omega

theorem now_rfc3339 : (now clock).rfc3339 = RetentionAge.rfc3339 clock.instant := by
  have hfrac : (now clock).frac < 1000000000 := by
    simp only [now, Moment.ofNanos]
    omega
  have hyear := yearOf_base (now clock) hfrac
  have hstamp := stamp_plain (now clock) hfrac
  rw [base_now] at hyear hstamp
  apply String.toList_inj.mp
  rw [rfc3339_toList, hstamp, ← hyear]
  exact String.toList_ofList.symm

/-- The text of a reading sorts before a moment's exactly when it should, or where the years
are out of order and it should not. -/
theorem text_lt : (now clock).rfc3339 < m.rfc3339 ↔
    (Before clock.instant m ↔ InOrder (yearOf clock.instant) (yearOf m.base)) := by
  have hclock := Proofs.RetentionAge.year_clock clock.valid.1
  have hlast := Proofs.RetentionAge.year_max clock.valid.2
  have hlast' : yearOf m.base ≤ 262142 := Proofs.RetentionAge.year_max m.range.2
  have hlist : (RetentionAge.rfc3339 clock.instant).toList =
      yearText (yearOf clock.instant) ++ '-' :: rest clock.instant := String.toList_ofList
  rw [now_rfc3339, String.lt_iff_toList_lt, hlist, rfc3339_toList,
    Proofs.RetentionAge.dated_lt hclock hlast hlast', ← before_iff]

theorem now_inj {clock clock' : Reading} (h : (now clock).rfc3339 = (now clock').rfc3339) :
    clock.instant = clock'.instant := by
  rw [now_rfc3339, now_rfc3339] at h
  exact Proofs.RetentionAge.rfc3339_inj h

end Texts

section Columns

theorem digits_ascii (w n : Nat) : ∀ ch ∈ FixedWidth.digits w n, ch.toNat < 128 :=
  FixedWidth.digits_forall (by decide) w n

theorem yearText_ascii (year : Int) : ∀ ch ∈ yearText year, ch.toNat < 128 := by
  unfold RetentionAge.yearText
  split
  · exact digits_ascii _ _
  · rw [List.forall_mem_cons]
    refine ⟨?_, digits_ascii _ _⟩
    split <;> decide

theorem render_ascii (t : Int) :
    ∀ ch ∈ FixedWidth.render layout (columns t), ch.toNat < 128 := by
  simp only [FixedWidth.render, layout, columns, List.forall_mem_append, List.forall_mem_cons]
  refine ⟨digits_ascii _ _, by decide, digits_ascii _ _, by decide, digits_ascii _ _, by decide,
    digits_ascii _ _, by decide, ?_⟩
  simp

/-- The day column of a reading's text has ten bytes. -/
theorem substr10_now (clock : Reading) :
    (UsageQuery.substr10 (now clock).rfc3339).utf8ByteSize = 10 := by
  have hlist := rfc3339_toList (now clock)
  rw [stamp, after, ← List.cons_append, ← List.append_assoc] at hlist
  have hrender : (FixedWidth.render layout (columns (now clock).base)).length = 12 := by
    simp [FixedWidth.render, layout, columns]
  have hdate : 10 ≤ (yearText (yearOf (now clock).base) ++
      '-' :: FixedWidth.render layout (columns (now clock).base)).length := by
    rw [List.length_append, List.length_cons, hrender]
    omega
  apply Proofs.UsageQuery.substr10_size
  · rw [← String.length_toList, hlist, List.length_append]
    omega
  · rw [hlist, List.take_append_of_le_length hdate]
    intro ch hch
    rcases List.mem_append.mp (List.mem_of_mem_take hch) with hch | hch
    · exact yearText_ascii _ ch hch
    · rcases List.mem_cons.mp hch with rfl | hch
      · decide
      · exact render_ascii _ ch hch

end Columns

section Window

variable {c : Chrono}

/-- What a query stands for, at a reading of the clock. -/
structure Means (c : Chrono) (q : UsageQuery) (clock : Reading) (since till : Moment) : Prop where
  ends : q.till.elim (till = now clock) fun raw => c.parseFromRfc3339 raw = .ok till
  starts : q.since.elim
    (∃ h, since = .ofNanos (till.base + till.frac - max (q.days.getD 7) 1 * nanosPerDay) h)
    fun raw => c.parseFromRfc3339 raw = .ok since

theorem parseBound_ok {debug : String → String} {name raw : String} {m : Moment} :
    parseBound c debug name raw = .ok m ↔ c.parseFromRfc3339 raw = .ok m := by
  unfold parseBound
  cases c.parseFromRfc3339 raw with
  | ok t => simp
  | error e => simp

variable {debug : String → String} {q : UsageQuery} {clock : Reading}

theorem resolveTill_ok {till : Moment} (h : resolveTill c debug q clock = .ok till) :
    q.till.elim (till = now clock) fun raw => c.parseFromRfc3339 raw = .ok till := by
  unfold resolveTill at h
  cases hq : q.till with
  | none =>
    rw [hq] at h
    exact (Except.ok.inj h).symm
  | some raw =>
    rw [hq] at h
    exact parseBound_ok.mp h

theorem resolveSince_ok (hc : c.Documented) {since till : Moment}
    (h : resolveSince c debug q till = .ok since) : q.since.elim
      (∃ h, since = .ofNanos (till.base + till.frac - max (q.days.getD 7) 1 * nanosPerDay) h)
      fun raw => c.parseFromRfc3339 raw = .ok since := by
  unfold resolveSince at h
  cases hq : q.since with
  | some raw =>
    rw [hq] at h
    exact parseBound_ok.mp h
  | none =>
    rw [hq] at h
    simp only at h
    split at h
    · cases h
    · have hday : 1000000000 ≤ max (q.days.getD defaultUsageWindowDays) 1 * nanosPerDay := by
        unfold nanosPerDay
        omega
      rw [hc.checkedSubSigned _ _ hday] at h
      split at h
      · rename_i hsub
        split at hsub
        · rename_i hrange
          cases h
          exact ⟨hrange, (Option.some.inj hsub).symm⟩
        · cases hsub
      · cases h

/-- An accepted query has its bounds written out. -/
theorem usageWindow_ok (hc : c.Documented) {since till : String}
    (h : usageWindow c debug q clock = .ok (since, till)) :
    ∃ s u, Means c q clock s u ∧ since = s.rfc3339 ∧ till = u.rfc3339 := by
  obtain ⟨u, htill, h⟩ := Checks.bind_eq_ok.mp h
  obtain ⟨s, hsince, h⟩ := Checks.bind_eq_ok.mp h
  cases h
  exact ⟨s, u, ⟨resolveTill_ok htill, resolveSince_ok hc hsince⟩, hc.toRfc3339 s, hc.toRfc3339 u⟩

/-- The event's clock is in the window. -/
def within (s u : Moment) (r : Rendered c) : Bool :=
  !decide (Before r.clock.instant s) && decide (Before r.clock.instant u)

def events (log : List (Rendered c)) : List FleetEvent := log.map Rendered.event

/-- Both stores come to the report over exactly the events of the window. -/
def ByInstant (log : List (Rendered c)) (since till : String) (s u : Moment) : Prop :=
  UsageQuery.window (events log) since till = events (log.filter (within s u)) ∧
    Reporting.jsonlUsage (events log) since till =
      Usage.aggregateUsage (events (log.filter (within s u))) ∧
    UsageQuery.sqliteUsage ((events log).map UsageQuery.EventRow.of) since till =
      .ok (Usage.aggregateUsage (events (log.filter (within s u))))

/-- An event's year sorts against those of both bounds; or against one or neither, where the
other bound, or both together, keep the event out. -/
def Sorts (t : Int) (s u : Moment) : Prop :=
  InOrder (yearOf t) (yearOf s.base) ∧ InOrder (yearOf t) (yearOf u.base) ∨
    InOrder (yearOf t) (yearOf s.base) ∧ ¬InOrder (yearOf t) (yearOf u.base) ∧ Before t s ∨
    ¬InOrder (yearOf t) (yearOf s.base) ∧ InOrder (yearOf t) (yearOf u.base) ∧ ¬Before t u ∨
    ¬InOrder (yearOf t) (yearOf s.base) ∧ ¬InOrder (yearOf t) (yearOf u.base) ∧
      (Before t s ↔ Before t u)

theorem inWindow_iff (hc : c.Documented) (r : Rendered c) (s u : Moment) :
    UsageQuery.inWindow s.rfc3339 u.rfc3339 r.event.ts = within s u r ↔
      Sorts r.clock.instant s u := by
  have hs := text_lt r.clock s
  have hu := text_lt r.clock u
  rw [UsageQuery.inWindow, within, r.ts, hc.toRfc3339, Sorts, Bool.eq_iff_iff]
  simp only [Bool.and_eq_true, Bool.not_eq_true', decide_eq_true_eq, decide_eq_false_iff_not, hs,
    hu]
  by_cases hbs : Before r.clock.instant s <;> by_cases hbu : Before r.clock.instant u <;>
    by_cases hos : InOrder (yearOf r.clock.instant) (yearOf s.base) <;>
      by_cases hou : InOrder (yearOf r.clock.instant) (yearOf u.base) <;>
        simp [hbs, hbu, hos, hou]

/-- A window selects by the instant exactly where the years sort, or do not matter. -/
theorem byInstant_iff (hc : c.Documented) (log : List (Rendered c)) (s u : Moment) :
    ByInstant log s.rfc3339 u.rfc3339 s u ↔ ∀ r ∈ log, Sorts r.clock.instant s u := by
  have hsame : ∀ r ∈ log, ∀ r' ∈ log, r.event = r'.event → within s u r = within s u r' := by
    intro r _ r' _ hrr
    have hinstant : r.clock.instant = r'.clock.instant := by
      apply now_inj
      rw [← hc.toRfc3339, ← hc.toRfc3339, ← r.ts, ← r'.ts, hrr]
    rw [within, within, hinstant]
  have hselected : UsageQuery.window (events log) s.rfc3339 u.rfc3339 =
      events (log.filter (within s u)) ↔ ∀ r ∈ log, Sorts r.clock.instant s u := by
    simp only [← inWindow_iff hc]
    exact Proofs.RetentionAge.filter_map_eq_iff hsame
  rw [← hselected]
  constructor
  · intro h
    exact h.1
  · intro h
    refine ⟨h, congrArg Usage.aggregateUsage h, ?_⟩
    rw [UsageQuery.sqliteUsage, Proofs.UsageQuery.sqlite_reads.query_eq,
      Proofs.UsageQuery.report_eq_fold]
    · exact congrArg (fun es => Except.ok (Usage.aggregateUsage es)) h
    · intro e he _
      obtain ⟨r, -, rfl⟩ := List.mem_map.mp (List.mem_filter.mp he).1
      rw [r.ts, hc.toRfc3339]
      exact substr10_now r.clock

end Window

theorem window_by_instant_iff (c : Chrono) (hc : c.Documented) (debug : String → String)
    (q : UsageQuery) (clock : Reading) (since till : String)
    (h : usageWindow c debug q clock = .ok (since, till)) :
    ∃ s u, Means c q clock s u ∧ ∀ log : List (Rendered c),
      ByInstant log since till s u ↔ ∀ r ∈ log, Sorts r.clock.instant s u := by
  obtain ⟨s, u, hmeans, rfl, rfl⟩ := usageWindow_ok hc h
  exact ⟨s, u, hmeans, fun log => byInstant_iff hc log s u⟩

section Sample

def newYear : Moment := .ofNanos 1767225600000000000 (by decide)

/-- The last second of the year 9999 at the westernmost offset is one of the year 10000. -/
def farEnd : Moment := .ofNanos 253402387139000000000 (by decide)

def chrono : Chrono where
  parseFromRfc3339 raw :=
    if raw = "2026-01-01T00:00:00Z" then .ok newYear
    else if raw = "9999-12-31T23:59:59-23:59" then .ok farEnd
    else .error "premature end of input"
  checkedSubSigned m d :=
    if h : minUtc ≤ m.base + m.frac - d ∧ m.base + m.frac - d ≤ maxUtc then
      some (.ofNanos (m.base + m.frac - d) h)
    else none
  toRfc3339 := Moment.rfc3339

theorem chrono_documented : chrono.Documented := ⟨fun _ _ _ => rfl, fun _ => rfl⟩

theorem window_by_instant_week :
    ∃ s u, Means chrono ⟨none, none, none⟩ noon s u ∧ ∀ log : List (Rendered chrono),
      ByInstant log "2025-12-26T12:00:00+00:00" "2026-01-02T12:00:00+00:00" s u ↔
        ∀ r ∈ log, Sorts r.clock.instant s u :=
  window_by_instant_iff chrono chrono_documented id ⟨none, none, none⟩ noon
    "2025-12-26T12:00:00+00:00" "2026-01-02T12:00:00+00:00" rfl

def eleven : Reading := ⟨1767351600000000000, by decide⟩

theorem eleven_rfc3339 : chrono.toRfc3339 (now eleven) = "2026-01-02T11:00:00+00:00" := rfl

/-- An agent that is done an hour before. -/
def recent : Rendered chrono where
  event := ⟨1, "2026-01-02T11:00:00+00:00", "one", "a", .statusChanged .running .done, none, none⟩
  clock := eleven
  ts := eleven_rfc3339.symm

/-- Everything since the new year, with the end as far out as it goes. -/
def wide : UsageQuery := ⟨some "2026-01-01T00:00:00Z", some "9999-12-31T23:59:59-23:59", none⟩

/-- Its end is written with a plus, and no event sorts before it. -/
theorem offset_end_empties_window :
    usageWindow chrono id wide noon =
        .ok ("2026-01-01T00:00:00+00:00", "+10000-01-01T23:58:59+00:00") ∧
      Means chrono wide noon newYear farEnd ∧ within newYear farEnd recent = true ∧
      Reporting.jsonlUsage [recent.event] "2026-01-01T00:00:00+00:00"
        "+10000-01-01T23:58:59+00:00" = [] ∧
      (Usage.aggregateUsage [recent.event]).length = 1 ∧
      ¬ByInstant [recent] "2026-01-01T00:00:00+00:00" "+10000-01-01T23:58:59+00:00" newYear
        farEnd := by
  refine ⟨rfl, ⟨rfl, rfl⟩, by decide, by decide, by decide, ?_⟩
  intro h
  have hlength := congrArg List.length h.1
  revert hlength
  decide

end Sample

end Prospero.Proofs.UsageWindow
