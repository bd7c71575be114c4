import Prospero.Reporting
import Prospero.RetentionAge

namespace Prospero.UsageWindow
open RetentionAge (Reading maxUtc minUtc nanosPerDay yearOf)

/-- A `DateTime<Utc>`: a second since 1970 and the nanoseconds into it, with those of a leap
second after it counted on. -/
structure Moment where
  second : Int
  frac : Nat
  leap : frac < 1000000000 ∨ second % 60 = 59 ∧ frac < 2000000000
  range : minUtc ≤ second * 1000000000 ∧ second * 1000000000 ≤ maxUtc

namespace Moment

/-- Where its second begins, in nanoseconds since 1970. -/
def base (m : Moment) : Int := m.second * 1000000000

def ofNanos (t : Int) (h : minUtc ≤ t ∧ t ≤ maxUtc) : Moment where
  second := t / 1000000000
  frac := (t % 1000000000).toNat
  leap := by omega
  range := by
    have hmin : minUtc = -8334601228800000000000 := by decide
    omega

/-- A leap second is written as the 60th of its minute. -/
def rfc3339 (m : Moment) : String :=
  String.ofList (RetentionAge.yearText (yearOf m.base) ++ '-' ::
    (FixedWidth.render RetentionAge.layout (RetentionAge.columns m.base) ++
      (FixedWidth.digits 2 (RetentionAge.secondOf m.base + m.frac / 1000000000) ++
        (RetentionAge.fraction (m.frac % 1000000000) ++ "+00:00".toList))))

/-- `to_rfc3339_opts(SecondsFormat::Secs, true)`: whole seconds and a literal `Z`. -/
def stamp (m : Moment) : String :=
  String.ofList (RetentionAge.yearText (yearOf m.base) ++ '-' ::
    (FixedWidth.render RetentionAge.layout (RetentionAge.columns m.base) ++
      (FixedWidth.digits 2 (RetentionAge.secondOf m.base + m.frac / 1000000000) ++ ['Z'])))

end Moment

def now (clock : Reading) : Moment := .ofNanos clock.instant
  ⟨le_trans (by decide) clock.valid.1, clock.valid.2⟩

/-- What is used of the crate `chrono`; durations are in nanoseconds. -/
structure Chrono where
  /-- `DateTime::parse_from_rfc3339`, in UTC. -/
  parseFromRfc3339 : String → Except String Moment
  checkedSubSigned : Moment → Int → Option Moment
  toRfc3339 : Moment → String

/-- Its documentation: a difference of a second or more leaves a leap second behind and is a
date or nothing, and the offset is written out. -/
structure Chrono.Documented (c : Chrono) : Prop where
  checkedSubSigned : ∀ m d, 1000000000 ≤ d → c.checkedSubSigned m d =
    if h : minUtc ≤ m.base + m.frac - d ∧ m.base + m.frac - d ≤ maxUtc then
      some (.ofNanos (m.base + m.frac - d) h)
    else none
  toRfc3339 : ∀ m, c.toRfc3339 m = m.rfc3339

structure UsageQuery where
  since : Option String
  till : Option String
  days : Option Int
deriving DecidableEq

def defaultUsageWindowDays : Int := 7

def maxUsageWindowDays : Int := 36500

section Resolve

variable (c : Chrono) (debug : String → String)

def parseBound (name raw : String) : Except String Moment :=
  match c.parseFromRfc3339 raw with
  | .ok t => .ok t
  | .error e => .error (name ++ ": " ++ debug raw ++ " is not an RFC-3339 timestamp (" ++ e ++ ")")

def resolveTill (q : UsageQuery) (clock : Reading) : Except String Moment :=
  match q.till with
  | some raw => parseBound c debug "until" raw
  | none => .ok (now clock)

def resolveSince (q : UsageQuery) (till : Moment) : Except String Moment :=
  match q.since with
  | some raw => parseBound c debug "since" raw
  | none =>
    let back := max (q.days.getD defaultUsageWindowDays) 1
    if back > maxUsageWindowDays then .error s!"days: at most {maxUsageWindowDays}, got {back}"
    else match c.checkedSubSigned till (back * nanosPerDay) with
      | some since => .ok since
      | none => .error s!"days: {back} reaches before any representable date"

/-- The bounds that the store is asked for. -/
def usageWindow (q : UsageQuery) (clock : Reading) : Except String (String × String) := do
  let till ← resolveTill c debug q clock
  let since ← resolveSince c debug q till
  return (c.toRfc3339 since, c.toRfc3339 till)

end Resolve

/-- An event with the emitter's `Utc::now().to_rfc3339()`. -/
structure Rendered (c : Chrono) where
  event : FleetEvent
  clock : Reading
  ts : event.ts = c.toRfc3339 (now clock)

end Prospero.UsageWindow
