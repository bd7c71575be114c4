import Prospero.Lib.Calendar
import Prospero.Lib.FixedWidth
import Prospero.Store

namespace Prospero.RetentionAge

section Instants

def nanosPerDay : Int := 86400000000000

/-- The days of an instant, in nanoseconds since 1970, from the first of year 0. -/
def dayOf (t : Int) : Int := t / nanosPerDay + 719528

def nanoOfDay (t : Int) : Nat := (t % nanosPerDay).toNat

def yearOf (t : Int) : Int := Calendar.yearOf (dayOf t)

/-- Month, day, hour and minute. -/
def columns (t : Int) : List Nat :=
  [(Calendar.monthDay (dayOf t)).1, (Calendar.monthDay (dayOf t)).2,
    nanoOfDay t / 3600000000000, nanoOfDay t / 60000000000 % 60]

def secondOf (t : Int) : Nat := nanoOfDay t / 1000000000 % 60

def nanosecondOf (t : Int) : Nat := nanoOfDay t % 1000000000

/-- The first instant of the first year, and the last of the last. -/
def minUtc : Int := (Calendar.yearStart (-262143) - 719528) * nanosPerDay

def maxUtc : Int := (Calendar.yearStart 262143 - 719528) * nanosPerDay - 1

end Instants

section Rfc3339

def yearWidth (year : Nat) : Nat :=
  if year < 10000 then 4 else if year < 100000 then 5 else 6

/-- Four digits, or a sign and at least four. -/
def yearText (year : Int) : List Char :=
  if 0 ≤ year ∧ year ≤ 9999 then FixedWidth.digits 4 year.toNat
  else (if year < 0 then '-' else '+') ::
    FixedWidth.digits (yearWidth year.natAbs) year.natAbs

/-- Nothing, or three, six or nine digits, as many as it takes. -/
def fraction (nanosecond : Nat) : List Char :=
  if nanosecond = 0 then []
  else if nanosecond % 1000000 = 0 then '.' :: FixedWidth.digits 3 (nanosecond / 1000000)
  else if nanosecond % 1000 = 0 then '.' :: FixedWidth.digits 6 (nanosecond / 1000)
  else '.' :: FixedWidth.digits 9 nanosecond

def layout : List (Nat × Char) := [(2, '-'), (2, 'T'), (2, ':'), (2, ':')]

def rfc3339 (t : Int) : String :=
  String.ofList (yearText (yearOf t) ++ '-' :: (FixedWidth.render layout (columns t) ++
    (FixedWidth.digits 2 (secondOf t) ++ (fraction (nanosecondOf t) ++ "+00:00".toList))))

end Rfc3339

/-- What is used of the crate `chrono`; instants and durations are in nanoseconds. -/
structure Chrono where
  /-- `Duration::from_std` of whole seconds. -/
  fromStd : Nat → Option Int
  /-- `DateTime - Duration`, which may panic. -/
  sub : Int → Int → Option Int
  toRfc3339 : Int → String

/-- Its documentation: a duration has at most `i64::MAX` milliseconds, a difference that is
no date panics, and the offset is written out. -/
structure Chrono.Documented (c : Chrono) : Prop where
  fromStd : ∀ secs, c.fromStd secs =
    if secs * 1000 ≤ 2 ^ 63 - 1 then some ((secs : Int) * 1000000000) else none
  sub : ∀ t d, c.sub t d = if minUtc ≤ t - d ∧ t - d ≤ maxUtc then some (t - d) else none
  toRfc3339 : ∀ t, minUtc ≤ t → t ≤ maxUtc → c.toRfc3339 t = rfc3339 t

inductive Backend
  | jsonl
  | sqlite
  | postgres
deriving DecidableEq

/-- `Store::prune`: what is left, and how many are gone. -/
def Backend.prune (beforeTs : String) (log : List FleetEvent) : Backend → List FleetEvent × Nat
  | .jsonl =>
    let kept := log.filter fun e => beforeTs ≤ e.ts
    -- with nothing to remove the file is not written
    if log.length - kept.length = 0 then (log, 0) else (kept, log.length - kept.length)
  | .sqlite | .postgres =>
    (log.filter (Store.survives beforeTs),
      (log.filter fun e => !Store.survives beforeTs e).length)

/-- What `Utc::now()` returns; it panics before 1970. -/
structure Reading where
  instant : Int
  valid : 0 ≤ instant ∧ instant ≤ maxUtc

/-- An event with the emitter's `Utc::now().to_rfc3339()`. -/
structure Rendered (c : Chrono) where
  event : FleetEvent
  clock : Reading
  ts : event.ts = c.toRfc3339 clock.instant

end Prospero.RetentionAge
