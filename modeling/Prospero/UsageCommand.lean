import Prospero.Auth
import Prospero.Lib.Percent
import Prospero.UsageWindow

namespace Prospero.UsageCommand
open Automations (trim)
open RetentionAge (Reading maxUtc minUtc nanosPerDay)
open UsageWindow (Moment UsageQuery maxUsageWindowDays usageWindow)

/-- A `NaiveDate`, in days since 1970. -/
structure Date where
  day : Int
  range : minUtc ≤ day * nanosPerDay ∧ day * nanosPerDay ≤ maxUtc

/-- `to_rfc3339_opts(SecondsFormat::Secs, false)`: whole seconds, and the offset written out. -/
def rfc3339Secs (m : Moment) : String :=
  String.ofList (RetentionAge.yearText (RetentionAge.yearOf m.base) ++ '-' ::
    (FixedWidth.render RetentionAge.layout (RetentionAge.columns m.base) ++
      (FixedWidth.digits 2 (RetentionAge.secondOf m.base + m.frac / 1000000000) ++
        "+00:00".toList)))

/-- What is used of the crates `chrono` and `form_urlencoded`. -/
structure Crates where
  chrono : UsageWindow.Chrono
  /-- `NaiveDate::parse_from_str` with `%Y-%m-%d`. -/
  parseFromStr : String → Option Date
  fromUtf8Lossy : List UInt8 → String

section Command

variable (c : Crates) (debug : String → String)

def maxDays : Nat := maxUsageWindowDays.toNat

/-- `Nd` or `Nw`, if it is one of the two. -/
def dayCount (s : List Char) : Except String (Option Nat) :=
  match s.getLast? with
  | none => .ok none
  | some unit =>
    match Decimal.parse (2 ^ 64) (String.ofList s.dropLast) with
    | none => .ok none
    | some n =>
      if unit ∈ ['h', 'm', 's'] then
        .error ("--since " ++ String.ofList s ++ ": usage is recorded per UTC day, so it can " ++
          "only look back whole days (try 1d)")
      else if unit ≠ 'd' ∧ unit ≠ 'w' then .ok none
      else
        -- `checked_mul` leaves nothing of a product that does not fit
        match if unit = 'd' then some n else if n * 7 < 2 ^ 64 then some (n * 7) else none with
        | some 0 =>
          .error ("--since " ++ String.ofList s ++ ": the window must be at least one day")
        | some d =>
          if d ≤ maxDays then .ok (some d)
          else .error s!"--since {String.ofList s}: at most {maxDays} days"
        | none => .error s!"--since {String.ofList s}: at most {maxDays} days"

/-- A plus sign that stands bare in a query is a blank. -/
def stamp (m : Moment) : List Char :=
  (rfc3339Secs m).toList.flatMap fun x => if x = '+' then "%2B".toList else [x]

end Command

section Request

variable (c : Crates) (debug : String → String)

/-- A name or a value of a query: blanks are written as plus signs. -/
def formText (text : List Char) : String :=
  c.fromUtf8Lossy (Percent.decode (text.map fun x => if x = '+' then ' ' else x))

/-- Pairs stand between ampersands; what is nothing is no pair. -/
def formPairs (query : List Char) : List (String × String) :=
  ((query.splitOn '&').filter (· ≠ [])).map fun pair =>
    (formText c (pair.takeWhile (· ≠ '=')), formText c ((pair.dropWhile (· ≠ '=')).drop 1))

/-- A field may be given once. -/
def field (pairs : List (String × String)) (name : String) : Option (Option String) :=
  match pairs.filter fun pair => pair.1 = name with
  | [] => some none
  | [pair] => some (some pair.2)
  | _ => none

/-- `Query<UsageQuery>`, absent where it is refused. -/
def usageQuery (query : List Char) : Option UsageQuery := do
  let pairs := formPairs c query
  let since ← field pairs "since"
  let till ← field pairs "until"
  let days ← field pairs "days"
  match days with
  | none => return ⟨since, till, none⟩
  | some text => return ⟨since, till, some (← Auth.parseInt64 text.toList)⟩

/-- The window that a request's usage is summed over. -/
def getUsage (path : List Char) (clock : Reading) : Option (Except String (String × String)) :=
  (usageQuery c ((path.dropWhile (· ≠ '?')).drop 1)).map fun q =>
    usageWindow c.chrono debug q clock

end Request

/-- What the documentation says of them. Only four digits of a year are read back. -/
structure Crates.Documented (c : Crates) : Prop where
  chrono : c.chrono.Documented
  read : ∀ m : Moment, 0 ≤ RetentionAge.yearOf m.base → RetentionAge.yearOf m.base ≤ 9999 →
    c.chrono.parseFromRfc3339 m.rfc3339 = .ok m
  signed : ∀ text : String, text.toList.head? = some '+' ∨ text.toList.head? = some '-' →
    ∃ e, c.chrono.parseFromRfc3339 text = .error e
  fromUtf8Lossy : ∀ s : String, c.fromUtf8Lossy (Lines.encode s) = s

end Prospero.UsageCommand
