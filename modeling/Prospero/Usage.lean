import Mathlib.Algebra.BigOperators.Group.List.Basic
import Mathlib.Algebra.GroupWithZero.Nat
import Mathlib.Data.Rat.Defs
import Prospero.Event

namespace Prospero.Usage

/-- What one workspace did on one UTC day. Costs are added without rounding. -/
structure UsageRow where
  workspace : String
  day : String
  costUsd : Rat
  turns : Nat
  done : Nat
  failed : Nat
  killed : Nat
  crashed : Nat
  timedOut : Nat
deriving DecidableEq

/-- `ts.get(..10)`: the first ten bytes, when a character ends there. -/
def dayOf (ts : String) : Option String :=
  if (⟨10⟩ : String.Pos.Raw).isValid ts then some (String.Pos.Raw.extract ts 0 ⟨10⟩) else none

/-- Only these open a row. -/
def interesting : EventKind → Bool
  | .agentFinished .. | .agentTimedOut _ => true
  | .statusChanged _ toStatus => toStatus.isTerminal
  | _ => false

namespace UsageRow

def new (workspace day : String) : UsageRow :=
  ⟨workspace, day, 0, 0, 0, 0, 0, 0, 0⟩

def count (row : UsageRow) : EventKind → UsageRow
  | .agentFinished _ costUsd turns =>
    { row with costUsd := row.costUsd + costUsd, turns := row.turns + turns }
  | .statusChanged _ .done => { row with done := row.done + 1 }
  | .statusChanged _ .failed => { row with failed := row.failed + 1 }
  | .statusChanged _ .killed => { row with killed := row.killed + 1 }
  | .statusChanged _ .crashed => { row with crashed := row.crashed + 1 }
  | .agentTimedOut _ => { row with timedOut := row.timedOut + 1 }
  | _ => row

/-- The agents that reached a terminal status. -/
def outcomes (row : UsageRow) : Nat := row.done + row.failed + row.killed + row.crashed

/-- The order of a `BTreeMap` with `(workspace, day)` for its keys. -/
def before (row : UsageRow) (workspace day : String) : Bool :=
  row.workspace < workspace || (row.workspace = workspace && row.day < day)

end UsageRow

/-- `rows.entry((repo, day)).or_insert_with(..)`, and the event counted there. -/
def entry (repo day : String) (kind : EventKind) : List UsageRow → List UsageRow
  | [] => [(UsageRow.new repo day).count kind]
  | row :: rows =>
    if row.workspace = repo ∧ row.day = day then row.count kind :: rows
    else if row.before repo day then row :: entry repo day kind rows
    else (UsageRow.new repo day).count kind :: row :: rows

/-- One turn of the loop over the events. -/
def countEvent (rows : List UsageRow) (e : FleetEvent) : List UsageRow :=
  match dayOf e.ts with
  | none => rows
  | some day => if interesting e.kind then entry e.repo day e.kind rows else rows

def aggregateUsage (events : List FleetEvent) : List UsageRow :=
  events.foldl countEvent []

end Prospero.Usage
