import Prospero.UsageQuery

namespace Prospero.Reporting
open Usage

section Report

structure OutcomeCounts where
  done : Nat
  failed : Nat
  killed : Nat
  crashed : Nat
  timedOut : Nat
deriving DecidableEq

/-- One day of one workspace. -/
structure UsageBucket where
  day : String
  costUsd : Rat
  turns : Nat
  outcomes : OutcomeCounts
deriving DecidableEq

structure UsageGroup where
  workspace : String
  costUsd : Rat
  turns : Nat
  outcomes : OutcomeCounts
  series : List UsageBucket
deriving DecidableEq

structure UsageReport where
  since : String
  till : String
  groups : List UsageGroup
deriving DecidableEq

def UsageBucket.of (r : UsageRow) : UsageBucket where
  day := r.day
  costUsd := r.costUsd
  turns := r.turns
  outcomes := ⟨r.done, r.failed, r.killed, r.crashed, r.timedOut⟩

namespace UsageGroup

def new (workspace : String) : UsageGroup := ⟨workspace, 0, 0, ⟨0, 0, 0, 0, 0⟩, []⟩

def add (g : UsageGroup) (r : UsageRow) : UsageGroup where
  workspace := g.workspace
  costUsd := g.costUsd + r.costUsd
  turns := g.turns + r.turns
  outcomes := {
    done := g.outcomes.done + r.done
    failed := g.outcomes.failed + r.failed
    killed := g.outcomes.killed + r.killed
    crashed := g.outcomes.crashed + r.crashed
    timedOut := g.outcomes.timedOut + r.timedOut }
  series := g.series ++ [UsageBucket.of r]

/-- `sort_by` day, which keeps the order of equal ones. -/
def sorted (g : UsageGroup) : UsageGroup :=
  { g with series := g.series.insertionSort fun a b => a.day ≤ b.day }

end UsageGroup

/-- One turn of the loop over the rows; the map is a `BTreeMap` by workspace. -/
def enter (groups : List UsageGroup) (r : UsageRow) : List UsageGroup :=
  Grouping.put UsageGroup.workspace r.workspace (UsageGroup.new r.workspace) (fun g => g.add r) groups

def usageReport (rows : List UsageRow) (since till : String) : UsageReport where
  since := since
  till := till
  groups := (rows.foldl enter []).map UsageGroup.sorted

end Report

/-- `JsonlStore::usage` over what it reads of its file. -/
def jsonlUsage (log : List FleetEvent) (since till : String) : List UsageRow :=
  aggregateUsage (log.filter fun e => UsageQuery.inWindow since till e.ts)

section Charts

structure Point where
  day : String
  value : Rat
deriving DecidableEq

inductive Measure
  | cost
  | turns
  | done
  | killed
  | failed
  | crashed
  | timedOut
deriving DecidableEq

def Measure.of (b : UsageBucket) : Measure → Rat
  | .cost => b.costUsd
  | .turns => b.turns
  | .done => b.outcomes.done
  | .killed => b.outcomes.killed
  | .failed => b.outcomes.failed
  | .crashed => b.outcomes.crashed
  | .timedOut => b.outcomes.timedOut

variable (measure : Measure)

/-- `*by_day.entry(day).or_insert(0.0) += ..`, in a `BTreeMap` by day. -/
def plot (byDay : List Point) (bucket : UsageBucket) : List Point :=
  Grouping.put Point.day bucket.day ⟨bucket.day, 0⟩
    (fun p => { p with value := p.value + measure.of bucket }) byDay

/-- Every workspace's days in one series. -/
def fleetSeries (report : UsageReport) : List Point :=
  report.groups.foldl (fun byDay group => group.series.foldl (plot measure) byDay) []

end Charts

end Prospero.Reporting
