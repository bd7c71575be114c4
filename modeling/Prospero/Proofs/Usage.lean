import Mathlib.Data.Prod.Lex
import Mathlib.Data.String.Basic
import Prospero.Lib.Grouping
import Prospero.Usage

namespace Prospero.Proofs.Usage
open Prospero.Usage

def rowKey (row : UsageRow) : String ×ₗ String := toLex (row.workspace, row.day)

theorem before_iff (row : UsageRow) (workspace day : String) :
    row.before workspace day = true ↔ rowKey row < toLex (workspace, day) := by
  simp [UsageRow.before, rowKey, Prod.Lex.toLex_lt_toLex]

theorem entry_eq_put (repo day : String) (kind : EventKind) (rows : List UsageRow) :
    entry repo day kind rows = Grouping.put rowKey (toLex (repo, day)) (UsageRow.new repo day)
      (fun row => row.count kind) rows := by
  induction rows with
  | nil => rfl
  | cons row rows ih =>
    have hkey : (row.workspace = repo ∧ row.day = day) ↔ rowKey row = toLex (repo, day) := by
      simp [rowKey]
    unfold entry Grouping.put
    simp only [hkey, before_iff, ih]

/-- An agent reaches a terminal status. -/
def isOutcome : EventKind → Bool
  | .statusChanged _ toStatus => toStatus.isTerminal
  | _ => false

/-- The agents that a report counts as finished, over all its rows. -/
def finishedRuns (rows : List UsageRow) : Nat := (rows.map UsageRow.outcomes).sum

/-- A figure of the rows that counts the events of certain kinds. -/
structure Tally (figure : UsageRow → Nat) (counts : EventKind → Bool) : Prop where
  new : ∀ workspace day, figure (UsageRow.new workspace day) = 0
  count : ∀ row kind, figure (row.count kind) = figure row + if counts kind then 1 else 0
  shown : ∀ kind, counts kind = true → interesting kind = true

namespace Tally

variable {figure : UsageRow → Nat} {counts : EventKind → Bool}

theorem entry (h : Tally figure counts) (repo day : String) (kind : EventKind)
    (rows : List UsageRow) : ((entry repo day kind rows).map figure).sum =
      (rows.map figure).sum + if counts kind then 1 else 0 := by
  rw [entry_eq_put]
  exact Grouping.sum_put (h.new repo day) (fun row => h.count row kind) rows

theorem countEvent (h : Tally figure counts) (e : FleetEvent) (rows : List UsageRow) :
    ((countEvent rows e).map figure).sum =
      (rows.map figure).sum + if (dayOf e.ts).isSome && counts e.kind then 1 else 0 := by
  unfold Usage.countEvent
  split
  · rename_i hday
    simp [hday]
  · rename_i day hday
    by_cases hkind : interesting e.kind
    · rw [if_pos hkind, h.entry]
      simp [hday]
    · have hnot : counts e.kind = false := by
        by_contra hc
        exact hkind (h.shown e.kind (by simpa using hc))
      simp [hkind, hnot]

/-- Every such event that has a day is counted, and nothing else is. -/
theorem aggregateUsage (h : Tally figure counts) (events : List FleetEvent) :
    ((aggregateUsage events).map figure).sum =
      events.countP fun e => (dayOf e.ts).isSome && counts e.kind := by
  have hfold : ∀ rows : List UsageRow, ((events.foldl Usage.countEvent rows).map figure).sum =
      (rows.map figure).sum + events.countP fun e => (dayOf e.ts).isSome && counts e.kind := by
    induction events with
    | nil => simp
    | cons e events ih =>
      intro rows
      rw [List.foldl_cons, ih, h.countEvent, List.countP_cons]
      omega
  rw [Usage.aggregateUsage, hfold, List.map_nil, List.sum_nil, Nat.zero_add]

end Tally

theorem outcomes_tally : Tally UsageRow.outcomes isOutcome where
  new _ _ := rfl
  count row kind := by
    cases kind with
    | statusChanged fromStatus toStatus =>
      cases toStatus <;> simp [UsageRow.count, UsageRow.outcomes, isOutcome, AgentStatus.isTerminal]
        <;> omega
    | _ => simp [UsageRow.count, UsageRow.outcomes, isOutcome]
  shown kind h := by
    cases kind with
    | statusChanged fromStatus toStatus => exact h
    | _ => cases h

/-- Every terminal transition is counted, and nothing else is. -/
theorem aggregateUsage_finishedRuns {events : List FleetEvent}
    (h : ∀ e ∈ events, (dayOf e.ts).isSome) :
    finishedRuns (aggregateUsage events) = events.countP fun e => isOutcome e.kind := by
  rw [finishedRuns, outcomes_tally.aggregateUsage]
  apply List.countP_congr
  intro e he
  simp [h e he]

end Prospero.Proofs.Usage
