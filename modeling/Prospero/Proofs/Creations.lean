import Prospero.Proofs.AutomationLedger

namespace Prospero.Proofs.Creations
open Prospero.Automations Prospero.Proofs.Automations

section Linear

variable {κ : Type} {w : World κ}

/-- The calls come to what creating, deleting and firing one after the other would:
no create succeeds where the automation already stands, no tick is claimed twice or
for an automation that is not there, and the table has the automations that stand,
with the secrets their creators were given. -/
structure Linear (w : World κ) : Prop where
  accepted : ∀ id, Monitor.Accepts (note id) (Allows id) ⟨none, []⟩ w.history
  absent : ∀ id, rowOf w.rows id = none ↔ (ledger id w).created = none
  same : ∀ id row stored, rowOf w.rows id = some row → (ledger id w).created = some stored →
    Same stored row

theorem linear_of_inv (h : ∀ id, Inv id w) : Linear w :=
  ⟨fun id => (h id).accepted, fun id => (h id).absent, fun id => (h id).same⟩

variable {σ : Type} {crates : Crates σ} [DecidableEq κ]

/-- Creates, edits, deletes and claims linearise where none of them is raced. -/
theorem calls_linearise (hr : Reliable crates) (as : List (Action κ))
    (h : Machine.Steps (World.step crates) (fun w a => ∀ id, Unraced crates id w a)
      World.start as) :
    Machine.Always (World.step crates) Linear World.start as :=
  Machine.always_mono (P := fun w => ∀ id, Inv id w) (fun _ => linear_of_inv)
    (Machine.always_of_steps (fun _ _ _ hi hok hs id => (hi id).step hr (hok id) hs)
      (fun _ => .start) h)

variable {call : κ} {stored : StoredAutomation}

omit [DecidableEq κ] in
theorem unraced_insert (slot : w.calls call = some (.inserting stored))
    (hnone : rowOf w.rows stored.automation.id = none)
    (hfired : ∀ claim ∈ (ledger stored.automation.id w).fired,
      claim.2 ≤ stored.automation.createdAt) (id : String) :
    Unraced crates id w (.next call) := by
  simp only [Unraced, slot]
  rintro rfl
  exact ⟨hnone, hfired⟩

omit [DecidableEq κ] in
theorem unraced_update {row : Row} (slot : w.calls call = some (.updating stored))
    (hrow : rowOf w.rows stored.automation.id = some row) (hsame : Same stored row)
    (id : String) : Unraced crates id w (.next call) := by
  simp only [Unraced, slot]
  rintro rfl
  exact ⟨row, hrow, hsame⟩

omit [DecidableEq κ] in
theorem unraced_claim {row : Row} {now : DateTime} {rest : List StoredAutomation}
    (slot : w.calls call = some (.ticking ⟨now, stored :: rest⟩))
    (hrow : rowOf w.rows stored.automation.id = some row)
    (hcreated : row.spec.createdAt = stored.automation.createdAt) (id : String) :
    Unraced crates id w (.next call) := by
  simp only [Unraced, slot]
  rintro rfl - row' hrow'
  cases hrow.symm.trans hrow'
  exact hcreated

end Linear

/-- An automation fires, is disabled and deleted, and is created again. -/
def lifetime : List (Action Nat) :=
  [.begin 0 (.create sweep (clock 10 30 0) ""), .next 0, .next 0,
    .begin 1 (.tick (clock 11 0 10)), .next 1, .next 1,
    .begin 2 (.setEnabled sweep.id false), .next 2, .next 2,
    .begin 3 (.delete sweep.id), .next 3, .next 3,
    .begin 4 (.create sweep (clock 11 20 0) ""), .next 4, .next 4]

theorem lifetime_unraced : Machine.Steps (World.step hourly)
    (fun w a => ∀ id, Unraced hourly id w a) World.start lifetime := by
  iterate 2 refine Machine.steps_cons (fun _ => trivial) rfl ?_
  refine Machine.steps_cons (unraced_insert rfl rfl (by decide)) rfl ?_
  iterate 2 refine Machine.steps_cons (fun _ => trivial) rfl ?_
  refine Machine.steps_cons (unraced_claim rfl rfl rfl) rfl ?_
  iterate 2 refine Machine.steps_cons (fun _ => trivial) rfl ?_
  refine Machine.steps_cons (unraced_update rfl rfl ⟨rfl, rfl⟩) rfl ?_
  iterate 5 refine Machine.steps_cons (fun _ => trivial) rfl ?_
  exact Machine.steps_cons (unraced_insert rfl rfl (by decide)) rfl trivial

theorem lifetime_linear : ∃ w, Machine.run (World.step hourly) World.start lifetime = some w ∧
    (ledger sweep.id w).fired = [(1, "2026-09-20T11:00:00Z")] ∧ Linear w :=
  ⟨_, rfl, rfl, Machine.always_end (calls_linearise hourly_reliable lifetime lifetime_unraced) rfl⟩

/-- An edit has read the automation when it is deleted, and writes it back. Its last
tick comes due anew. -/
def revival : List (Action Nat) :=
  [.begin 0 (.create sweep (clock 10 30 0) ""), .next 0, .next 0,
    .begin 1 (.tick (clock 11 0 10)), .next 1, .next 1,
    .begin 2 (.setEnabled sweep.id true), .next 2,
    .begin 3 (.delete sweep.id), .next 3, .next 3, .next 2,
    .begin 4 (.tick (clock 11 0 20)), .next 4, .next 4]

theorem deleted_automation_fires_again :
    (∃ w, Machine.run (World.step hourly) World.start revival = some w ∧
      (ledger sweep.id w).fired = [(1, "2026-09-20T11:00:00Z"), (4, "2026-09-20T11:00:00Z")]) ∧
    ¬∀ (as : List (Action Nat)) (w : World Nat),
      Machine.run (World.step hourly) World.start as = some w →
      Machine.Always (World.step hourly) Linear World.start as := by
  refine ⟨⟨_, rfl, rfl⟩, fun h => ?_⟩
  have hend := Machine.always_end (h revival _ rfl) rfl
  have habsent : (some _ : Option Row) = none ↔ (none : Option StoredAutomation) = none :=
    hend.absent sweep.id
  cases habsent.mpr rfl

end Prospero.Proofs.Creations
