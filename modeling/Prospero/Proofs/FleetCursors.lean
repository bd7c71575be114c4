import Prospero.FleetCursors
import Prospero.Lib.Machine
import Prospero.Proofs.JsonlStore

namespace Prospero.Proofs.FleetCursors
open Prospero.FleetCursors Prospero.JsonlStore Proofs.JsonlStore
open PostgresStore (CursoredEvent)

section Places

variable {α : Type*}

/-- Where the items are numbered upwards, an item's place is how many are numbered up to it. -/
theorem countP_le {num : α → Nat} {xs : List α} (h : xs.Pairwise fun x y => num x < num y)
    {i : Nat} {x : α} (hx : xs[i]? = some x) : xs.countP (fun y => num y ≤ num x) = i + 1 := by
  induction xs generalizing i with
  | nil => cases hx
  | cons y ys ih =>
    obtain ⟨hy, hys⟩ := List.pairwise_cons.mp h
    cases i with
    | zero =>
      obtain rfl : y = x := Option.some.inj hx
      have hnone : ys.countP (fun z => num z ≤ num y) = 0 := by
        apply List.countP_eq_zero.mpr
        intro z hz
        have hlt := hy z hz
        rw [decide_eq_true_eq]
        omega
      rw [List.countP_cons_of_pos (by simp), hnone]
    | succ i =>
      rw [List.getElem?_cons_succ] at hx
      have hlt := hy x (List.mem_of_getElem? hx)
      rw [List.countP_cons_of_pos (by simpa using hlt.le), ih hys hx]

/-- The items after the first `n`, with their places. -/
theorem filter_zipIdx {xs : List α} {k n : Nat} (h : k ≤ n) :
    (xs.zipIdx k).filter (fun x => n < x.2 + 1) = (xs.drop (n - k)).zipIdx n := by
  induction xs generalizing k with
  | nil => simp
  | cons x xs ih =>
    rw [List.zipIdx_cons]
    by_cases hk : k = n
    · subst hk
      rw [Nat.sub_self, List.drop_zero, ← List.zipIdx_cons, List.filter_eq_self]
      intro p hp
      exact decide_eq_true (Nat.lt_succ_of_le (List.le_snd_of_mem_zipIdx hp))
    · have hn : n - k = n - (k + 1) + 1 := by omega
      rw [List.filter_cons_of_neg (by simp; omega), ih (by omega), hn, List.drop_succ_cons]

theorem take_zipIdx (xs : List α) (k n : Nat) : (xs.zipIdx k).take n = (xs.take n).zipIdx k := by
  induction xs generalizing k n with
  | nil => simp
  | cons x xs ih =>
    cases n with
    | zero => rfl
    | succ n =>
      rw [List.zipIdx_cons, List.take_succ_cons, ih, List.take_succ_cons, List.zipIdx_cons]

end Places

section Batch

variable {serde : SerdeJson} {file : List UInt8} {events : List FleetEvent}

/-- A batch goes on where the cursor stands, line by line. -/
theorem replayFleet_eq (h : readAll serde file = .ok events) (afterCursor limit : Nat) :
    replayFleet serde file afterCursor limit =
      .ok ((((events.drop afterCursor).take limit).zipIdx afterCursor).map
        fun x => ⟨x.2 + 1, x.1⟩) := by
  rw [replayFleet, h]
  simp only [Except.ok.injEq]
  rw [List.filter_map]
  have hfilter : (events.zipIdx.filter
      ((fun c : CursoredEvent => decide (afterCursor < c.cursor)) ∘ fun x => ⟨x.2 + 1, x.1⟩)) =
        (events.drop afterCursor).zipIdx afterCursor := filter_zipIdx (Nat.zero_le _)
  rw [hfilter, ← List.map_take, take_zipIdx]

end Batch

/-- A step in terms of the log. -/
inductive Effect {ρ : Type} [DecidableEq ρ] (serde : SerdeJson) (w : World ρ) :
    Action ρ → World ρ → Prop
  | failed (event : FleetEvent) (hfail : ∀ text, serde.toString event ≠ .ok text) :
      Effect serde w (.append event) w
  | append (event : FleetEvent) {bytes : List UInt8} (hline : line serde event = .ok bytes) :
      Effect serde w (.append event) { w with
        file := w.file ++ bytes
        log := w.log ++ [⟨w.appended, event⟩]
        appended := w.appended + 1 }
  | prune (beforeTs : String) {file : List UInt8}
      (hlines : Added serde ((w.log.map Entry.event).filter fun e => beforeTs ≤ e.ts) file) :
      Effect serde w (.prune beforeTs) { w with
        file := file
        log := w.log.filter fun x => beforeTs ≤ x.event.ts }
  | latest (reader : ρ) :
      Effect serde w (.latest reader) { w with
        issued := w.issued ++ (w.issue w.log.length).toList
        readers := Function.update w.readers reader ⟨w.log.length, w.appended, []⟩ }
  | read (reader : ρ) (limit : Nat) :
      Effect serde w (.read reader limit) { w with
        issued := w.issued ++
          (((w.log.drop (w.readers reader).cursor).take limit).zipIdx (w.readers reader).cursor).map
            fun x => (x.2 + 1, x.1.id)
        readers := Function.update w.readers reader {
          cursor := (w.readers reader).cursor +
            ((w.log.drop (w.readers reader).cursor).take limit).length
          since := (w.readers reader).since
          got := (w.readers reader).got ++
            ((w.log.drop (w.readers reader).cursor).take limit).map Entry.id } }

section Steps

variable {ρ : Type} [DecidableEq ρ] {serde : SerdeJson} {w w' : World ρ}

end Steps

/-- The cursors denote what they were issued for, and no reader has passed over an event. -/
structure Steady {ρ : Type} (w : World ρ) : Prop where
  issued : ∀ p ∈ w.issued, ∃ i x, p.1 = i + 1 ∧ w.log[i]? = some x ∧ x.id = p.2
  cursor : ∀ r, (w.readers r).cursor = 0 ∨ ∃ id, ((w.readers r).cursor, id) ∈ w.issued
  given : ∀ r i x, w.log[i]? = some x → (w.readers r).since ≤ x.id →
    i < (w.readers r).cursor → x.id ∈ (w.readers r).got

section Kept

variable {ρ : Type} {serde : SerdeJson} {w w' : World ρ}

theorem cursor_le (h : Steady w) (r : ρ) : (w.readers r).cursor ≤ w.log.length := by
  rcases h.cursor r with h0 | ⟨id, hid⟩
  · omega
  · obtain ⟨i, x, hi, hx, -⟩ := h.issued _ hid
    have hlt := (List.getElem?_eq_some_iff.mp hx).1
    omega

variable [DecidableEq ρ]

end Kept

section Lost

variable {ρ : Type} [DecidableEq ρ] {serde : SerdeJson} {w w' : World ρ}

end Lost

/-- What a fleet cursor is for: it denotes the event it was issued for and no other, and
a reader finds every later event that it was not given yet after its own. -/
structure Stable {ρ : Type} (serde : SerdeJson) (w : World ρ) : Prop where
  reads : readAll serde w.file = .ok (w.log.map Entry.event)
  denotes : ∀ p ∈ w.issued, 0 < p.1 ∧ ∀ x, w.log[p.1 - 1]? = some x → x.id = p.2
  given : ∀ r i x, w.log[i]? = some x → (w.readers r).since ≤ x.id →
    x.id ∉ (w.readers r).got → (w.readers r).cursor ≤ i

section Runs

variable {ρ : Type} [DecidableEq ρ] {serde : SerdeJson} {w w' : World ρ}

omit [DecidableEq ρ] in
/-- A reader that has caught up was given everything that is left of what came since. -/
theorem given_of_caught_up (h : Stable serde w) {r : ρ} {limit : Nat} (hlimit : 0 < limit)
    (hread : replayFleet serde w.file (w.readers r).cursor limit = .ok []) :
    ∀ x ∈ w.log, (w.readers r).since ≤ x.id → x.id ∈ (w.readers r).got := by
  intro x hx hsince
  by_contra hgot
  obtain ⟨i, hi⟩ := List.getElem?_of_mem hx
  have hle := h.given r i x hi hsince hgot
  have hlt := (List.getElem?_eq_some_iff.mp hi).1
  rw [replayFleet_eq h.reads] at hread
  have hnil := congrArg List.length (Except.ok.inj hread)
  simp only [List.length_map, List.length_zipIdx, List.length_take, List.length_drop,
    List.length_nil] at hnil
  omega

end Runs

end Prospero.Proofs.FleetCursors
