import Mathlib.Data.List.Basic
import Mathlib.Order.Lattice

/-! Items of a growing log on their way to a reader, each taken up when the log had
a certain length. -/

namespace Relay

variable {α β : Type*} [LinearOrder β] (rank : α → β) (on : α → Prop) (log : List α)

/-- An item of the stream follows a mark: of what the log had when the item was taken
up, nothing of the stream lies between. -/
structure Next (m : β) (x : α) (n : Nat) : Prop where
  above : m < rank x
  taken : x ∈ log.take n
  stream : on x
  within : n ≤ log.length
  gapless : ∀ y ∈ log.take n, on y → rank y < rank x → rank y ≤ m

/-- Each item follows the one before it. -/
def Chain : β → List (α × Nat) → Prop
  | _, [] => True
  | m, (x, n) :: xs => Next rank on log m x n ∧ Chain (rank x) xs

def endMark : β → List (α × Nat) → β
  | m, [] => m
  | _, (x, _) :: xs => endMark (rank x) xs

variable {rank on log} {m : β} {x : α} {n : Nat}

omit [LinearOrder β] in
@[simp] theorem endMark_append {xs ys : List (α × Nat)} :
    endMark rank m (xs ++ ys) = endMark rank (endMark rank m xs) ys := by
  induction xs generalizing m with
  | nil => rfl
  | cons x xs ih => exact ih

theorem chain_append {xs ys : List (α × Nat)} : Chain rank on log m (xs ++ ys) ↔
    Chain rank on log m xs ∧ Chain rank on log (endMark rank m xs) ys := by
  induction xs generalizing m with
  | nil => simp [Chain, endMark]
  | cons x xs ih => simp [Chain, endMark, ih, and_assoc]

theorem chain_snoc {xs : List (α × Nat)} (h : Chain rank on log m xs)
    (hx : Next rank on log (endMark rank m xs) x n) : Chain rank on log m (xs ++ [(x, n)]) :=
  chain_append.mpr ⟨h, hx, trivial⟩

/-- What was taken up stays as it was while the log grows. -/
theorem Next.grow (h : Next rank on log m x n) (more : List α) :
    Next rank on (log ++ more) m x n := by
  have htake : (log ++ more).take n = log.take n := List.take_append_of_le_length h.within
  refine ⟨h.above, htake ▸ h.taken, h.stream, ?_, htake ▸ h.gapless⟩
  exact Nat.le_trans h.within (by simp)

theorem Chain.grow {xs : List (α × Nat)} (h : Chain rank on log m xs) (more : List α) :
    Chain rank on (log ++ more) m xs := by
  induction xs generalizing m with
  | nil => trivial
  | cons x xs ih => exact ⟨h.1.grow more, ih h.2⟩

/-- A read of the log from a mark on, in order: everything of the stream above it. -/
structure Reads (rank : α → β) (on : α → Prop) (log : List α) (m : β) (xs : List α) : Prop where
  mem : ∀ x, x ∈ xs ↔ x ∈ log ∧ on x ∧ m < rank x
  sorted : xs.Pairwise fun x y => rank x < rank y

theorem Reads.tail {xs : List α} (h : Reads rank on log m (x :: xs)) :
    Reads rank on log (rank x) xs := by
  obtain ⟨hx, hsorted⟩ := List.pairwise_cons.mp h.sorted
  refine ⟨?_, hsorted⟩
  intro y
  constructor
  · intro hy
    obtain ⟨hlog, hon, -⟩ := (h.mem y).mp (List.mem_cons_of_mem x hy)
    exact ⟨hlog, hon, hx y hy⟩
  · intro hy
    obtain ⟨hlog, hon, hlt⟩ := hy
    have hm := ((h.mem x).mp List.mem_cons_self).2.2
    rcases List.mem_cons.mp ((h.mem y).mpr ⟨hlog, hon, hm.trans hlt⟩) with rfl | hy
    · exact absurd hlt (lt_irrefl _)
    · exact hy

theorem Reads.next {xs : List α} (h : Reads rank on log m (x :: xs)) :
    Next rank on log m x log.length := by
  obtain ⟨hlog, hon, hlt⟩ := (h.mem x).mp List.mem_cons_self
  refine ⟨hlt, by rwa [List.take_length], hon, Nat.le_refl _, ?_⟩
  intro y hy hony hyx
  rw [List.take_length] at hy
  by_contra hgap
  rcases List.mem_cons.mp ((h.mem y).mpr ⟨hy, hony, not_le.mp hgap⟩) with rfl | hmem
  · exact lt_irrefl _ hyx
  · exact lt_asymm hyx ((List.pairwise_cons.mp h.sorted).1 y hmem)

/-- What a read yields is a chain. -/
theorem Reads.chain {xs : List α} (h : Reads rank on log m xs) :
    Chain rank on log m (xs.map fun x => (x, log.length)) := by
  induction xs generalizing m with
  | nil => trivial
  | cons x xs ih => exact ⟨h.next, ih h.tail⟩

/-- Nothing that a read could see lies above where it ends. -/
theorem Reads.cover {xs : List α} (h : Reads rank on log m xs) :
    ∀ x ∈ log, on x → rank x ≤ endMark rank m (xs.map fun x => (x, n)) := by
  induction xs generalizing m with
  | nil =>
    intro x hx hon
    by_contra hlt
    cases (h.mem x).mpr ⟨hx, hon, not_le.mp hlt⟩
  | cons y ys ih => exact ih h.tail

end Relay
