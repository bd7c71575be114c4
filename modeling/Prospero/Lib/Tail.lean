import Mathlib.Data.List.Pairwise
import Mathlib.Order.Lattice
import Mathlib.Tactic.Common

namespace Tail

/-- A reader of a growing ordered collection: how far it has passed, what it has
read but not yet passed on, and what it has passed on. -/
structure State (α β : Type*) where
  mark : β
  batch : List α
  passed : List α

variable {α β : Type*} [LinearOrder β] (rank : α → β)

/-- What one step of the reader may do. A read takes in items above the mark
only, in order. -/
inductive Move (s : State α β) : State α β → Prop
  | stay : Move s s
  | read (xs : List α) (idle : s.batch = []) (above : ∀ x ∈ xs, s.mark < rank x)
      (sorted : xs.Pairwise fun x y => rank x < rank y) : Move s { s with batch := xs }
  | pass (x : α) (rest : List α) (head : s.batch = x :: rest) :
      Move s ⟨rank x, rest, s.passed ++ [x]⟩
  | drop : Move s { s with batch := [] }

structure Ordered (s : State α β) : Prop where
  passed : s.passed.Pairwise fun x y => rank x < rank y
  below : ∀ x ∈ s.passed, rank x ≤ s.mark
  batch : s.batch.Pairwise fun x y => rank x < rank y
  above : ∀ x ∈ s.batch, s.mark < rank x

/-- The mark has moved past an item that was never passed on. -/
def Lost (s : State α β) (x : α) : Prop := rank x ≤ s.mark ∧ x ∉ s.passed

/-- How far has been read: where the mark will be once the batch has passed. -/
def reach (s : State α β) : β := s.batch.foldl (fun _ x => rank x) s.mark

variable {rank}

theorem Ordered.start (mark : β) : Ordered rank (⟨mark, [], []⟩ : State α β) :=
  ⟨.nil, by simp, .nil, by simp⟩

theorem Ordered.move {s s' : State α β} (h : Ordered rank s) (hm : Move rank s s') :
    Ordered rank s' := by
  cases hm with
  | stay => exact h
  | read xs idle above sorted => exact ⟨h.passed, h.below, sorted, above⟩
  | drop => exact ⟨h.passed, h.below, .nil, by simp⟩
  | pass x rest head =>
    have hx : s.mark < rank x := h.above x (by simp [head])
    have hbatch := h.batch
    rw [head] at hbatch
    obtain ⟨hrest, hsorted⟩ := List.pairwise_cons.mp hbatch
    refine ⟨?_, ?_, hsorted, hrest⟩
    · apply List.pairwise_append.mpr
      refine ⟨h.passed, List.pairwise_singleton _ _, ?_⟩
      intro y hy z hz
      rw [List.mem_singleton.mp hz]
      exact (h.below y hy).trans_lt hx
    · intro y hy
      rcases List.mem_append.mp hy with hy | hy
      · exact ((h.below y hy).trans_lt hx).le
      · rw [List.mem_singleton.mp hy]

/-- Nothing the reader does brings a lost item back. -/
theorem Lost.move {s s' : State α β} {x : α} (hl : Lost rank s x) (h : Ordered rank s)
    (hm : Move rank s s') : Lost rank s' x := by
  cases hm with
  | stay | read | drop => exact hl
  | pass y rest head =>
    have hy : s.mark < rank y := h.above y (by simp [head])
    refine ⟨(hl.1.trans_lt hy).le, ?_⟩
    intro hx
    rcases List.mem_append.mp hx with hx | hx
    · exact hl.2 hx
    · obtain rfl := List.mem_singleton.mp hx
      exact absurd hl.1 (not_le.mpr hy)

theorem le_foldl_rank {mark : β} {xs : List α} (habove : ∀ x ∈ xs, mark < rank x)
    (hsorted : xs.Pairwise fun x y => rank x < rank y) :
    mark ≤ xs.foldl (fun _ x => rank x) mark := by
  induction xs generalizing mark with
  | nil => exact le_rfl
  | cons y ys ih =>
    obtain ⟨hy, hys⟩ := List.pairwise_cons.mp hsorted
    exact (habove y (by simp)).le.trans (ih hy hys)

theorem Ordered.mark_le_reach {s : State α β} (h : Ordered rank s) : s.mark ≤ reach rank s :=
  le_foldl_rank h.above h.batch

end Tail
