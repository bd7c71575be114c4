import Mathlib.Data.List.Induction
import Mathlib.Tactic.Common

namespace Paging

variable {α : Type*} (rank : α → Nat)

/-- Where the page after this one begins; an empty page leaves the place as it was. -/
def next (place : Nat) (page : List α) : Nat :=
  (page.getLast?.map fun x => rank x + 1).getD place

variable {rank} {xs : List α} {place : Nat}

theorem next_snoc (page : List α) (x : α) : next rank place (page ++ [x]) = rank x + 1 := by
  simp [next]

theorem le_next (h : ∀ x ∈ xs, place ≤ rank x) : place ≤ next rank place xs := by
  cases xs using List.reverseRecOn with
  | nil => exact Nat.le_refl _
  | append_singleton xs x =>
    rw [next_snoc]
    exact Nat.le_succ_of_le (h x (by simp))

theorem lt_next (h : xs.Pairwise fun x y => rank x < rank y) :
    ∀ x ∈ xs, rank x < next rank place xs := by
  cases xs using List.reverseRecOn with
  | nil => exact List.forall_mem_nil _
  | append_singleton xs y =>
    intro x hx
    rw [next_snoc]
    rcases List.mem_append.mp hx with hx | hx
    · have hlt := (List.pairwise_append.mp h).2.2 x hx y (List.mem_singleton_self y)
      omega
    · rw [List.mem_singleton.mp hx]
      exact Nat.lt_succ_self _

/-- From the next place on there is what the page left. -/
theorem filter_next (h : xs.Pairwise fun x y => rank x < rank y) (hplace : ∀ x ∈ xs, place ≤ rank x)
    (n : Nat) : xs.filter (next rank place (xs.take n) ≤ rank ·) = xs.drop n := by
  have hpage : (xs.take n).filter (next rank place (xs.take n) ≤ rank ·) = [] := by
    apply List.filter_eq_nil_iff.mpr
    intro x hx
    have hlt : rank x < next rank place (xs.take n) :=
      lt_next (h.sublist (List.take_sublist n xs)) x hx
    simpa using hlt
  have hrest : (xs.drop n).filter (next rank place (xs.take n) ≤ rank ·) = xs.drop n := by
    apply List.filter_eq_self.mpr
    intro y hy
    apply decide_eq_true
    cases hxs : xs.take n using List.reverseRecOn with
    | nil => exact hplace y (List.mem_of_mem_drop hy)
    | append_singleton page x =>
      rw [next_snoc]
      rw [← List.take_append_drop n xs] at h
      exact (List.pairwise_append.mp h).2.2 x (by simp [hxs]) y hy
  conv_lhs =>
    arg 2
    rw [← List.take_append_drop n xs]
  rw [List.filter_append, hpage, hrest, List.nil_append]

end Paging
