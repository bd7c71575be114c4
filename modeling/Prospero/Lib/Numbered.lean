import Mathlib.Tactic.Common

namespace Numbered

variable {α β : Type*}

/-- What each item yields, with the item's place, counting on from `n`. -/
def images (f : α → Option β) : Nat → List α → List (Nat × β)
  | _, [] => []
  | n, x :: xs => ((f x).map fun y => (n + 1, y)).toList ++ images f (n + 1) xs

variable {f : α → Option β} {n : Nat}

@[simp] theorem images_nil : images f n [] = [] := rfl

theorem images_append (xs ys : List α) :
    images f n (xs ++ ys) = images f n xs ++ images f (n + xs.length) ys := by
  induction xs generalizing n with
  | nil => rfl
  | cons x xs ih =>
    have hn : n + 1 + xs.length = n + (xs.length + 1) := by omega
    simp only [List.cons_append, images, ih, List.length_cons, List.append_assoc, hn]

theorem images_cons (x : α) (xs : List α) :
    images f n (x :: xs) = images f n [x] ++ images f (n + 1) xs :=
  images_append [x] xs

theorem images_cons_none {x : α} (xs : List α) (h : f x = none) :
    images f n (x :: xs) = images f (n + 1) xs := by
  simp [images, h]

theorem images_cons_some {x : α} {y : β} (xs : List α) (h : f x = some y) :
    images f n (x :: xs) = (n + 1, y) :: images f (n + 1) xs := by
  simp [images, h]

theorem images_singleton_eq_iff {x z : α} : images f n [x] = images f n [z] ↔ f x = f z := by
  cases hx : f x <;> cases hz : f z <;> simp [images, hx, hz]

theorem images_eq_nil_iff {xs : List α} : images f n xs = [] ↔ ∀ x ∈ xs, f x = none := by
  induction xs generalizing n with
  | nil => simp
  | cons x xs ih => simp [images, ih]

/-- The places are the items' own. -/
theorem place_of_mem {p : Nat × β} {xs : List α} (h : p ∈ images f n xs) :
    n < p.1 ∧ p.1 ≤ n + xs.length := by
  induction xs generalizing n with
  | nil => simp at h
  | cons x xs ih =>
    simp only [images, List.mem_append, Option.mem_toList, Option.map_eq_some_iff,
      List.length_cons] at h ⊢
    rcases h with ⟨y, _, rfl⟩ | h
    · simp only
      omega
    · have hp := ih h
      omega

theorem places_increase (xs : List α) : ((images f n xs).map Prod.fst).Pairwise (· < ·) := by
  induction xs generalizing n with
  | nil => simp
  | cons x xs ih =>
    cases hx : f x with
    | none =>
      rw [images_cons_none xs hx]
      exact ih
    | some y =>
      rw [images_cons_some xs hx, List.map_cons, List.pairwise_cons]
      refine ⟨?_, ih⟩
      intro m hm
      obtain ⟨p, hp, rfl⟩ := List.mem_map.mp hm
      exact (place_of_mem hp).1

/-- The items past `n` are those up to `k`, then those past both. -/
theorem images_drop_max {xs : List α} {k : Nat} (hk : k ≤ xs.length) :
    images f n (xs.drop n) =
      images f n ((xs.take k).drop n) ++ images f (max n k) (xs.drop (max n k)) := by
  by_cases hnk : n ≤ k
  · rw [Nat.max_eq_right hnk]
    have hdrop : xs.drop n = (xs.take k).drop n ++ xs.drop k := by
      conv_lhs => rw [← List.take_append_drop k xs]
      rw [List.drop_append_of_le_length (by simp; omega)]
    have hlen : n + ((xs.take k).drop n).length = k := by
      simp
      omega
    rw [hdrop, images_append, hlen]
  · have hnil : (xs.take k).drop n = [] := by
      simp
      omega
    rw [Nat.max_eq_left (by omega), hnil, images_nil, List.nil_append]

/-- Lists split at a place are equal when both halves are. -/
theorem append_eq_append_iff {l l' r r' : List (Nat × β)} {m : Nat} (hl : ∀ p ∈ l, p.1 ≤ m)
    (hl' : ∀ p ∈ l', p.1 ≤ m) (hr : ∀ p ∈ r, m < p.1) (hr' : ∀ p ∈ r', m < p.1) :
    l ++ r = l' ++ r' ↔ l = l' ∧ r = r' := by
  constructor
  · intro h
    have low : ∀ {a b : List (Nat × β)}, (∀ p ∈ a, p.1 ≤ m) → (∀ p ∈ b, m < p.1) →
        (a ++ b).filter (fun p => decide (p.1 ≤ m)) = a := by
      intro a b ha hb
      have hnil : b.filter (fun p => decide (p.1 ≤ m)) = [] := by
        apply List.filter_eq_nil_iff.mpr
        intro p hp
        have hlt := hb p hp
        simp
        omega
      rw [List.filter_append, hnil, List.append_nil]
      apply List.filter_eq_self.mpr
      intro p hp
      simp [ha p hp]
    have heq : l = l' := by
      rw [← low hl hr, h, low hl' hr']
    subst heq
    exact ⟨rfl, List.append_cancel_left h⟩
  · intro h
    obtain ⟨rfl, rfl⟩ := h
    rfl

end Numbered
