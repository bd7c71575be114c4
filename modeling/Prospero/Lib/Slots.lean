import Mathlib.Logic.Function.Basic

namespace Slots

variable {ι α : Type*} [DecidableEq ι] {slots : ι → Option α} {i j : ι} {x y : α}

/-- Where one slot is filled anew, anything found is the new value or an old one. -/
theorem update_some (h : Function.update slots i (some x) j = some y) :
    (j = i ∧ y = x) ∨ (j ≠ i ∧ slots j = some y) := by
  by_cases hj : j = i
  · subst hj
    rw [Function.update_self] at h
    exact Or.inl ⟨rfl, (Option.some.inj h).symm⟩
  · rw [Function.update_of_ne hj] at h
    exact Or.inr ⟨hj, h⟩

theorem update_none (h : Function.update slots i none j = some y) :
    j ≠ i ∧ slots j = some y := by
  by_cases hj : j = i
  · subst hj
    rw [Function.update_self] at h
    cases h
  · rw [Function.update_of_ne hj] at h
    exact ⟨hj, h⟩

end Slots
