import Mathlib.Tactic.Common

namespace Monitor

variable {τ κ : Type*} (next : τ → κ → τ) (allows : τ → κ → Prop)

/-- A monitor reads a sequence of events and may object to one. -/
def Accepts : τ → List κ → Prop
  | _, [] => True
  | t, k :: ks => allows t k ∧ Accepts (next t k) ks

variable {next allows}

theorem accepts_append {t : τ} {ks ls : List κ} : Accepts next allows t (ks ++ ls) ↔
    Accepts next allows t ks ∧ Accepts next allows (ks.foldl next t) ls := by
  induction ks generalizing t with
  | nil => simp [Accepts]
  | cons k ks ih => simp [Accepts, ih, and_assoc]

/-- A more permissive state accepts what the other one accepts, and ends up
related to where that one ends. -/
theorem accepts_sim {R : τ → τ → Prop} (hallows : ∀ t t' k, R t t' → allows t k → allows t' k)
    (hnext : ∀ t t' k, R t t' → R (next t k) (next t' k)) {t t' : τ} (h : R t t') {ks : List κ}
    (hks : Accepts next allows t ks) :
    Accepts next allows t' ks ∧ R (ks.foldl next t) (ks.foldl next t') := by
  induction ks generalizing t t' with
  | nil => exact ⟨trivial, h⟩
  | cons k ks ih =>
    obtain ⟨hrest, hend⟩ := ih (hnext t t' k h) hks.2
    exact ⟨⟨hallows t t' k h hks.1, hrest⟩, hend⟩

end Monitor
