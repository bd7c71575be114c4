import Mathlib.Data.List.Forall2
import Mathlib.Tactic.Common

namespace Blocks

variable {α β γ : Type*}

/-- A list cut into consecutive blocks, one for each item made of it. What comes before the
first block may be left out. -/
def Cut (idle : α → Prop) (made : List α → β → Prop) (xs : List α) (ys : List β) : Prop :=
  ∃ lead blocks, xs = lead ++ blocks.flatten ∧ (∀ x ∈ lead, idle x) ∧ List.Forall₂ made blocks ys

variable {idle : α → Prop} {made : List α → β → Prop} {xs : List α} {ys : List β} {x : α} {y z : β}

theorem Cut.nil : Cut idle made [] [] := ⟨[], [], rfl, by simp, .nil⟩

theorem forall₂_snoc {bs : List (List α)} {b : List α} (h : List.Forall₂ made bs ys)
    (hb : made b y) : List.Forall₂ made (bs ++ [b]) (ys ++ [y]) :=
  List.rel_append h (.cons hb .nil)

theorem forall₂_of_snoc {bs : List (List α)} (h : List.Forall₂ made bs (ys ++ [y])) :
    ∃ bs' b, bs = bs' ++ [b] ∧ List.Forall₂ made bs' ys ∧ made b y := by
  induction ys generalizing bs with
  | nil =>
    cases h with
    | cons hb hrest =>
      cases hrest
      exact ⟨[], _, rfl, .nil, hb⟩
  | cons y' ys ih =>
    cases h with
    | cons hb hrest =>
      obtain ⟨bs', b, rfl, hys, hlast⟩ := ih hrest
      exact ⟨_ :: bs', b, rfl, .cons hb hys, hlast⟩

/-- An element that a new item is made of. -/
theorem Cut.push (h : Cut idle made xs ys) (hx : made [x] y) :
    Cut idle made (xs ++ [x]) (ys ++ [y]) := by
  obtain ⟨lead, blocks, rfl, hlead, hmade⟩ := h
  exact ⟨lead, blocks ++ [[x]], by simp, hlead, forall₂_snoc hmade hx⟩

/-- An element that goes into the last item. -/
theorem Cut.extend (h : Cut idle made xs (ys ++ [y]))
    (hx : ∀ block, made block y → made (block ++ [x]) z) :
    Cut idle made (xs ++ [x]) (ys ++ [z]) := by
  obtain ⟨lead, blocks, rfl, hlead, hmade⟩ := h
  obtain ⟨before, last, rfl, hbefore, hlast⟩ := forall₂_of_snoc hmade
  exact ⟨lead, before ++ [last ++ [x]], by simp, hlead, forall₂_snoc hbefore (hx last hlast)⟩

/-- An element that leaves every item as it is. -/
theorem Cut.skip (h : Cut idle made xs ys) (hidle : idle x)
    (hx : ∀ block y, made block y → made (block ++ [x]) y) : Cut idle made (xs ++ [x]) ys := by
  rcases List.eq_nil_or_concat' ys with rfl | ⟨ys, y, rfl⟩
  · obtain ⟨lead, blocks, rfl, hlead, hmade⟩ := h
    cases hmade
    refine ⟨lead ++ [x], [], by simp, ?_, .nil⟩
    intro y hy
    rcases List.mem_append.mp hy with hmem | hmem
    · exact hlead y hmem
    · exact List.mem_singleton.mp hmem ▸ hidle
  · exact h.extend fun block => hx block y

/-- An item changed into one that is made of the same. -/
theorem Cut.modify (h : Cut idle made xs ys) (i : Nat) {f : β → β}
    (hf : ∀ block y, made block y → made block (f y)) : Cut idle made xs (ys.modify i f) := by
  obtain ⟨lead, blocks, rfl, hlead, hmade⟩ := h
  refine ⟨lead, blocks, rfl, hlead, ?_⟩
  clear hlead
  induction hmade generalizing i with
  | nil => simp
  | cons hb hrest ih =>
    cases i with
    | zero => exact .cons (hf _ _ hb) hrest
    | succ i => exact .cons hb (ih i)

/-- What every block hands to its item, the list hands to the items in order. -/
theorem Cut.flatMap_eq {f : α → List γ} {g : β → List γ} (h : Cut idle made xs ys)
    (hidle : ∀ x, idle x → f x = [])
    (hmade : ∀ block y, made block y → block.flatMap f = g y) : xs.flatMap f = ys.flatMap g := by
  obtain ⟨lead, blocks, rfl, hlead, hblocks⟩ := h
  have hnone : lead.flatMap f = [] := by
    rw [List.flatMap_eq_nil_iff]
    exact fun x hx => hidle x (hlead x hx)
  rw [List.flatMap_append, hnone, List.nil_append]
  clear hlead
  induction hblocks with
  | nil => rfl
  | cons hb _ ih => rw [List.flatten_cons, List.flatMap_append, List.flatMap_cons, hmade _ _ hb, ih]

end Blocks
