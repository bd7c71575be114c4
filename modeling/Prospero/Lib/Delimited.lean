import Mathlib.Data.List.Infix
import Mathlib.Tactic.Common

namespace Delimited

variable {α : Type*}

/-- The first occurrence of a pattern in a text: what stands before it, and what after. -/
structure FirstAt (pat text before after : List α) : Prop where
  split : text = before ++ pat ++ after
  first : ∀ before' after', text = before' ++ pat ++ after' → before.length ≤ before'.length

section First

variable {pat text before after before' after' : List α} {x : α}

theorem FirstAt.isInfix (h : FirstAt pat text before after) : pat <:+: text :=
  ⟨before, after, h.split.symm⟩

theorem FirstAt.unique (h : FirstAt pat text before after)
    (h' : FirstAt pat text before' after') : before = before' ∧ after = after' := by
  have hle := h.first before' after' h'.split
  have hge := h'.first before after h.split
  have hsplit : before ++ (pat ++ after) = before' ++ (pat ++ after') := by
    rw [← List.append_assoc, ← List.append_assoc, ← h.split, ← h'.split]
  obtain ⟨hbefore, hrest⟩ := List.append_inj hsplit (le_antisymm hle hge)
  exact ⟨hbefore, List.append_cancel_left hrest⟩

theorem firstAt_prefix (h : pat <+: text) : FirstAt pat text [] (text.drop pat.length) := by
  refine ⟨?_, fun _ _ _ => Nat.zero_le _⟩
  rw [List.nil_append]
  exact List.prefix_append_drop h

/-- A text that does not begin with the pattern has it first where its rest has. -/
theorem FirstAt.cons (h : FirstAt pat text before after) (hpre : ¬pat <+: x :: text) :
    FirstAt pat (x :: text) (x :: before) after := by
  refine ⟨by rw [h.split]; rfl, ?_⟩
  intro before' after' hsplit
  cases before' with
  | nil => exact absurd ⟨after', hsplit.symm⟩ hpre
  | cons y ys =>
    have hrest := (List.cons.inj hsplit).2
    exact Nat.succ_le_succ (h.first ys after' hrest)

end First

/-- A text with slots between an opening and a closing: every slot as the literal
before it and what it holds, and then the tail. A slot that is not closed is no slot. -/
inductive Template (opening closing : List α) : List α → List (List α × List α) → List α → Prop
  | bare {text : List α} (bare : ¬opening <:+: text) : Template opening closing text [] text
  | unclosed {text before after : List α} (opened : FirstAt opening text before after)
      (unclosed : ¬closing <:+: after) : Template opening closing text [] text
  | slot {text before after path later tail : List α} {slots : List (List α × List α)}
      (opened : FirstAt opening text before after) (closed : FirstAt closing after path later)
      (rest : Template opening closing later slots tail) :
      Template opening closing text ((before, path) :: slots) tail

/-- The literals with a text in the place of each slot. -/
def fill (tail : List α) : List (List α × List α) → List (List α) → List α
  | (literal, _) :: slots, text :: texts => literal ++ text ++ fill tail slots texts
  | _, _ => tail

namespace Template

variable {opening closing text tail tail' : List α} {slots slots' : List (List α × List α)}

/-- A text has its slots in one way only. -/
theorem unique (h : Template opening closing text slots tail)
    (h' : Template opening closing text slots' tail') : slots = slots' ∧ tail = tail' := by
  induction h generalizing slots' with
  | bare hbare =>
    cases h' with
    | bare | unclosed => exact ⟨rfl, rfl⟩
    | slot opened => exact absurd opened.isInfix hbare
  | unclosed opened hopen =>
    cases h' with
    | bare | unclosed => exact ⟨rfl, rfl⟩
    | slot opened' closed =>
      obtain ⟨-, rfl⟩ := opened.unique opened'
      exact absurd closed.isInfix hopen
  | slot opened closed rest ih =>
    cases h' with
    | bare hbare => exact absurd opened.isInfix hbare
    | unclosed opened' hopen =>
      obtain ⟨-, rfl⟩ := opened.unique opened'
      exact absurd closed.isInfix hopen
    | slot opened' closed' rest' =>
      obtain ⟨rfl, rfl⟩ := opened.unique opened'
      obtain ⟨rfl, rfl⟩ := closed.unique closed'
      obtain ⟨rfl, rfl⟩ := ih rest'
      exact ⟨rfl, rfl⟩

/-- A template is its literals and its slots between their delimiters. -/
theorem text_eq (h : Template opening closing text slots tail) :
    text = fill tail slots (slots.map fun slot => opening ++ slot.2 ++ closing) := by
  induction h with
  | bare | unclosed => rfl
  | slot opened closed rest ih =>
    rw [opened.split, closed.split, List.map_cons, fill, ← ih]
    simp only [List.append_assoc]

/-- A text without slots is its own tail. -/
theorem tail_eq (h : Template opening closing text [] tail) : tail = text := by
  cases h <;> rfl

end Template

end Delimited
