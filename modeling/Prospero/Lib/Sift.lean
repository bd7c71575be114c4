import Mathlib.Data.List.Induction
import Mathlib.Order.Lattice
import Mathlib.Tactic.Common

namespace Sift

variable {α β : Type*} [LinearOrder β] (rank : α → β) (stop : α → Bool)

/-- Items pass one by one, each only above everything passed so far, until one
that stops the sieve has passed. -/
structure State (α β : Type*) where
  mark : β
  passed : List α
  stopped : Bool

def step (s : State α β) (x : α) : State α β :=
  if s.stopped then s
  else if s.mark < rank x then ⟨rank x, s.passed ++ [x], stop x⟩
  else s

def run (mark : β) (xs : List α) : State α β :=
  xs.foldl (step rank stop) ⟨mark, [], false⟩

variable {rank stop}

theorem run_snoc (mark : β) (xs : List α) (x : α) :
    run rank stop mark (xs ++ [x]) = step rank stop (run rank stop mark xs) x := by
  simp [run, List.foldl_append]

theorem foldl_stopped {s : State α β} (h : s.stopped = true) (xs : List α) :
    xs.foldl (step rank stop) s = s := by
  induction xs with
  | nil => rfl
  | cons x xs ih => simpa [step, h] using ih

/-- What arrives after the sieve has stopped makes no difference. -/
theorem run_append_stopped {mark : β} {xs : List α} (h : (run rank stop mark xs).stopped = true)
    (ys : List α) : run rank stop mark (xs ++ ys) = run rank stop mark xs := by
  unfold run at h ⊢
  rw [List.foldl_append, foldl_stopped h]

structure Facts (rank : α → β) (stop : α → Bool) (mark : β) (xs : List α) (s : State α β) :
    Prop where
  low : mark ≤ s.mark
  source : s.mark = mark ∨ ∃ x ∈ xs, s.mark = rank x
  bound : s.stopped = false → ∀ x ∈ xs, rank x ≤ s.mark
  stops : s.stopped = true → ∃ x ∈ xs, stop x = true
  sub : ∀ x ∈ s.passed, x ∈ xs
  range : ∀ x ∈ s.passed, mark < rank x ∧ rank x ≤ s.mark
  sorted : s.passed.Pairwise fun x y => rank x < rank y

variable (rank stop) in
theorem run_facts (mark : β) (xs : List α) :
    Facts rank stop mark xs (run rank stop mark xs) := by
  induction xs using List.reverseRecOn with
  | nil => exact ⟨le_rfl, .inl rfl, by simp, by simp [run], by simp [run], by simp [run], .nil⟩
  | append_singleton xs x ih =>
    rw [run_snoc]
    obtain ⟨low, source, bound, stops, sub, range, sorted⟩ := ih
    unfold step
    split
    · rename_i hs
      refine ⟨low, ?_, by simp [hs], ?_, fun y hy => List.mem_append_left _ (sub y hy), range,
        sorted⟩
      · exact source.imp_right fun ⟨y, hy, he⟩ => ⟨y, List.mem_append_left _ hy, he⟩
      · intro h
        obtain ⟨y, hy, he⟩ := stops h
        exact ⟨y, List.mem_append_left _ hy, he⟩
    · rename_i hs
      have hrun : (run rank stop mark xs).stopped = false := by simpa using hs
      split
      · rename_i hlt
        refine ⟨(low.trans_lt hlt).le, .inr ⟨x, by simp, rfl⟩, ?_, ?_, ?_, ?_, ?_⟩
        · intro _ y hy
          rcases List.mem_append.mp hy with hy | hy
          · exact (bound hrun y hy).trans hlt.le
          · simp [List.mem_singleton.mp hy]
        · exact fun h => ⟨x, by simp, h⟩
        · intro y hy
          rcases List.mem_append.mp hy with hy | hy
          · exact List.mem_append_left _ (sub y hy)
          · exact List.mem_append_right _ hy
        · intro y hy
          rcases List.mem_append.mp hy with hy | hy
          · exact ⟨(range y hy).1, (range y hy).2.trans hlt.le⟩
          · rw [List.mem_singleton.mp hy]
            exact ⟨low.trans_lt hlt, le_rfl⟩
        · refine List.pairwise_append.mpr ⟨sorted, List.pairwise_singleton _ _, ?_⟩
          intro y hy z hz
          rw [List.mem_singleton.mp hz]
          exact (range y hy).2.trans_lt hlt
      · rename_i hle
        refine ⟨low, ?_, ?_, by simp [hrun], fun y hy => List.mem_append_left _ (sub y hy), range,
          sorted⟩
        · exact source.imp_right fun ⟨y, hy, he⟩ => ⟨y, List.mem_append_left _ hy, he⟩
        · intro _ y hy
          rcases List.mem_append.mp hy with hy | hy
          · exact bound hrun y hy
          · rw [List.mem_singleton.mp hy]
            exact not_lt.mp hle

variable (rank stop) in
/-- Later arrivals add to what has passed, and only above the mark. -/
theorem foldl_passed (s : State α β) (xs : List α) :
    ∃ more, (xs.foldl (step rank stop) s).passed = s.passed ++ more ∧
      ∀ x ∈ more, s.mark < rank x := by
  induction xs generalizing s with
  | nil => exact ⟨[], by simp, by simp⟩
  | cons x xs ih =>
    obtain ⟨more, hm, hlt⟩ := ih (step rank stop s x)
    rw [List.foldl_cons, hm]
    unfold step at hlt ⊢
    split
    · rename_i hs
      exact ⟨more, rfl, by simpa [hs] using hlt⟩
    · rename_i hs
      by_cases hx : s.mark < rank x
      · simp only [hs, hx, Bool.false_eq_true, ↓reduceIte] at hlt ⊢
        refine ⟨x :: more, by simp, ?_⟩
        intro y hy
        rcases List.mem_cons.mp hy with rfl | hy
        · exact hx
        · exact hx.trans (hlt y hy)
      · simp only [hs, hx, Bool.false_eq_true, ↓reduceIte] at hlt ⊢
        exact ⟨more, rfl, hlt⟩

/-- An item below every stopping one passes exactly when it is above the
starting mark and above all that came before it. -/
theorem mem_passed_iff (mark : β) {before : List α} (after : List α) {e : α}
    (hne : ∀ b ∈ before, rank b ≠ rank e) (hstop : ∀ b ∈ before, stop b = true → rank e < rank b) :
    e ∈ (run rank stop mark (before ++ e :: after)).passed ↔
      mark < rank e ∧ ∀ b ∈ before, rank b < rank e := by
  have hf := run_facts rank stop mark before
  have hrun : run rank stop mark (before ++ e :: after) =
      after.foldl (step rank stop) (step rank stop (run rank stop mark before) e) := by
    simp [run, List.foldl_append]
  have hnot : e ∉ (run rank stop mark before).passed := fun h => hne e (hf.sub e h) rfl
  rw [hrun]
  obtain ⟨more, hm, hlt⟩ :=
    foldl_passed rank stop (step rank stop (run rank stop mark before) e) after
  constructor
  · intro he
    cases hs : (run rank stop mark before).stopped with
    | true =>
      rw [show step rank stop (run rank stop mark before) e = run rank stop mark before by
        simp [step, hs], foldl_stopped hs] at he
      exact absurd he hnot
    | false =>
      by_cases hx : (run rank stop mark before).mark < rank e
      · exact ⟨hf.low.trans_lt hx, fun b hb => (hf.bound hs b hb).trans_lt hx⟩
      · have hst : step rank stop (run rank stop mark before) e = run rank stop mark before := by
          simp [step, hs, hx]
        rw [hm, hst, List.mem_append] at he
        rcases he with he | he
        · exact absurd he hnot
        · exact absurd (hst ▸ hlt e he) hx
  · intro h
    obtain ⟨hmark, hall⟩ := h
    have hs : (run rank stop mark before).stopped = false := by
      rw [Bool.eq_false_iff]
      intro hs
      obtain ⟨b, hb, hst⟩ := hf.stops hs
      exact absurd (hall b hb) (not_lt.mpr (hstop b hb hst).le)
    have hx : (run rank stop mark before).mark < rank e := by
      rcases hf.source with h | ⟨b, hb, h⟩
      · rwa [h]
      · rw [h]
        exact hall b hb
    rw [hm]
    simp [step, hs, hx]

/-- The first item that fails a test ends the run of those that pass it. -/
theorem takeWhile_split {p : α → Bool} {xs : List α} {e : α} (he : e ∈ xs) (hp : p e = false) :
    ∃ x after, p x = false ∧ xs = xs.takeWhile p ++ x :: after := by
  induction xs with
  | nil => cases he
  | cons y ys ih =>
    cases hy : p y with
    | false => exact ⟨y, ys, hy, by simp [hy]⟩
    | true =>
      rcases List.mem_cons.mp he with rfl | he
      · rw [hp] at hy
        cases hy
      · obtain ⟨x, after, hx, hsplit⟩ := ih he
        refine ⟨x, after, hx, ?_⟩
        rw [List.takeWhile_cons_of_pos hy, List.cons_append, ← hsplit]

end Sift
