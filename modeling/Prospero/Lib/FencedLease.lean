import Mathlib.Order.Lattice
import Mathlib.Data.List.Pairwise

namespace FencedLease

/-- A lease row: who owns it, the fencing epoch it was claimed at, and the last
instant at which nobody else may claim it. -/
structure Row (ρ τ : Type*) where
  owner : ρ
  epoch : Nat
  expiresAt : τ
deriving DecidableEq

variable {ρ τ : Type*}

/-- What one statement of `me`, executed at `now` and claiming until `til`, can
do to the row of a key. -/
inductive RowStep [LT τ] (now til : τ) (me : ρ) : Option (Row ρ τ) → Option (Row ρ τ) → Prop
  | insert : RowStep now til me none (some ⟨me, 1, til⟩)
  | extend {row : Row ρ τ} (own : row.owner = me) :
      RowStep now til me (some row) (some { row with expiresAt := til })
  | takeOver {row : Row ρ τ} (other : row.owner ≠ me) (expired : row.expiresAt < now) :
      RowStep now til me (some row) (some ⟨me, row.epoch + 1, til⟩)
  | delete {row : Row ρ τ} (own : row.owner = me) : RowStep now til me (some row) none

/-- `holder` owns the row and its claim lasts at least until `deadline`. -/
def HeldUntil [LE τ] (holder : ρ) (deadline : τ) (cell : Option (Row ρ τ)) : Prop :=
  ∃ row, cell = some row ∧ row.owner = holder ∧ deadline ≤ row.expiresAt

section Exclusive

variable [LinearOrder τ] {now til deadline : τ} {me holder : ρ} {cell cell' : Option (Row ρ τ)}

/-- Before the deadline another party has no statement that touches the row. -/
theorem HeldUntil.untouched (h : HeldUntil holder deadline cell) (hne : me ≠ holder)
    (hnow : now ≤ deadline) : ¬RowStep now til me cell cell' := by
  obtain ⟨row, rfl, rfl, hd⟩ := h
  intro hs
  cases hs with
  | extend own => exact hne own.symm
  | takeOver other expired => exact absurd (lt_of_lt_of_le expired (le_trans hnow hd)) (lt_irrefl _)
  | delete own => exact hne own.symm

/-- The holder's own claims only push its expiry out, as long as each of them
lasts to the deadline. -/
theorem HeldUntil.own_step (h : HeldUntil holder deadline cell) (htil : deadline ≤ til)
    (hs : RowStep now til holder cell cell') (hkeep : cell' ≠ none) :
    HeldUntil holder deadline cell' := by
  obtain ⟨row, rfl, rfl, hd⟩ := h
  cases hs with
  | extend own => exact ⟨_, rfl, rfl, htil⟩
  | takeOver other expired => exact absurd rfl other
  | delete own => exact absurd rfl hkeep

end Exclusive

/-- Epochs handed out under one key, newest first: a lease handed to one owner
is above every lease that any other owner was handed before it. -/
def EpochsIncrease (issued : List (ρ × Nat)) : Prop :=
  issued.Pairwise fun new old => new.1 ≠ old.1 → old.2 < new.2

/-- The lease was handed out, and later the key was handed to somebody else. -/
def Superseded (issued : List (ρ × Nat)) (holder : ρ) (epoch : Nat) : Prop :=
  ∃ newer older, issued = newer ++ (holder, epoch) :: older ∧ ∃ p ∈ newer, p.1 ≠ holder

/-- The epoch history of a key agrees with its row. -/
structure Fenced (cell : Option (Row ρ τ)) (issued : List (ρ × Nat)) : Prop where
  increase : EpochsIncrease issued
  positive : ∀ p ∈ issued, 1 ≤ p.2
  bounded : ∀ row, cell = some row → ∀ p ∈ issued, p.2 ≤ row.epoch
  above : ∀ row, cell = some row → ∀ p ∈ issued, p.1 ≠ row.owner → p.2 < row.epoch
  current : ∀ row, cell = some row → (row.owner, row.epoch) ∈ issued
  alone : ∀ o, (∀ p ∈ issued, p.1 = o) → ∀ p ∈ issued, p.2 = 1

theorem Fenced.empty : Fenced (none : Option (Row ρ τ)) [] :=
  ⟨.nil, by simp, by simp, by simp, by simp, by simp⟩

theorem EpochsIncrease.cons {issued : List (ρ × Nat)} {p : ρ × Nat} (h : EpochsIncrease issued)
    (hp : ∀ q ∈ issued, p.1 ≠ q.1 → q.2 < p.2) : EpochsIncrease (p :: issued) :=
  List.pairwise_cons.mpr ⟨hp, h⟩

section Epochs

/-- A lease that is handed out with its row keeps the history fenced, if its
epoch is in order and is above one once two parties were handed the key. -/
theorem Fenced.handOut {cell : Option (Row ρ τ)} {issued : List (ρ × Nat)}
    (h : Fenced cell issued) (row : Row ρ τ) (hpos : 1 ≤ row.epoch)
    (hbound : ∀ p ∈ issued, p.2 ≤ row.epoch)
    (habove : ∀ p ∈ issued, p.1 ≠ row.owner → p.2 < row.epoch)
    (halone : (∀ p ∈ issued, p.1 = row.owner) → row.epoch = 1) :
    Fenced (some row) ((row.owner, row.epoch) :: issued) := by
  refine ⟨h.increase.cons fun q hq hne => habove q hq (Ne.symm hne), ?_, ?_, ?_, ?_, ?_⟩
  · intro p hp
    rcases List.mem_cons.mp hp with rfl | hp
    · exact hpos
    · exact h.positive p hp
  · intro r hr p hp
    cases hr
    rcases List.mem_cons.mp hp with rfl | hp
    · exact Nat.le_refl _
    · exact hbound p hp
  · intro r hr p hp hne
    cases hr
    rcases List.mem_cons.mp hp with rfl | hp
    · exact absurd rfl hne
    · exact habove p hp hne
  · intro r hr
    cases hr
    exact List.mem_cons_self
  · intro o ho p hp
    have howner : row.owner = o := ho _ List.mem_cons_self
    have hold : ∀ q ∈ issued, q.1 = o := fun q hq => ho q (List.mem_cons_of_mem _ hq)
    rcases List.mem_cons.mp hp with rfl | hp
    · exact halone fun q hq => (hold q hq).trans howner.symm
    · exact h.alone o hold p hp

variable [LT τ] {now til : τ} {me : ρ} {cell : Option (Row ρ τ)} {row' : Row ρ τ}
  {issued : List (ρ × Nat)}

/-- A claim that is handed out keeps the history fenced, provided that a fresh
row is only inserted for a key nobody else was ever handed. -/
theorem Fenced.claim (h : Fenced cell issued) (hs : RowStep now til me cell (some row'))
    (hfresh : cell = none → ∀ p ∈ issued, p.1 = me) :
    Fenced (some row') ((me, row'.epoch) :: issued) := by
  cases hs with
  | insert =>
    have hall := hfresh rfl
    have hone := h.alone me hall
    apply h.handOut ⟨me, 1, til⟩ (Nat.le_refl 1)
    · intro p hp
      exact Nat.le_of_eq (hone p hp)
    · intro p hp hne
      exact absurd (hall p hp) hne
    · intro _
      rfl
  | @extend row own =>
    subst own
    have hmem := h.current row rfl
    apply h.handOut { row with expiresAt := til }
    · exact h.positive _ hmem
    · exact h.bounded row rfl
    · exact h.above row rfl
    · intro hall
      exact h.alone _ hall _ hmem
  | @takeOver row other expired =>
    have hbound := h.bounded row rfl
    apply h.handOut ⟨me, row.epoch + 1, til⟩ (Nat.succ_le_succ (Nat.zero_le _))
    · intro p hp
      exact Nat.le_succ_of_le (hbound p hp)
    · intro p hp _
      exact Nat.lt_succ_of_le (hbound p hp)
    · intro hall
      exact absurd (hall _ (h.current row rfl)) other

end Epochs

/-- Extending one's own row hands nothing out and moves no epoch. -/
theorem Fenced.renew {row : Row ρ τ} {til : τ} {issued : List (ρ × Nat)}
    (h : Fenced (some row) issued) :
    Fenced (some { row with expiresAt := til }) issued := by
  refine ⟨h.increase, h.positive, ?_, ?_, ?_, h.alone⟩
  · intro r hr
    cases hr
    exact h.bounded row rfl
  · intro r hr
    cases hr
    exact h.above row rfl
  · intro r hr
    cases hr
    exact h.current row rfl

theorem Fenced.delete {cell : Option (Row ρ τ)} {issued : List (ρ × Nat)}
    (h : Fenced cell issued) : Fenced (none : Option (Row ρ τ)) issued :=
  ⟨h.increase, h.positive, by simp, by simp, by simp, h.alone⟩

/-- A superseded lease no longer matches the row, whoever owns it now. -/
theorem Fenced.superseded_stale {row : Row ρ τ} {issued : List (ρ × Nat)} {holder : ρ}
    {epoch : Nat} (h : Fenced (some row) issued) (hs : Superseded issued holder epoch) :
    row.epoch ≠ epoch := by
  obtain ⟨newer, older, rfl, p, hp, hne⟩ := hs
  have hlt : epoch < p.2 :=
    (List.pairwise_append.mp h.increase).2.2 p hp (holder, epoch) List.mem_cons_self hne
  have hle := h.bounded row rfl p (List.mem_append_left _ hp)
  exact Nat.ne_of_gt (Nat.lt_of_lt_of_le hlt hle)

/-- Restarting at epoch one after somebody else was handed the key breaks the
order at once. -/
theorem Fenced.restart_breaks {cell : Option (Row ρ τ)} {issued : List (ρ × Nat)} {me : ρ}
    (h : Fenced cell issued) (hother : ¬∀ p ∈ issued, p.1 = me) :
    ¬EpochsIncrease ((me, 1) :: issued) := by
  intro hinc
  apply hother
  intro p hp
  by_contra hne
  have hlt := (List.pairwise_cons.mp hinc).1 p hp (Ne.symm hne)
  exact absurd (h.positive p hp) (Nat.not_le_of_lt hlt)

end FencedLease
