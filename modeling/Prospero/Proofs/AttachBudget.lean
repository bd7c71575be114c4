import Prospero.Proofs.Attach

namespace Prospero.Proofs.AttachBudget
open Prospero.Attach Proofs.Attach

variable {t : Target} {l l' : Loop} {c : Connection}

/-- How the retry budget goes on over a connection: the loop returns, or it has an attempt
left and uses it. -/
theorem step_attempt (h : step t l c = some l') :
    (l'.outcome ≠ none ∧ (l'.attempt = l.attempt ∨ l'.attempt = 0)) ∨
      (l'.outcome = none ∧ l'.attempt ≤ t.maxRetries ∧
        l'.attempt = (if l.framesSeen < l'.framesSeen then 0 else l.attempt) + 1) := by
  unfold step at h
  cases hout : l.outcome with
  | some _ => simp [hout] at h
  | none =>
    simp only [hout] at h
    cases hr : attachOnce t l c with
    | mk r streamOutcome =>
      simp only [hr] at h
      have hreset : (if l.framesSeen < r.framesSeen then 0 else l.attempt) = l.attempt ∨
          (if l.framesSeen < r.framesSeen then 0 else l.attempt) = 0 := by
        split
        · exact Or.inr rfl
        · exact Or.inl rfl
      cases streamOutcome <;> simp only [Option.some.injEq] at h <;> subst h
      case finished => exact Or.inl ⟨nofun, Or.inl rfl⟩
      case drained => exact Or.inl ⟨nofun, Or.inl rfl⟩
      all_goals
        by_cases hsignal : c.signal = .afterRead
        · rw [if_pos hsignal]
          exact Or.inl ⟨nofun, Or.inl rfl⟩
        · rw [if_neg hsignal]
          by_cases hspent :
              t.maxRetries ≤ (if l.framesSeen < r.framesSeen then 0 else l.attempt)
          · rw [if_pos hspent]
            exact Or.inl ⟨nofun, hreset⟩
          · rw [if_neg hspent]
            by_cases hbackoff : c.signal = .inBackoff
            · rw [if_pos hbackoff]
              exact Or.inl ⟨nofun, hreset⟩
            · rw [if_neg hbackoff]
              exact Or.inr ⟨rfl, Nat.lt_of_not_le hspent, rfl⟩

/-- What the loop keeps to. -/
structure Within (t : Target) (l : Loop) : Prop where
  frames : l.framesSeen ≤ (streamLines t).length
  attempt : l.attempt ≤ t.maxRetries

theorem Within.start (t : Target) : Within t Loop.start := ⟨Nat.zero_le _, Nat.zero_le _⟩

theorem frames_mono (h : step t l c = some l') : l.framesSeen ≤ l'.framesSeen := by
  rw [(step_spec h).1]
  exact Nat.le_max_left ..

theorem Within.step (hl : Within t l) (h : step t l c = some l') : Within t l' := by
  constructor
  · rw [(step_spec h).1]
    exact Nat.max_le.mpr ⟨hl.frames, arrived_length_le t c⟩
  · rcases step_attempt h with ⟨-, hsame | hzero⟩ | ⟨-, hle, -⟩
    · rw [hsame]
      exact hl.attempt
    · rw [hzero]
      exact Nat.zero_le _
    · exact hle

def budget (t : Target) : Nat := ((streamLines t).length + 1) * (t.maxRetries + 1)

/-- What is spent: every frame counts for a full round of attempts. -/
def spent (t : Target) (l : Loop) : Nat := l.framesSeen * (t.maxRetries + 1) + l.attempt

/-- The connections a loop has left at most. -/
def connectionsLeft (t : Target) (l : Loop) : Nat :=
  if l.outcome = none then budget t - spent t l else 0

theorem Within.spent_lt (hl : Within t l) : spent t l < budget t := by
  have hframes := Nat.mul_le_mul_right (t.maxRetries + 1) hl.frames
  have hattempt := hl.attempt
  unfold spent budget
  rw [Nat.add_mul, Nat.one_mul]
  omega

/-- A further connection is paid for by a new frame or by an attempt. -/
theorem spent_step (hl : Within t l) (h : Attach.step t l c = some l') (hon : l'.outcome = none) :
    spent t l < spent t l' := by
  have hmono := frames_mono h
  have hattempt := hl.attempt
  rcases step_attempt h with ⟨hdone, -⟩ | ⟨-, -, hnext⟩
  · exact absurd hon hdone
  · unfold spent
    by_cases hnew : l.framesSeen < l'.framesSeen
    · have hround := Nat.mul_le_mul_right (t.maxRetries + 1) hnew
      rw [Nat.succ_mul] at hround
      omega
    · rw [if_neg hnew] at hnext
      have hround := Nat.mul_le_mul_right (t.maxRetries + 1) hmono
      omega

theorem connectionsLeft_lt (hl : Within t l) (h : Attach.step t l c = some l') :
    connectionsLeft t l' < connectionsLeft t l := by
  have hrunning : l.outcome = none := by
    unfold Attach.step at h
    cases hout : l.outcome with
    | none => rfl
    | some o => simp [hout] at h
  have hlt := hl.spent_lt
  unfold connectionsLeft
  rw [if_pos hrunning]
  split
  · rename_i hon
    have hspent := spent_step hl h hon
    omega
  · omega

theorem outcome_of_stuck (h : Attach.step t l c = none) : ∃ o, l.outcome = some o := by
  unfold Attach.step at h
  cases hout : l.outcome with
  | some o => exact ⟨o, rfl⟩
  | none =>
    simp only [hout] at h
    cases hr : attachOnce t l c with
    | mk r streamOutcome => cases streamOutcome <;> simp [hr] at h

/-- A run of `attach_loop` keeps to its budget of connections and attempts, and whatever
connections come next, it comes to its end within that budget. -/
theorem attach_bounded (t : Target) (cs : List Connection) (l : Loop)
    (h : Machine.run (Attach.step t) Loop.start cs = some l) :
    cs.length ≤ ((streamLines t).length + 1) * (t.maxRetries + 1) ∧
      l.attempt ≤ t.maxRetries ∧ l.framesSeen ≤ (streamLines t).length ∧
      (∀ c l', Attach.step t l c = some l' → l.framesSeen ≤ l'.framesSeen) ∧
      ∀ next : Nat → Connection, ∃ k l' o,
        Machine.run (Attach.step t) Loop.start (cs ++ (List.range k).map next) = some l' ∧
        l'.outcome = some o ∧
        cs.length + k ≤ ((streamLines t).length + 1) * (t.maxRetries + 1) := by
  have hkeep : ∀ l c l', Within t l → Attach.step t l c = some l' → Within t l' :=
    fun _ _ _ hl h => hl.step h
  have hlower : ∀ l c l', Within t l → Attach.step t l c = some l' →
      connectionsLeft t l' < connectionsLeft t l := fun _ _ _ hl h => connectionsLeft_lt hl h
  have hfull : connectionsLeft t Loop.start = budget t := by
    simp [connectionsLeft, Loop.start, spent]
  have hend := Machine.run_invariant hkeep (Within.start t) h
  have hcount := Machine.run_ranked hkeep hlower (Within.start t) h
  rw [hfull] at hcount
  refine ⟨le_trans (Nat.le_add_right _ _) hcount, hend.attempt, hend.frames,
    fun _ _ => frames_mono, ?_⟩
  intro next
  obtain ⟨k, l', hrun, hstop⟩ := Machine.exists_stop hkeep hlower hend next
  obtain ⟨o, ho⟩ := outcome_of_stuck hstop
  have hrest := Machine.run_ranked hkeep hlower hend hrun
  rw [List.length_map, List.length_range] at hrest
  refine ⟨k, l', o, ?_, ho, ?_⟩
  · rw [Machine.run_append _ h]
    exact hrun
  · unfold budget at hcount
    omega

theorem attach_bounded_resumed : ∃ l,
    Machine.run (Attach.step someTarget) Loop.start (resumedAfter .readError) = some l ∧
      (resumedAfter .readError).length ≤ 3 * 4 ∧ l.attempt ≤ 3 ∧ l.framesSeen ≤ 2 := by
  obtain ⟨hcount, hattempt, hframes, -⟩ :=
    attach_bounded someTarget (resumedAfter .readError) _ rfl
  exact ⟨_, rfl, hcount, hattempt, hframes⟩

end Prospero.Proofs.AttachBudget
