import Mathlib.Tactic.Common

namespace Machine

variable {σ α : Type*} (step : σ → α → Option σ)

/-- A run takes its actions in order and stops at the first disabled one. -/
def run : σ → List α → Option σ
  | s, [] => some s
  | s, a :: as => (step s a).bind fun s' => run s' as

/-- Every action of the run meets a condition on the state it is taken in. -/
def Steps (ok : σ → α → Prop) : σ → List α → Prop
  | _, [] => True
  | s, a :: as => ok s a ∧ ∀ s', step s a = some s' → Steps ok s' as

/-- A state property holds in every state the run passes through. -/
def Always (good : σ → Prop) : σ → List α → Prop
  | s, [] => good s
  | s, a :: as => good s ∧ ∀ s', step s a = some s' → Always good s' as

variable {step}

theorem run_cons {s t : σ} {a : α} {as : List α} (h : run step s (a :: as) = some t) :
    ∃ s', step s a = some s' ∧ run step s' as = some t :=
  Option.bind_eq_some_iff.mp h

theorem run_step {s s' : σ} {a : α} (h : step s a = some s') (as : List α) :
    run step s (a :: as) = run step s' as := by
  rw [run, h]
  rfl

theorem run_append {s t : σ} {as : List α} (bs : List α) (h : run step s as = some t) :
    run step s (as ++ bs) = run step t bs := by
  induction as generalizing s with
  | nil =>
    cases h
    rfl
  | cons a as ih =>
    obtain ⟨s', ha, hr⟩ := run_cons h
    rw [List.cons_append, run, ha]
    exact ih hr

theorem steps_cons {ok : σ → α → Prop} {s s' : σ} {a : α} {as : List α} (hok : ok s a)
    (h : step s a = some s') (hrest : Steps step ok s' as) : Steps step ok s (a :: as) := by
  refine ⟨hok, ?_⟩
  intro t ht
  obtain rfl := Option.some.inj (h.symm.trans ht)
  exact hrest

/-- Where two conditions come to the same in every state, they do for a run. -/
theorem steps_congr {ok ok' : σ → α → Prop} {as : List α}
    (h : ∀ a ∈ as, ∀ s, ok s a ↔ ok' s a) (s : σ) : Steps step ok s as ↔ Steps step ok' s as := by
  induction as generalizing s with
  | nil => exact Iff.rfl
  | cons a as ih =>
    have hrest := ih fun b hb => h b (List.mem_cons_of_mem a hb)
    exact and_congr (h a (List.mem_cons_self ..) s) (forall_congr' fun s' => imp_congr_right fun _ =>
      hrest s')

/-- What every enabled step preserves, every run preserves. -/
theorem run_invariant {P : σ → Prop} (keep : ∀ s a s', P s → step s a = some s' → P s')
    {s t : σ} {as : List α} (hs : P s) (h : run step s as = some t) : P t := by
  induction as generalizing s with
  | nil => cases h; exact hs
  | cons a as ih =>
    obtain ⟨s', ha, hr⟩ := run_cons h
    exact ih (keep s a s' hs ha) hr

theorem always_of_invariant {P : σ → Prop} (keep : ∀ s a s', P s → step s a = some s' → P s')
    {s : σ} (hs : P s) (as : List α) : Always step P s as := by
  induction as generalizing s with
  | nil => exact hs
  | cons a as ih => exact ⟨hs, fun s' ha => ih (keep s a s' hs ha)⟩

theorem steps_of_invariant {P : σ → Prop} {ok : σ → α → Prop}
    (keep : ∀ s a s', P s → step s a = some s' → P s') (hok : ∀ s a, P s → ok s a)
    {s : σ} (hs : P s) (as : List α) : Steps step ok s as := by
  induction as generalizing s with
  | nil => trivial
  | cons a as ih => exact ⟨hok s a hs, fun s' ha => ih (keep s a s' hs ha)⟩

theorem always_mono {P Q : σ → Prop} (hpq : ∀ s, P s → Q s) {s : σ} {as : List α}
    (h : Always step P s as) : Always step Q s as := by
  induction as generalizing s with
  | nil => exact hpq s h
  | cons a as ih => exact ⟨hpq s h.1, fun s' hs => ih (h.2 s' hs)⟩

/-- What holds throughout a run holds where it ends. -/
theorem always_end {P : σ → Prop} {s t : σ} {as : List α} (h : Always step P s as)
    (hr : run step s as = some t) : P t := by
  induction as generalizing s with
  | nil =>
    cases hr
    exact h
  | cons a as ih =>
    obtain ⟨s', ha, hr⟩ := run_cons hr
    exact ih (h.2 s' ha) hr

section Exact

variable {ok : σ → α → Prop} {P : σ → Prop}

theorem always_of_steps (keep : ∀ s a s', P s → ok s a → step s a = some s' → P s')
    {s : σ} {as : List α} (hs : P s) (h : Steps step ok s as) : Always step P s as := by
  induction as generalizing s with
  | nil => exact hs
  | cons a as ih => exact ⟨hs, fun s' ha => ih (keep s a s' hs h.1 ha) (h.2 s' ha)⟩

/-- One condition on the steps of a run carries another, if it does so in the
states that the run keeps to. -/
theorem steps_of_steps {ok' : σ → α → Prop} (himp : ∀ s a, P s → ok s a → ok' s a)
    (keep : ∀ s a s', P s → ok s a → step s a = some s' → P s')
    {s : σ} {as : List α} (hs : P s) (h : Steps step ok s as) : Steps step ok' s as := by
  induction as generalizing s with
  | nil => trivial
  | cons a as ih =>
    exact ⟨himp s a hs h.1, fun s' ha => ih (keep s a s' hs h.1 ha) (h.2 s' ha)⟩

/-- When a step outside the condition leaves the good states at once, the
condition is exact for the whole run. -/
theorem always_iff_steps {good : σ → Prop} (hgood : ∀ s, P s → good s)
    (keep : ∀ s a s', P s → ok s a → step s a = some s' → P s')
    (leave : ∀ s a s', P s → ¬ok s a → step s a = some s' → ¬good s')
    {s t : σ} {as : List α} (hs : P s) (hr : run step s as = some t) :
    Always step good s as ↔ Steps step ok s as := by
  constructor
  · intro h
    induction as generalizing s with
    | nil => trivial
    | cons a as ih =>
      obtain ⟨s', ha, hr⟩ := run_cons hr
      have hok : ok s a := by
        by_contra hn
        apply leave s a s' hs hn ha
        have hlater := h.2 s' ha
        cases as with
        | nil => exact hlater
        | cons b bs => exact hlater.1
      refine ⟨hok, fun s'' ha' => ?_⟩
      obtain rfl := Option.some.inj (ha.symm.trans ha')
      exact ih (keep s a s' hs hok ha) hr (h.2 s' ha)
  · exact fun h => always_mono hgood (always_of_steps keep hs h)

/-- A step outside the condition does damage that no later step repairs: a run
ends either undamaged with every step inside the condition, or damaged. -/
theorem run_verdict {lost : σ → Prop}
    (keep : ∀ s a s', P s → ok s a → step s a = some s' → P s')
    (damage : ∀ s a s', P s → ¬ok s a → step s a = some s' → lost s')
    (stay : ∀ s a s', lost s → step s a = some s' → lost s')
    {s t : σ} {as : List α} (hs : P s) (hr : run step s as = some t) :
    (P t ∧ Steps step ok s as) ∨ (lost t ∧ ¬Steps step ok s as) := by
  induction as generalizing s with
  | nil => cases hr; exact Or.inl ⟨hs, trivial⟩
  | cons a as ih =>
    obtain ⟨s', ha, hr⟩ := run_cons hr
    by_cases hok : ok s a
    · rcases ih (keep s a s' hs hok ha) hr with ⟨hp, hst⟩ | ⟨hl, hst⟩
      · refine Or.inl ⟨hp, hok, fun s'' ha' => ?_⟩
        obtain rfl := Option.some.inj (ha.symm.trans ha')
        exact hst
      · exact Or.inr ⟨hl, fun h => hst (h.2 s' ha)⟩
    · exact Or.inr ⟨run_invariant stay (damage s a s' hs hok ha) hr, fun h => hok h.1⟩

end Exact

section Ranked

variable {P : σ → Prop} {rank : σ → Nat}

/-- Where every step lowers a rank, a run is no longer than the rank it uses up. -/
theorem run_ranked (keep : ∀ s a s', P s → step s a = some s' → P s')
    (lower : ∀ s a s', P s → step s a = some s' → rank s' < rank s)
    {s t : σ} {as : List α} (hs : P s) (hr : run step s as = some t) :
    as.length + rank t ≤ rank s := by
  induction as generalizing s with
  | nil =>
    cases hr
    exact Nat.le_of_eq (Nat.zero_add _)
  | cons a as ih =>
    obtain ⟨s', ha, hr⟩ := run_cons hr
    have hrest := ih (keep s a s' hs ha) hr
    have hstep := lower s a s' hs ha
    rw [List.length_cons]
    omega

/-- Whatever actions come, the machine stops. -/
theorem exists_stop (keep : ∀ s a s', P s → step s a = some s' → P s')
    (lower : ∀ s a s', P s → step s a = some s' → rank s' < rank s)
    {s : σ} (hs : P s) (next : Nat → α) :
    ∃ k t, run step s ((List.range k).map next) = some t ∧ step t (next k) = none := by
  induction hn : rank s using Nat.strongRecOn generalizing s next with
  | _ n ih =>
    cases ha : step s (next 0) with
    | none => exact ⟨0, s, rfl, ha⟩
    | some s' =>
      have hlower := lower s (next 0) s' hs ha
      obtain ⟨k, t, hr, hstop⟩ := ih (rank s') (hn ▸ hlower) (keep s (next 0) s' hs ha)
        (fun i => next (i + 1)) rfl
      refine ⟨k + 1, t, ?_, hstop⟩
      rw [List.range_succ_eq_map, List.map_cons, List.map_map, run, ha]
      exact hr

end Ranked

section Assured

variable (step) in
/-- However a run goes, it can still be taken to a good state. -/
def Assured (good : σ → Prop) (s : σ) : Prop :=
  ∀ as t, run step s as = some t → ∃ bs u, run step t bs = some u ∧ good u

/-- An invariant from which a good state can be reached assures it. -/
theorem assured_of_invariant {good P : σ → Prop}
    (keep : ∀ s a s', P s → step s a = some s' → P s')
    (reach : ∀ s, P s → ∃ bs u, run step s bs = some u ∧ good u) {s : σ} (hs : P s) :
    Assured step good s :=
  fun _ t hr => reach t (run_invariant keep hs hr)

/-- What is assured is compatible with every invariant. -/
theorem Assured.exists {good P : σ → Prop} {s : σ} (h : Assured step good s)
    (keep : ∀ s a s', P s → step s a = some s' → P s') (hs : P s) : ∃ u, P u ∧ good u := by
  obtain ⟨bs, u, hu, hgood⟩ := h [] s rfl
  exact ⟨u, run_invariant keep hs hu, hgood⟩

end Assured

end Machine
