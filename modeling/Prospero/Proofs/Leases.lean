import Mathlib.Data.Int.Order.Basic
import Prospero.Leases

namespace Prospero.Proofs.Leases
open Prospero.Leases FencedLease

/-- Who executes an action; the clock is nobody's. -/
def actor (w : World) : Action → Option ReplicaId
  | .tick _ => none
  | .tryAcquire _ me _ _ | .renew me _ _ | .forgetHeld _ me _ | .heartbeat _ me _ => some me
  | .recordHeld call | .release call _ | .heartbeatRenew call _ | .dropLost call =>
    (w.calls call).map Prod.fst

/-- The replica and stream whose acquire or renew succeeds in this action. -/
def granted (w : World) : Action → Option (ReplicaId × StreamKey)
  | .tryAcquire call me key ok =>
    if (w.calls call).isNone ∧ ok ∧ (tryAcquireSql w.now (w.ttl me) me key w.table).2.isSome then
      some (me, key)
    else none
  | .renew me lease ok => if (w.renew me lease ok).2 then some (me, lease.streamKey) else none
  | .heartbeatRenew call ok =>
    match w.calls call with
    | some (me, .renewing (lease :: _)) =>
      if (w.renew me lease ok).2 then some (me, lease.streamKey) else none
    | _ => none
  | _ => none

/-- The replica and stream whose `release` reaches its `DELETE` in this action. -/
def released (w : World) : Action → Option (ReplicaId × StreamKey)
  | .release call _ =>
    match w.calls call with
    | some (me, .released key) => some (me, key)
    | _ => none
  | _ => none

theorem tryAcquireSql_spec (now ttl : Int) (me : ReplicaId) (key : StreamKey) (t : Table) :
    (tryAcquireSql now ttl me key t = (t, none)) ∨
    ∃ epoch, tryAcquireSql now ttl me key t =
        (Function.update t key (some ⟨me, epoch, now + ttl⟩), some epoch) ∧
      RowStep now (now + ttl) me (t key) (some ⟨me, epoch, now + ttl⟩) := by
  unfold tryAcquireSql
  cases hrow : t key with
  | none => exact Or.inr ⟨1, rfl, .insert⟩
  | some row =>
    by_cases hown : row.owner = me
    · refine Or.inr ⟨row.epoch, by simp [hown], ?_⟩
      have hs : RowStep now (now + ttl) me (some row) (some { row with expiresAt := now + ttl }) :=
        .extend hown
      rwa [← hown] at hs ⊢
    · by_cases hexp : row.expiresAt < now
      · exact Or.inr ⟨row.epoch + 1, by simp [hown, hexp], .takeOver hown hexp⟩
      · exact Or.inl (by simp [hown, hexp])

theorem renewSql_spec (now ttl : Int) (me : ReplicaId) (lease : Lease) (t : Table) :
    (renewSql now ttl me lease t = (t, false) ∧
      ∀ row, t lease.streamKey = some row → ¬(row.owner = me ∧ row.epoch = lease.epoch)) ∨
    ∃ row, t lease.streamKey = some row ∧ row.owner = me ∧ row.epoch = lease.epoch ∧
      renewSql now ttl me lease t =
        (Function.update t lease.streamKey (some { row with expiresAt := now + ttl }), true) := by
  unfold renewSql
  cases hrow : t lease.streamKey with
  | none => exact Or.inl ⟨rfl, by simp⟩
  | some row =>
    by_cases h : row.owner = me ∧ row.epoch = lease.epoch
    · exact Or.inr ⟨row, rfl, h.1, h.2, by simp [h]⟩
    · refine Or.inl ⟨by simp [h], ?_⟩
      intro r hr
      cases hr
      exact h

theorem releaseSql_spec (me : ReplicaId) (key : StreamKey) (t : Table) :
    (releaseSql me key t = t ∧ ∀ row, t key = some row → row.owner ≠ me) ∨
    ∃ row, t key = some row ∧ row.owner = me ∧ releaseSql me key t = Function.update t key none := by
  unfold releaseSql
  cases hrow : t key with
  | none => exact Or.inl ⟨rfl, by simp⟩
  | some row =>
    by_cases h : row.owner = me
    · exact Or.inr ⟨row, rfl, h, by simp [h]⟩
    · refine Or.inl ⟨by simp [h], ?_⟩
      intro r hr
      cases hr
      exact h

/-- All that an action can do to the table and to the history of one key. -/
inductive Effect (w : World) (a : Action) (w' : World) (key : StreamKey) : Prop
  | same (quiet : ∀ me, granted w a ≠ some (me, key)) (table : w'.table key = w.table key)
      (issued : w'.issued key = w.issued key)
  | claim (call : Nat) (me : ReplicaId) (epoch : Nat)
      (action : a = .tryAcquire call me key true) (grant : granted w a = some (me, key))
      (step : RowStep w.now (w.now + w.ttl me) me (w.table key)
        (some ⟨me, epoch, w.now + w.ttl me⟩))
      (table : w'.table key = some ⟨me, epoch, w.now + w.ttl me⟩)
      (issued : w'.issued key = (me, epoch) :: w.issued key)
  | renew (me : ReplicaId) (row : LeaseRow) (who : actor w a = some me)
      (grant : granted w a = some (me, key))
      (row_eq : w.table key = some row) (own : row.owner = me)
      (table : w'.table key = some { row with expiresAt := w.now + w.ttl me })
      (issued : w'.issued key = w.issued key)
  | delete (me : ReplicaId) (row : LeaseRow) (who : actor w a = some me)
      (release : released w a = some (me, key))
      (row_eq : w.table key = some row) (own : row.owner = me)
      (table : w'.table key = none) (issued : w'.issued key = w.issued key)

theorem renew_effect {w w' : World} {a : Action} {me : ReplicaId} (lease : Lease) (ok : Bool)
    (ht : w'.table = (w.renew me lease ok).1.table) (hi : w'.issued = w.issued)
    (hwho : actor w a = some me)
    (hg : granted w a = if (w.renew me lease ok).2 then some (me, lease.streamKey) else none)
    (key : StreamKey) : Effect w a w' key := by
  have hsame : w'.issued key = w.issued key := congrFun hi key
  unfold World.renew at ht hg
  cases ok with
  | false => exact .same (by simp [hg]) (congrFun ht key) hsame
  | true =>
    simp only [↓reduceIte] at ht hg
    rcases renewSql_spec w.now (w.ttl me) me lease w.table with ⟨he, _⟩ | ⟨row, hrow, hown, hep, he⟩
    · rw [he] at ht hg
      exact .same (by simp [hg]) (congrFun ht key) hsame
    · rw [he] at ht hg
      by_cases hk : key = lease.streamKey
      · subst hk
        exact .renew me row hwho hg hrow hown (by rw [ht]; simp) hsame
      · exact .same (by simp [hg, Ne.symm hk]) (by rw [ht]; simp [hk]) hsame

/-- One case per action, once and for all. -/
theorem step_effect {w w' : World} {a : Action} (h : w.step a = some w') (key : StreamKey) :
    Effect w a w' key := by
  cases a with
  | tick elapsed =>
    cases h
    exact .same (by simp [granted]) rfl rfl
  | tryAcquire call me k ok =>
    simp only [World.step, World.tryAcquire] at h
    cases hc : w.calls call with
    | some c => simp [hc] at h
    | none =>
      cases ok with
      | false =>
        simp only [hc, Bool.false_eq_true, ↓reduceIte, Option.some.injEq] at h
        subst h
        exact .same (by simp [granted]) rfl rfl
      | true =>
        rcases tryAcquireSql_spec w.now (w.ttl me) me k w.table with he | ⟨epoch, he, hs⟩
        · simp only [hc, he, ↓reduceIte, Option.some.injEq] at h
          subst h
          exact .same (by simp [granted, he]) rfl rfl
        · simp only [hc, he, ↓reduceIte, Option.some.injEq] at h
          subst h
          by_cases hk : key = k
          · subst hk
            exact .claim call me epoch rfl (by simp [granted, hc, he]) hs (by simp) (by simp)
          · exact .same (by simp [granted, Ne.symm hk]) (by simp [hk]) (by simp [hk])
  | recordHeld call =>
    simp only [World.step] at h
    split at h <;> cases h
    exact .same (by simp [granted]) rfl rfl
  | renew me lease ok =>
    cases h
    refine renew_effect lease ok rfl ?_ rfl rfl key
    cases ok <;> rfl
  | forgetHeld call me k =>
    simp only [World.step] at h
    split at h <;> cases h
    exact .same (by simp [granted]) rfl rfl
  | release call ok =>
    simp only [World.step] at h
    split at h
    · rename_i me k hc
      cases h
      cases ok with
      | false => exact .same (by simp [granted]) rfl rfl
      | true =>
        rcases releaseSql_spec me k w.table with ⟨he, _⟩ | ⟨row, hrow, hown, he⟩
        · exact .same (by simp [granted]) (by simp [he]) rfl
        · by_cases hk : key = k
          · subst hk
            exact .delete me row (by simp [actor, hc]) (by simp [released, hc]) hrow hown
              (by simp [he]) rfl
          · exact .same (by simp [granted]) (by simp [he, hk]) rfl
    · cases h
  | heartbeat call me leases =>
    simp only [World.step] at h
    split at h
    · split at h <;> cases h
      exact .same (by simp [granted]) rfl rfl
    · cases h
  | heartbeatRenew call ok =>
    simp only [World.step] at h
    split at h
    · rename_i me lease rest hc
      have hi : (w.renew me lease ok).1.issued = w.issued := by cases ok <;> rfl
      have hwho : actor w (.heartbeatRenew call ok) = some me := by simp [actor, hc]
      split at h <;> rename_i w₁ hr <;> cases h
      all_goals
        have ht : w₁.table = (w.renew me lease ok).1.table := by rw [hr]
        rw [hr] at hi
        exact renew_effect lease ok (by exact ht) (by exact hi) hwho (by simp [granted, hc]) key
    · rename_i me hc
      cases h
      exact .same (by simp [granted, hc]) rfl rfl
    · cases h
  | dropLost call =>
    simp only [World.step] at h
    split at h <;> cases h
    exact .same (by simp [granted]) rfl rfl

theorem renew_clock (w : World) (me : ReplicaId) (lease : Lease) (ok : Bool) :
    (w.renew me lease ok).1.now = w.now ∧ (w.renew me lease ok).1.ttl = w.ttl := by
  cases ok <;> exact ⟨rfl, rfl⟩

/-- The database clock never runs backwards and TTLs are fixed. -/
theorem step_clock {w w' : World} {a : Action} (h : w.step a = some w') :
    w.now ≤ w'.now ∧ w'.ttl = w.ttl := by
  cases a with
  | tick elapsed =>
    cases h
    have hlater : w.now ≤ w.now + (elapsed : Int) := by omega
    exact ⟨hlater, rfl⟩
  | heartbeatRenew call ok =>
    simp only [World.step] at h
    split at h
    · rename_i me lease rest hc
      have hclock := renew_clock w me lease ok
      split at h <;> rename_i w₁ hr <;> cases h
      all_goals rw [hr] at hclock
      all_goals exact ⟨Int.le_of_eq hclock.1.symm, hclock.2⟩
    · cases h
      exact ⟨Int.le_refl _, rfl⟩
    · cases h
  | renew me lease ok =>
    cases h
    exact ⟨Int.le_of_eq (renew_clock w me lease ok).1.symm, (renew_clock w me lease ok).2⟩
  | _ =>
    simp only [World.step, World.tryAcquire] at h
    repeat' first | split at h | cases h
    all_goals exact ⟨Int.le_refl _, rfl⟩

theorem run_clock {w w' : World} {as : List Action} (h : Machine.run World.step w as = some w') :
    w.now ≤ w'.now ∧ w'.ttl = w.ttl := by
  refine Machine.run_invariant (P := fun v => w.now ≤ v.now ∧ v.ttl = w.ttl) ?_
    ⟨Int.le_refl _, rfl⟩ h
  intro v a v' hv hs
  obtain ⟨hn, ht⟩ := step_clock hs
  exact ⟨Int.le_trans hv.1 hn, ht.trans hv.2⟩

/-- A successful acquire or renew leaves the replica holding the row for its
whole TTL. -/
theorem granted_holds {w w' : World} {a : Action} {me : ReplicaId} {key : StreamKey}
    (h : w.step a = some w') (hg : granted w a = some (me, key)) :
    HeldUntil me (w.now + w.ttl me) (w'.table key) := by
  cases step_effect h key with
  | same quiet => exact absurd hg (quiet me)
  | claim call who epoch action grant step table =>
    cases grant.symm.trans hg
    exact ⟨_, table, rfl, Int.le_refl _⟩
  | renew who row act grant row_eq own table =>
    cases grant.symm.trans hg
    exact ⟨_, table, own, Int.le_refl _⟩
  | delete who row act release =>
    cases a <;> simp_all [granted, released]

/-- Until its deadline a held row survives every action that is not the
holder's own `DELETE`. -/
theorem held_step {w w' : World} {a : Action} {me : ReplicaId} {key : StreamKey} {deadline : Int}
    (hd : deadline ≤ w.now + w.ttl me) (hnow : w.now ≤ deadline)
    (hheld : HeldUntil me deadline (w.table key)) (hrel : released w a ≠ some (me, key))
    (h : w.step a = some w') : HeldUntil me deadline (w'.table key) := by
  cases step_effect h key with
  | same quiet table => rwa [table]
  | claim call who epoch action grant step table =>
    by_cases hw : who = me
    · subst hw
      rw [table]
      exact hheld.own_step hd step (by simp)
    · exact absurd step (hheld.untouched hw hnow)
  | renew who row act grant row_eq own table =>
    obtain ⟨r, hr, ho, _⟩ := hheld
    cases row_eq.symm.trans hr
    refine ⟨_, table, ho, ?_⟩
    rw [← own, ho]
    exact hd
  | delete who row act release row_eq own =>
    obtain ⟨r, hr, ho, _⟩ := hheld
    cases row_eq.symm.trans hr
    rw [← own, ho] at release
    exact absurd release hrel

theorem held_run {w w' : World} {as : List Action} {me : ReplicaId} {key : StreamKey}
    {deadline : Int} (hd : deadline ≤ w.now + w.ttl me) (hnow : w'.now ≤ deadline)
    (hheld : HeldUntil me deadline (w.table key))
    (hrel : Machine.Steps World.step (fun w a => released w a ≠ some (me, key)) w as)
    (h : Machine.run World.step w as = some w') : HeldUntil me deadline (w'.table key) := by
  induction as generalizing w with
  | nil => cases h; exact hheld
  | cons a as ih =>
    obtain ⟨w₁, hs, hr⟩ := Machine.run_cons h
    obtain ⟨hn, ht⟩ := step_clock hs
    have hlater := (run_clock hr).1
    refine ih ?_ (held_step hd (by omega) hheld hrel.1 hs) (hrel.2 w₁ hs) hr
    rw [ht]
    omega

/-- A row changes hands, or disappears under its owner, only in the owner's own
statements or when an expired row is taken over. -/
theorem foreign_step {w w' : World} {a : Action} {key : StreamKey} {row : LeaseRow}
    (h : w.step a = some w') (hrow : w.table key = some row)
    (hchange : w'.table key ≠ some row) (hwho : actor w a ≠ some row.owner) :
    ∃ call me, a = .tryAcquire call me key true ∧ row.expiresAt < w.now := by
  cases step_effect h key with
  | same quiet table => exact absurd (table.trans hrow) hchange
  | claim call me epoch action grant step table =>
    refine ⟨call, me, action, ?_⟩
    rw [hrow] at step
    cases step with
    | extend own => exact absurd (by rw [action, own]; rfl) hwho
    | takeOver other expired => exact expired
  | renew me r who grant row_eq own =>
    cases row_eq.symm.trans hrow
    exact absurd (own ▸ who) hwho
  | delete me r who release row_eq own =>
    cases row_eq.symm.trans hrow
    exact absurd (own ▸ who) hwho

section Owner

/-- The replica is the owner of the stream's lease row. -/
def Owns (t : Table) (me : ReplicaId) (key : StreamKey) : Prop :=
  ∃ row, t key = some row ∧ row.owner = me

variable {w w' : World} {a : Action} {me : ReplicaId} {key : StreamKey} {call : Nat}

theorem Owns.unique {t : Table} {r r' : ReplicaId} (h : Owns t r key) (h' : Owns t r' key) :
    r = r' := by
  obtain ⟨row, hrow, rfl⟩ := h
  obtain ⟨row', hrow', rfl⟩ := h'
  cases hrow.symm.trans hrow'
  rfl

/-- The acquire would take the row over from its owner. -/
def TakesOver (w : World) (key : StreamKey) (me owner : ReplicaId) : Prop :=
  ∃ row, w.table key = some row ∧ row.owner = owner ∧ owner ≠ me ∧ row.expiresAt < w.now

/-- An owner loses its row to its own `DELETE` or to a take-over alone. -/
theorem owns_step (h : w.step a = some w') (ho : Owns w.table me key)
    (hdel : ∀ call, a = .release call true → w.calls call ≠ some (me, .released key))
    (htake : ∀ call other, a = .tryAcquire call other key true → ¬TakesOver w key other me) :
    Owns w'.table me key := by
  obtain ⟨row, hrow, hown⟩ := ho
  cases step_effect h key with
  | same quiet table => exact ⟨row, table.trans hrow, hown⟩
  | claim call other epoch action grant step table =>
    by_cases hother : other = me
    · exact ⟨_, table, hother⟩
    · rw [hrow] at step
      cases step with
      | extend own => exact absurd (own.symm.trans hown) hother
      | takeOver _ expired =>
        exact absurd ⟨row, hrow, hown, fun he => hother he.symm, expired⟩ (htake call other action)
  | renew who row' act grant row_eq own table =>
    cases hrow.symm.trans row_eq
    exact ⟨_, table, hown⟩
  | delete who row' act release row_eq own table =>
    cases hrow.symm.trans row_eq
    have hwho : who = me := own.symm.trans hown
    subst hwho
    cases a with
    | release call ok =>
      have hcall : w.calls call = some (who, .released key) := by
        simp only [released] at release
        split at release
        · rename_i hc
          cases release
          exact hc
        · cases release
      cases ok with
      | true => exact absurd hcall (hdel call rfl)
      | false =>
        have hsame : w'.table key = w.table key := by
          simp only [World.step, hcall, Option.some.injEq] at h
          subst h
          rfl
        exact ⟨row, hsame.trans hrow, hown⟩
    | _ => cases release

theorem owns_of_granted (h : w.step a = some w') (hg : granted w a = some (me, key)) :
    Owns w'.table me key := by
  obtain ⟨row, hrow, hown, _⟩ := granted_holds h hg
  exact ⟨row, hrow, hown⟩

theorem owns_of_takesOver {owner : ReplicaId} (h : w.step (.tryAcquire call me key true) = some w')
    (ht : TakesOver w key me owner) : Owns w'.table me key := by
  obtain ⟨row, hrow, hown, hne, hexp⟩ := ht
  apply owns_of_granted h
  have hcall : w.calls call = none := by
    cases hc : w.calls call with
    | none => rfl
    | some c => simp [World.step, World.tryAcquire, hc] at h
  simp [granted, hcall, tryAcquireSql, hrow, hexp]

theorem not_owns_of_release (h : w.step (.release call true) = some w')
    (hcall : w.calls call = some (me, .released key)) : ¬Owns w'.table me key := by
  simp only [World.step, hcall, Option.some.injEq] at h
  subst h
  intro ho
  obtain ⟨row, hrow, hown⟩ := ho
  rcases releaseSql_spec me key w.table with ⟨he, hnot⟩ | ⟨r, _, _, he⟩
  · exact hnot row (by simpa [he] using hrow) hown
  · simp [he] at hrow

end Owner

section Calls

variable {w w' : World} {a : Action} {call : Nat}

/-- The number an action's progress is kept under. -/
def callOf : Action → Option Nat
  | .tick _ | .renew .. => none
  | .tryAcquire call .. | .recordHeld call | .forgetHeld call .. | .release call _
  | .heartbeat call .. | .heartbeatRenew call _ | .dropLost call => some call

theorem renew_calls (w : World) (me : ReplicaId) (lease : Lease) (ok : Bool) :
    (w.renew me lease ok).1.calls = w.calls := by
  cases ok <;> rfl

theorem calls_frame (h : w.step a = some w') (hne : callOf a ≠ some call) :
    w'.calls call = w.calls call := by
  cases a with
  | tick elapsed =>
    cases h
    rfl
  | renew me lease ok =>
    cases h
    exact congrFun (renew_calls w me lease ok) call
  | heartbeatRenew c ok =>
    have hc : call ≠ c := fun he => hne (congrArg some he.symm)
    simp only [World.step] at h
    split at h
    · rename_i me lease rest _
      have hr := congrFun (renew_calls w me lease ok) call
      split at h <;> rename_i w₁ hw <;> cases h
      all_goals
        rw [hw] at hr
        simpa [World.setCall, hc] using hr
    · cases h
      simp [World.setCall, hc]
    · cases h
  | _ =>
    simp only [World.step, World.tryAcquire] at h
    repeat' first | split at h | cases h
    all_goals first
      | rfl
      | exact Function.update_of_ne (fun he => hne (congrArg some he.symm)) _ _

theorem forgetHeld_calls {me : ReplicaId} {key : StreamKey}
    (h : w.step (.forgetHeld call me key) = some w') :
    w'.calls call = some (me, .released key) := by
  simp only [World.step] at h
  split at h
  · cases h
    exact Function.update_self ..
  · cases h

/-- A release waits for its `DELETE`, whatever else happens. -/
theorem released_frame {me : ReplicaId} {key : StreamKey} (h : w.step a = some w')
    (hcall : w.calls call = some (me, .released key)) (hne : ∀ ok, a ≠ .release call ok) :
    w'.calls call = some (me, .released key) := by
  rw [← hcall]
  apply calls_frame h
  intro hc
  cases a with
  | release c ok =>
    cases hc
    exact hne ok rfl
  | tick | renew => cases hc
  | _ =>
    cases hc
    simp [World.step, World.tryAcquire, hcall] at h

end Calls

/-- Lease exclusivity. The start state and the statements before the grant are
arbitrary; `mid` is everything that happens between the grant and the attempt. -/
theorem lease_exclusive :
    (∀ (w w₁ w₂ : World) (a : Action) (mid : List Action) (me other : ReplicaId)
        (key : StreamKey) (call : Nat) (ok : Bool),
      w.step a = some w₁ → granted w a = some (me, key) →
      Machine.run World.step w₁ mid = some w₂ →
      Machine.Steps World.step (fun w a => released w a ≠ some (me, key)) w₁ mid →
      w₂.now ≤ w.now + w.ttl me → other ≠ me →
      granted w₂ (.tryAcquire call other key ok) = none) ∧
    (∀ (w w' : World) (a : Action) (key : StreamKey) (row : LeaseRow),
      w.step a = some w' → w.table key = some row → w'.table key ≠ some row →
      actor w a ≠ some row.owner →
      ∃ call me, a = .tryAcquire call me key true ∧ row.expiresAt < w.now) := by
  refine ⟨?_, fun w w' a key row h hrow hchange hwho => foreign_step h hrow hchange hwho⟩
  intro w w₁ w₂ a mid me other key call ok hstep hgrant hrun hrel hnow hne
  obtain ⟨hn, ht⟩ := step_clock hstep
  have hd : w.now + w.ttl me ≤ w₁.now + w₁.ttl me := by
    rw [ht]
    omega
  have hheld := held_run hd hnow (granted_holds hstep hgrant) hrel hrun
  rcases tryAcquireSql_spec w₂.now (w₂.ttl other) other key w₂.table with he | ⟨epoch, he, hs⟩
  · simp [granted, he]
  · exact absurd hs (hheld.untouched hne hnow)

theorem lease_exclusive_within_ttl :
    ∃ w, Machine.run World.step (World.start 0 (fun _ => none) (fun _ => 30))
        [.tryAcquire 0 "a" "s" true, .recordHeld 0, .tick 30] = some w ∧
      granted w (.tryAcquire 1 "b" "s" true) = none :=
  ⟨_, rfl, lease_exclusive.1 (World.start 0 (fun _ => none) (fun _ => 30)) _ _
    (.tryAcquire 0 "a" "s" true) [.recordHeld 0, .tick 30] "a" "b" "s" 1 true rfl (by decide) rfl
    ⟨by decide, fun w hw => ⟨by simp [released], fun _ _ => trivial⟩⟩ (by decide) (by decide)⟩

/-- What fencing promises of a state: epochs rise from owner to owner, and the
old holder of a superseded lease cannot renew it. -/
def FencingHolds (w : World) : Prop :=
  (∀ key, EpochsIncrease (w.issued key)) ∧
  ∀ me key epoch, Superseded (w.issued key) me epoch →
    (renewSql w.now (w.ttl me) me ⟨key, epoch⟩ w.table).2 = false

/-- A row is inserted afresh only for a stream that nobody else was ever leased.
Rows disappear through `release` alone, so this is about released streams. -/
def FreshForFirstOwner (w : World) (a : Action) : Prop :=
  ∀ me key, granted w a = some (me, key) → w.table key = none → ∀ p ∈ w.issued key, p.1 = me

def AllFenced (w : World) : Prop := ∀ key, Fenced (w.table key) (w.issued key)

theorem AllFenced.holds {w : World} (h : AllFenced w) : FencingHolds w := by
  refine ⟨fun key => (h key).increase, fun me key epoch hs => ?_⟩
  rcases renewSql_spec w.now (w.ttl me) me ⟨key, epoch⟩ w.table with ⟨he, _⟩ | ⟨row, hrow, hown, hep, _⟩
  · rw [he]
  · have hf := h key
    rw [hrow] at hf
    exact absurd hep (hf.superseded_stale hs)

theorem AllFenced.step {w w' : World} {a : Action} (h : AllFenced w)
    (hfresh : FreshForFirstOwner w a) (hs : w.step a = some w') : AllFenced w' := by
  intro key
  cases step_effect hs key with
  | same quiet table issued => rw [table, issued]; exact h key
  | claim call me epoch action grant step table issued =>
    rw [table, issued]
    exact (h key).claim step (hfresh me key grant)
  | renew me row who grant row_eq own table issued =>
    rw [table, issued]
    exact (row_eq ▸ h key).renew
  | delete me row who release row_eq own table issued =>
    rw [table, issued]
    exact (h key).delete

theorem AllFenced.leave {w w' : World} {a : Action} (h : AllFenced w)
    (hfresh : ¬FreshForFirstOwner w a) (hs : w.step a = some w') : ¬FencingHolds w' := by
  simp only [FreshForFirstOwner, not_forall] at hfresh
  obtain ⟨me, key, hgrant, hnone, hother⟩ := hfresh
  intro hgood
  have hinc := hgood.1 key
  cases step_effect hs key with
  | same quiet => exact quiet me hgrant
  | claim call who epoch action grant step table issued =>
    cases grant.symm.trans hgrant
    rw [hnone] at step
    cases step
    rw [issued] at hinc
    exact (h key).restart_breaks (by simpa using hother) hinc
  | renew who row act grant row_eq => simp [hnone] at row_eq
  | delete who row act release row_eq => simp [hnone] at row_eq

/-- Epochs are fencing tokens throughout a run exactly when no released stream
is ever claimed afresh by, or after, another owner. -/
theorem epochs_fence_iff (now : Int) (ttl : ReplicaId → Int) (as : List Action) (w : World)
    (h : Machine.run World.step (World.start now (fun _ => none) ttl) as = some w) :
    Machine.Always World.step FencingHolds (World.start now (fun _ => none) ttl) as ↔
      Machine.Steps World.step FreshForFirstOwner (World.start now (fun _ => none) ttl) as :=
  Machine.always_iff_steps (P := AllFenced) (fun _ => AllFenced.holds)
    (fun _ _ _ => AllFenced.step) (fun _ _ _ => AllFenced.leave) (fun _ => Fenced.empty) h

theorem epochs_fence_without_release :
    Machine.Always World.step FencingHolds (World.start 0 (fun _ => none) (fun _ => 30))
        [.tryAcquire 0 "a" "s" true, .tick 31, .tryAcquire 1 "b" "s" true] ↔
      Machine.Steps World.step FreshForFirstOwner (World.start 0 (fun _ => none) (fun _ => 30))
        [.tryAcquire 0 "a" "s" true, .tick 31, .tryAcquire 1 "b" "s" true] :=
  epochs_fence_iff 0 (fun _ => 30) _ _ rfl

/-- `b` takes an expired lease over from `a` and releases it; the row is gone,
so `a` is handed epoch one again and its superseded lease renews. -/
theorem release_restarts_epochs :
    ¬∀ (now : Int) (ttl : ReplicaId → Int) (as : List Action) (w : World),
      Machine.run World.step (World.start now (fun _ => none) ttl) as = some w →
      Machine.Always World.step FencingHolds (World.start now (fun _ => none) ttl) as := by
  intro h
  have hall := h 0 (fun _ => 30)
    [.tryAcquire 0 "a" "s" true, .recordHeld 0, .tick 31, .tryAcquire 1 "b" "s" true,
      .recordHeld 1, .forgetHeld 1 "b" "s", .release 1 true, .tryAcquire 0 "a" "s" true] _ rfl
  have hend := Machine.always_end hall rfl
  have hrenew := hend.2 "a" "s" 1 ⟨[("a", 1), ("b", 2)], [], by decide, ("b", 2), by decide, by decide⟩
  exact absurd hrenew (by decide)

end Prospero.Proofs.Leases
