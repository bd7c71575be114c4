import Prospero.FleetManager
import Prospero.Proofs.Leases

namespace Prospero.Proofs.FleetManager
open Prospero.FleetManager
open Prospero.Proofs.Leases (Owns TakesOver owns_step owns_of_takesOver not_owns_of_release
  calls_frame callOf
  forgetHeld_calls released_frame)

/-- The replica is running an attach task for the agent. -/
def Live (w : World) (me : ReplicaId) (agent : String) : Prop :=
  ∃ id, w.procs id = some ⟨me, agent, .running⟩

/-- One attach writer an agent, on the replica that owns the agent's lease. -/
def SingleWriter (w : World) : Prop :=
  (∀ agent me other, Live w me agent → Live w other agent → me = other) ∧
  ∀ me agent, Live w me agent → Owns w.leases.table me agent

/-- The steps that can go wrong, each when it is all right. -/
def Sound (w : World) : Action → Prop
  | .tryAcquire id true => ∀ p, w.procs id = some p → p.phase = .checked →
      ∀ owner, TakesOver w.leases p.agent p.replica owner → ¬Live w owner p.agent
  | .reserve id => ∀ p, w.procs id = some p → p.phase = .owned →
      p.agent ∉ w.attached p.replica → Owns w.leases.table p.replica p.agent
  | .release id true => ∀ p, w.procs id = some p → p.phase = .releasing →
      ¬Live w p.replica p.agent
  | _ => True

structure Inv (w : World) : Prop where
  owner : ∀ me agent, Live w me agent → Owns w.leases.table me agent
  outstanding : ∀ id me agent, w.procs id = some ⟨me, agent, .releasing⟩ →
    w.leases.calls id = some (me, .released agent)

theorem Inv.single {w : World} (h : Inv w) : SingleWriter w :=
  ⟨fun agent _ _ hl hl' => (h.owner _ agent hl).unique (h.owner _ agent hl'), h.owner⟩

theorem statement_spec {w w' : World} {id : Nat} {source : Phase} {a : Proc → Leases.Action}
    {target : Leases.World → Phase} (h : w.statement id source a target = some w') :
    ∃ p, w.procs id = some p ∧ p.phase = source ∧ w.leases.step (a p) = some w'.leases ∧
      w'.attached = w.attached ∧
      w'.procs = Function.update w.procs id (some { p with phase := target w'.leases }) := by
  unfold World.statement at h
  cases hp : w.procs id with
  | none => simp [hp] at h
  | some p =>
    simp only [hp] at h
    split at h
    · rename_i hphase
      obtain ⟨l, hl, rfl⟩ := Option.map_eq_some_iff.mp h
      exact ⟨p, rfl, hphase, hl, rfl, rfl⟩
    · cases h

section Moves

variable {w w' : World} {id : Nat} {p : Proc} {phase : Phase}

/-- Moving one process makes no other task live. -/
theorem live_of_move (hp : w'.procs = Function.update w.procs id (some { p with phase := phase }))
    {me : ReplicaId} {agent : String} (h : Live w' me agent) :
    (phase = .running ∧ p.replica = me ∧ p.agent = agent) ∨ Live w me agent := by
  obtain ⟨i, hi⟩ := h
  rw [hp] at hi
  by_cases he : i = id
  · subst he
    simp only [Function.update_self, Option.some.injEq, Proc.mk.injEq] at hi
    exact Or.inl ⟨hi.2.2, hi.1, hi.2.1⟩
  · rw [Function.update_of_ne he] at hi
    exact Or.inr ⟨i, hi⟩

theorem live_move (hp : w'.procs = Function.update w.procs id (some { p with phase := phase }))
    (hat : w.procs id = some p) (hnot : p.phase ≠ .running) {me : ReplicaId} {agent : String}
    (h : Live w me agent) : Live w' me agent := by
  obtain ⟨i, hi⟩ := h
  have he : i ≠ id := by
    intro he
    rw [he, hat] at hi
    cases hi
    exact hnot rfl
  exact ⟨i, by rw [hp, Function.update_of_ne he, hi]⟩

end Moves

section Keep

variable {w w' : World}

/-- The invariant over a statement, from what the statement does to the rows and
to its own call. -/
theorem Inv.statement (h : Inv w) {id : Nat} {source : Phase} {a : Proc → Leases.Action}
    {target : Leases.World → Phase} (hs : w.statement id source a target = some w')
    (htarget : ∀ l, target l ≠ .running)
    (hcall : ∀ p, callOf (a p) = some id)
    (hdel : ∀ p, w.procs id = some p → p.phase = source → ∀ me agent, Live w me agent →
      ∀ call, a p = .release call true → w.leases.calls call ≠ some (me, .released agent))
    (htake : ∀ p, w.procs id = some p → p.phase = source → ∀ me agent, Live w me agent →
      ∀ call other, a p = .tryAcquire call other agent true →
        ¬TakesOver w.leases agent other me)
    (hout : ∀ p, w.procs id = some p → target w'.leases = .releasing →
      w.leases.step (a p) = some w'.leases →
      w'.leases.calls id = some (p.replica, .released p.agent)) : Inv w' := by
  obtain ⟨p, hat, hphase, hstep, hattached, hprocs⟩ := statement_spec hs
  constructor
  · intro me agent hlive
    rcases live_of_move hprocs hlive with ⟨hrun, _⟩ | hlive
    · exact absurd hrun (htarget _)
    · exact owns_step hstep (h.owner me agent hlive) (hdel p hat hphase me agent hlive)
        (htake p hat hphase me agent hlive)
  · intro i me agent hi
    rw [hprocs] at hi
    by_cases he : i = id
    · subst he
      simp only [Function.update_self, Option.some.injEq, Proc.mk.injEq] at hi
      obtain ⟨rfl, rfl, hrel⟩ := hi
      exact hout p hat hrel hstep
    · rw [Function.update_of_ne he] at hi
      rw [calls_frame hstep (by rw [hcall p]; exact fun hc => he (Option.some.inj hc).symm)]
      exact h.outstanding i me agent hi

/-- The invariant over a step inside the process that makes no task live. -/
theorem Inv.move (h : Inv w) {id : Nat} {p : Proc} {phase : Phase}
    (hprocs : w'.procs = Function.update w.procs id (some { p with phase := phase }))
    (hleases : w'.leases = w.leases) (hrel : phase ≠ .releasing)
    (hrun : phase = .running → Owns w.leases.table p.replica p.agent) : Inv w' := by
  constructor
  · intro me agent hlive
    rw [hleases]
    rcases live_of_move hprocs hlive with ⟨hr, rfl, rfl⟩ | hlive
    · exact hrun hr
    · exact h.owner me agent hlive
  · intro i me agent hi
    rw [hprocs] at hi
    rw [hleases]
    by_cases he : i = id
    · subst he
      simp only [Function.update_self, Option.some.injEq, Proc.mk.injEq] at hi
      exact absurd hi.2.2 hrel
    · rw [Function.update_of_ne he] at hi
      exact h.outstanding i me agent hi

theorem Inv.lease (h : Inv w) {a : Leases.Action} (hadm : w.admits a = true)
    (hstep : w.leases.step a = some w'.leases) (hprocs : w'.procs = w.procs) : Inv w' := by
  have hlive : ∀ me agent, Live w' me agent → Live w me agent := by
    intro me agent hl
    obtain ⟨i, hi⟩ := hl
    exact ⟨i, by rwa [hprocs] at hi⟩
  constructor
  · intro me agent hl
    refine owns_step hstep (h.owner me agent (hlive me agent hl)) ?_ ?_
    · intro call ha
      rw [ha] at hadm
      cases hadm
    · intro call other ha
      rw [ha] at hadm
      cases hadm
  · intro i me agent hi
    rw [hprocs] at hi
    apply released_frame hstep (h.outstanding i me agent hi)
    intro ok ha
    rw [ha] at hadm
    cases hadm

theorem Inv.restart (h : Inv w) (who : ReplicaId) : Inv (w.restart who) := by
  have hproc : ∀ i me agent phase, phase ≠ .gone →
      (w.restart who).procs i = some ⟨me, agent, phase⟩ →
      w.procs i = some ⟨me, agent, phase⟩ ∧ me ≠ who := by
    intro i me agent phase hphase hi
    obtain ⟨p, hp, he⟩ := Option.map_eq_some_iff.mp hi
    split at he
    · cases he
      exact absurd rfl hphase
    · rename_i hne
      subst he
      exact ⟨hp, hne⟩
  constructor
  · intro me agent hl
    obtain ⟨i, hi⟩ := hl
    exact h.owner me agent ⟨i, (hproc i me agent .running (by simp) hi).1⟩
  · intro i me agent hi
    obtain ⟨hp, hne⟩ := hproc i me agent .releasing (by simp) hi
    simp [World.restart, h.outstanding i me agent hp, hne]

/-- Every sound step keeps the invariant. -/
theorem Inv.step (h : Inv w) {a : Action} (hok : Sound w a) (hs : w.step a = some w') :
    Inv w' := by
  cases a with
  | lease a =>
    simp only [World.step] at hs
    split at hs
    · rename_i hadm
      obtain ⟨l, hl, rfl⟩ := Option.map_eq_some_iff.mp hs
      exact h.lease hadm hl rfl
    · cases hs
  | startAttach id me agent =>
    simp only [World.step] at hs
    split at hs
    · split at hs
      · cases hs
        exact h
      · cases hs
        exact h.move rfl rfl (by simp) (by simp)
    · cases hs
  | tryAcquire id ok =>
    refine h.statement hs (fun l => by split <;> simp) (fun _ => rfl) (by simp) ?_ ?_
    · intro p hat hphase me agent hlive call other ha htake
      cases ha
      exact hok p hat hphase me htake hlive
    · intro p hat hrel
      split at hrel <;> cases hrel
  | recordHeld id =>
    exact h.statement hs (by simp) (fun _ => rfl) (by simp) (by simp) (by simp)
  | reserve id =>
    simp only [World.step] at hs
    split at hs
    · rename_i p hat
      split at hs
      · rename_i hphase
        split at hs
        · cases hs
          exact h.move rfl rfl (by simp) (by simp)
        · rename_i hfree
          cases hs
          exact h.move rfl rfl (by simp) (fun _ => hok p hat hphase hfree)
      · cases hs
    · cases hs
  | exit id =>
    simp only [World.step] at hs
    split at hs
    · split at hs
      · cases hs
        exact h.move rfl rfl (by simp) (by simp)
      · cases hs
    · cases hs
  | forgetHeld id =>
    apply h.statement hs (by simp) (fun _ => rfl) (by simp) (by simp)
    exact fun p _ _ hstep => forgetHeld_calls hstep
  | release id ok =>
    refine h.statement hs (by simp) (fun _ => rfl) ?_ (by simp) (by simp)
    intro p hat hphase me agent hlive call ha hcall
    cases ha
    have hout := h.outstanding id p.replica p.agent (by rw [hat, ← hphase])
    rw [hout] at hcall
    cases hcall
    exact hok p hat hphase hlive
  | restart me =>
    cases hs
    exact h.restart me

end Keep

section Leave

variable {w w' : World}

/-- An unsound step leaves a task running that no longer owns its row. -/
theorem Inv.leave (h : Inv w) {a : Action} (hbad : ¬Sound w a) (hs : w.step a = some w') :
    ¬SingleWriter w' := by
  intro hgood
  cases a with
  | tryAcquire id ok =>
    cases ok with
    | false => exact hbad trivial
    | true =>
      simp only [Sound, not_forall, not_not] at hbad
      obtain ⟨p, hat, hphase, owner, htake, hlive⟩ := hbad
      obtain ⟨q, hq, _, hstep, _, hprocs⟩ := statement_spec hs
      cases hat.symm.trans hq
      have hnew := owns_of_takesOver hstep htake
      have hold := hgood.2 owner p.agent (live_move hprocs hat (by simp [hphase]) hlive)
      obtain ⟨row, _, hrow, hne, _⟩ := htake
      exact hne (hold.unique hnew)
  | reserve id =>
    simp only [Sound, not_forall] at hbad
    obtain ⟨p, hat, hphase, hfree, hrow⟩ := hbad
    simp only [World.step, hat, hphase, hfree, if_true, if_false, Option.some.injEq] at hs
    subst hs
    exact hrow (hgood.2 p.replica p.agent ⟨id, by simp [World.setPhase]⟩)
  | release id ok =>
    cases ok with
    | false => exact hbad trivial
    | true =>
      simp only [Sound, not_forall, not_not] at hbad
      obtain ⟨p, hat, hphase, hlive⟩ := hbad
      obtain ⟨q, hq, _, hstep, _, hprocs⟩ := statement_spec hs
      cases hat.symm.trans hq
      have hcall := h.outstanding id p.replica p.agent (by rw [hat, ← hphase])
      exact not_owns_of_release hstep hcall
        (hgood.2 p.replica p.agent (live_move hprocs hat (by simp [hphase]) hlive))
  | _ => exact hbad trivial

end Leave

theorem Inv.start (now : Int) (table : Leases.Table) (ttl : ReplicaId → Int) :
    Inv (World.start now table ttl) := by
  constructor
  · intro me agent hl
    obtain ⟨i, hi⟩ := hl
    cases hi
  · intro i me agent hi
    cases hi

/-- A run has one attach writer an agent throughout, each on the owner of the
agent's lease, exactly when no lease is deleted or taken over from under a
running task, and no task is spawned once its lease is gone. -/
theorem single_writer_iff (now : Int) (table : Leases.Table) (ttl : ReplicaId → Int)
    (as : List Action) (w : World)
    (h : Machine.run World.step (World.start now table ttl) as = some w) :
    Machine.Always World.step SingleWriter (World.start now table ttl) as ↔
      Machine.Steps World.step Sound (World.start now table ttl) as :=
  Machine.always_iff_steps (P := Inv) (fun _ => Inv.single)
    (fun _ _ _ hi hok hs => hi.step hok hs) (fun _ _ _ hi hbad hs => hi.leave hbad hs)
    (Inv.start now table ttl) h

/-- An attach on one replica, its exit, and the hand-over to another. -/
def handOver : List Action :=
  [.startAttach 0 "a" "x", .tryAcquire 0 true, .recordHeld 0, .reserve 0,
    .lease (.heartbeat 9 "a" [⟨"x", 1⟩]), .lease (.heartbeatRenew 9 true), .exit 0, .forgetHeld 0,
    .release 0 true, .startAttach 1 "b" "x", .tryAcquire 1 true, .recordHeld 1, .reserve 1]

theorem hand_over_single_writer :
    Machine.Always World.step SingleWriter (World.start 0 (fun _ => none) (fun _ => 30)) handOver ↔
      Machine.Steps World.step Sound (World.start 0 (fun _ => none) (fun _ => 30)) handOver :=
  single_writer_iff 0 (fun _ => none) (fun _ => 30) handOver _ rfl

/-- The poll loop attaches again between the old task's exit and its `DELETE`,
which then removes the new task's row; another replica claims the free key. -/
def exitRace : List Action :=
  [.startAttach 0 "a" "x", .tryAcquire 0 true, .recordHeld 0, .reserve 0, .exit 0,
    .startAttach 1 "a" "x", .tryAcquire 1 true, .recordHeld 1, .reserve 1, .forgetHeld 0,
    .release 0 true, .startAttach 2 "b" "x", .tryAcquire 2 true, .recordHeld 2, .reserve 2]

theorem exit_race_two_writers :
    ¬∀ (now : Int) (table : Leases.Table) (ttl : ReplicaId → Int) (as : List Action) (w : World),
      Machine.run World.step (World.start now table ttl) as = some w →
      Machine.Always World.step SingleWriter (World.start now table ttl) as := by
  intro h
  have hall := h 0 (fun _ => none) (fun _ => 30) exitRace _ rfl
  have hend := Machine.always_end hall rfl
  have heq := hend.1 "x" "a" "b" ⟨1, rfl⟩ ⟨2, rfl⟩
  exact absurd heq (by decide)

end Prospero.Proofs.FleetManager
