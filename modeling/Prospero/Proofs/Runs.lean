import Prospero.Proofs.AutomationEngine

namespace Prospero.Proofs.Runs
open Prospero.Automations Prospero.Proofs.Automations

section Keep

variable {σ κ : Type} [DecidableEq κ] (crates : Crates σ)

def succeeded (run : AutomationRun) : Bool := run.agentId.isSome && run.error.isNone

/-- No CR has the name of the spec when it is applied. -/
def Fresh (w : World κ) : Action κ → Prop
  | .next call =>
    match w.calls call with
    | some (.applying _ spec _ _) => w.cluster.tasks.lookup (taskName crates spec) = none
    | _ => True
  | _ => True

/-- The incarnation that a recorded run has as its agent. -/
def executionOf : Happening κ → Option Nat
  | .recorded _ run (some execution) => if succeeded run then some execution.uid else none
  | _ => none

def executions (w : World κ) : List Nat := w.history.filterMap executionOf

/-- Each run recorded as a success has started the agent it names, and no two of
them have the same. -/
structure RunsStart (w : World κ) : Prop where
  started : ∀ call run execution, .recorded call run execution ∈ w.history →
    succeeded run = true → ∃ e, execution = some e ∧ e.started = true
  distinct : (executions w).Nodup

/-- A run about to be recorded has failed, or has started an agent that no
recorded run has. -/
def Ready (w : World κ) (run : AutomationRun) (execution : Option Execution) : Prop :=
  (execution = none ∧ run.error.isSome = true) ∨ ∃ e, execution = some e ∧ e.started = true ∧
    e.uid < w.cluster.uids ∧ e.uid ∉ executions w

structure Inv (w : World κ) : Prop where
  started : ∀ call run execution, .recorded call run execution ∈ w.history →
    succeeded run = true → ∃ e, execution = some e ∧ e.started = true
  nodup : (executions w).Nodup
  bound : ∀ uid ∈ executions w, uid < w.cluster.uids
  ready : ∀ call run execution next, w.calls call = some (.recording run execution next) →
    Ready w run execution
  alone : ∀ call call' run run' e e' next next',
    w.calls call = some (.recording run (some e) next) →
    w.calls call' = some (.recording run' (some e') next') → e.uid = e'.uid → call = call'

variable {crates} {w w' : World κ} {call : κ} {phase : Phase} {a : Action κ}

omit [DecidableEq κ] in
theorem Inv.start : Inv (World.start : World κ) := by
  constructor <;> simp [World.start, executions]

omit [DecidableEq κ] in
theorem executions_append {happened : List (Happening κ)}
    (history : w'.history = w.history ++ happened) (h : ∀ x ∈ happened, executionOf x = none) :
    executions w' = executions w := by
  rw [executions, history, List.filterMap_append, List.filterMap_eq_nil_iff.mpr h, List.append_nil]
  rfl

/-- One call moves on and nothing is recorded. A run it is then about to record is
ready, and the agent it has started is no other call's. -/
theorem Inv.move {happened : List (Happening κ)} (h : Inv w)
    (uids : w.cluster.uids ≤ w'.cluster.uids)
    (calls : w'.calls = Function.update w.calls call (some phase))
    (history : w'.history = w.history ++ happened)
    (hquiet : ∀ x ∈ happened, ∀ call run execution, x ≠ .recorded call run execution)
    (hready : ∀ run execution next, phase = .recording run execution next →
      Ready w' run execution)
    (halone : ∀ run e next, phase = .recording run (some e) next → ∀ call' run' e' next',
      w.calls call' = some (.recording run' (some e') next') → e.uid ≠ e'.uid) : Inv w' := by
  have hnone : ∀ x ∈ happened, executionOf x = none := by
    intro x hx
    cases x with
    | recorded call run execution => exact absurd rfl (hquiet _ hx call run execution)
    | _ => rfl
  have hexec := executions_append history hnone
  refine ⟨?_, hexec ▸ h.nodup, ?_, ?_, ?_⟩
  · intro call run execution hmem hsucc
    rw [history] at hmem
    rcases List.mem_append.mp hmem with hmem | hmem
    · exact h.started call run execution hmem hsucc
    · exact absurd rfl (hquiet _ hmem call run execution)
  · intro uid huid
    exact lt_of_lt_of_le (h.bound uid (hexec ▸ huid)) uids
  · intro call' run execution next hslot
    rw [calls] at hslot
    rcases Slots.update_some hslot with ⟨-, heq⟩ | ⟨-, hold⟩
    · exact hready run execution next heq.symm
    · rcases h.ready call' run execution next hold with herror | ⟨e, he, hstarted, hlt, hnew⟩
      · exact Or.inl herror
      · exact Or.inr ⟨e, he, hstarted, lt_of_lt_of_le hlt uids, hexec ▸ hnew⟩
  · intro c c' run run' e e' next next' hc hc' heq
    rw [calls] at hc hc'
    rcases Slots.update_some hc with ⟨hcc, hphase⟩ | ⟨-, hc⟩ <;>
      rcases Slots.update_some hc' with ⟨hcc', hphase'⟩ | ⟨-, hc'⟩
    · exact hcc.trans hcc'.symm
    · exact absurd heq (halone run e next hphase.symm c' run' e' next' hc')
    · exact absurd heq.symm (halone run' e' next' hphase'.symm c run e next hc)
    · exact h.alone c c' run run' e e' next next' hc hc' heq

theorem apply_uids (cluster : Cluster) (name : String) (spec : CalibanTaskSpec) :
    cluster.uids ≤ (cluster.apply name spec).1.uids := by
  unfold Cluster.apply
  split
  · exact le_rfl
  · exact Nat.le_succ _

theorem apply_fresh {cluster cluster' : Cluster} {name : String} {spec : CalibanTaskSpec}
    {execution : Execution} (hnone : cluster.tasks.lookup name = none)
    (h : cluster.apply name spec = (cluster', execution)) :
    execution = ⟨cluster.uids, true⟩ ∧ cluster'.uids = cluster.uids + 1 := by
  rw [Cluster.apply, hnone] at h
  cases h
  exact ⟨rfl, rfl⟩

omit [DecidableEq κ] in
/-- Only the surroundings act. -/
theorem Inv.around (h : Inv w) (uids : w.cluster.uids ≤ w'.cluster.uids)
    (calls : w'.calls = w.calls) (history : w'.history = w.history) : Inv w' := by
  have hexec : executions w' = executions w := congrArg (List.filterMap executionOf) history
  refine ⟨history ▸ h.started, hexec ▸ h.nodup, ?_, ?_, calls ▸ h.alone⟩
  · intro uid huid
    exact lt_of_lt_of_le (h.bound uid (hexec ▸ huid)) uids
  · intro call run execution next hslot
    rcases h.ready call run execution next (calls ▸ hslot) with herror | ⟨e, he, hs, hlt, hnew⟩
    · exact Or.inl herror
    · exact Or.inr ⟨e, he, hs, lt_of_lt_of_le hlt uids, hexec ▸ hnew⟩

theorem Inv.spawned {run : AutomationRun} {spec : TaskSpec} {existed : Bool}
    {next : Option Pass} {execution : Execution} (h : Inv w)
    (slot : w.calls call = some (.applying run spec existed next))
    (hok : Fresh crates w (.next call))
    (cluster : w.cluster.apply (taskName crates spec) (buildCalibanTask spec) =
      (w'.cluster, execution))
    (calls : w'.calls = Function.update w.calls call (some (.recording
      { run with agentId := some (taskName crates spec) } (some execution) next)))
    (history : w'.history = w.history ++ [.ensured call run execution]) : Inv w' := by
  simp only [Fresh, slot] at hok
  obtain ⟨rfl, huids⟩ := apply_fresh hok cluster
  refine h.move (huids ▸ Nat.le_succ _) calls history (by simp) ?_ ?_
  · intro run' execution' next' heq
    cases heq
    refine Or.inr ⟨_, rfl, rfl, huids ▸ Nat.lt_succ_self _, ?_⟩
    rw [executions_append history (by simp [executionOf])]
    exact fun hmem => (h.bound _ hmem).ne rfl
  · intro run' e next' heq call' run'' e' next'' hslot
    cases heq
    rcases h.ready call' run'' _ next'' hslot with ⟨hnone, -⟩ | ⟨e₁, he, -, hlt, -⟩
    · cases hnone
    · cases he
      exact hlt.ne'

omit [DecidableEq κ] in
theorem executions_recorded {run : AutomationRun} {execution : Option Execution}
    (history : w'.history = w.history ++ [.recorded call run execution]) :
    executions w' = executions w ++ (executionOf (.recorded call run execution)).toList := by
  rw [executions, history, List.filterMap_append]
  congr 1

omit [DecidableEq κ] in
/-- What is recorded is a failure, or a success of its own. -/
theorem Inv.record (h : Inv w) {run : AutomationRun} {execution : Option Execution}
    {next : Option Pass} (slot : w.calls call = some (.recording run execution next)) :
    (succeeded run = true → ∃ e, execution = some e ∧ e.started = true) ∧
    ∀ uid, executionOf (.recorded call run execution) = some uid →
      ∃ e, execution = some e ∧ e.uid = uid ∧ uid < w.cluster.uids ∧ uid ∉ executions w := by
  rcases h.ready call run execution next slot with ⟨rfl, herror⟩ | ⟨e, rfl, hstarted, hlt, hnew⟩
  · refine ⟨?_, nofun⟩
    intro hsucc
    simp [succeeded, Option.isNone_iff_eq_none, Option.isSome_iff_ne_none] at hsucc herror
    exact absurd hsucc.2 herror
  · refine ⟨fun _ => ⟨e, rfl, hstarted⟩, ?_⟩
    intro uid huid
    simp only [executionOf] at huid
    split at huid <;> cases huid
    exact ⟨e, rfl, rfl, hlt, hnew⟩

theorem Inv.recorded {run : AutomationRun} {execution : Option Execution} {next : Option Pass}
    (h : Inv w) (slot : w.calls call = some (.recording run execution next))
    (cluster : w'.cluster = w.cluster)
    (calls : w'.calls = Function.update w.calls call (some (.trimming run next)))
    (history : w'.history = w.history ++ [.recorded call run execution]) : Inv w' := by
  obtain ⟨hstarted, hown⟩ := h.record slot
  have hexec := executions_recorded history
  have hslots : ∀ call' run' execution' next',
      w'.calls call' = some (.recording run' execution' next') →
      call' ≠ call ∧ w.calls call' = some (.recording run' execution' next') := by
    intro call' run' execution' next' hslot
    rw [calls] at hslot
    rcases Slots.update_some hslot with ⟨-, heq⟩ | hold
    · cases heq
    · exact hold
  refine ⟨?_, ?_, ?_, ?_, ?_⟩
  · intro call' run' execution' hmem hsucc
    rw [history] at hmem
    rcases List.mem_append.mp hmem with hmem | hmem
    · exact h.started call' run' execution' hmem hsucc
    · cases List.mem_singleton.mp hmem
      exact hstarted hsucc
  · rw [hexec]
    refine List.nodup_append.mpr ⟨h.nodup, ?_, ?_⟩
    · cases executionOf (.recorded call run execution) <;> simp
    · intro x hx y hy heq
      obtain ⟨-, -, -, -, hnew⟩ := hown y (Option.mem_toList.mp hy)
      exact hnew (heq ▸ hx)
  · intro uid huid
    rw [hexec] at huid
    rw [cluster]
    rcases List.mem_append.mp huid with huid | huid
    · exact h.bound uid huid
    · obtain ⟨-, -, -, hlt, -⟩ := hown uid (Option.mem_toList.mp huid)
      exact hlt
  · intro call' run' execution' next' hslot
    obtain ⟨hne, hold⟩ := hslots call' run' execution' next' hslot
    rcases h.ready call' run' execution' next' hold with hfail | ⟨e, rfl, hs, hlt, hnew⟩
    · exact Or.inl hfail
    · refine Or.inr ⟨e, rfl, hs, cluster ▸ hlt, ?_⟩
      rw [hexec]
      intro hmem
      rcases List.mem_append.mp hmem with hmem | hmem
      · exact hnew hmem
      · obtain ⟨e', rfl, heq, -⟩ := hown e.uid (Option.mem_toList.mp hmem)
        exact hne (h.alone call' call run' run e e' next' next hold slot heq.symm)
  · intro c c' run₁ run₂ e e' n n' hc hc' heq
    exact h.alone c c' run₁ run₂ e e' n n' (hslots c run₁ _ n hc).2 (hslots c' run₂ _ n' hc').2 heq

theorem Inv.step (h : Inv w) (hok : Fresh crates w a) (hs : w.step crates a = some w') :
    Inv w' := by
  cases step_effect hs with
  | removed name rows calls history cluster =>
    exact h.around (cluster ▸ le_rfl) calls history
  | applied name spec rows calls history cluster =>
    exact h.around (cluster ▸ apply_uids _ name spec) calls history
  | moved call phase happened turn kept calls history plain =>
    refine h.move (kept.cluster ▸ le_rfl) calls history ?_ ?_ ?_
    · rintro x hx call run execution rfl
      exact plain _ hx
    · exact fun run execution next heq => Or.inl (turn.failed run execution next heq)
    · intro run e next heq
      cases (turn.failed run (some e) next heq).1
  | inserted call stored slot rows cluster calls history
  | updated call stored slot rows cluster calls history
  | deleted call other existed slot rows cluster calls history =>
    exact h.move (cluster ▸ le_rfl) calls history (by simp) (by simp) (by simp)
  | claimed call now stored rest fireAt spec slot due rows cluster calls history =>
    exact h.move (cluster ▸ le_rfl) calls history (by simp) (by simp) (by simp)
  | spawned call run spec existed next execution slot rows cluster calls history =>
    exact h.spawned slot hok cluster calls history
  | recorded call run execution next slot kept calls history =>
    exact h.recorded slot kept.cluster calls history

/-- Runs start agents of their own where no CR has the name of what they apply. -/
theorem runs_start (as : List (Action κ))
    (h : Machine.Steps (World.step crates) (Fresh crates) World.start as) :
    Machine.Always (World.step crates) RunsStart World.start as :=
  Machine.always_mono (P := Inv) (fun _ h => ⟨h.started, h.nodup⟩)
    (Machine.always_of_steps (fun _ _ _ hi hok hs => hi.step hok hs) .start h)

end Keep

/-- A run now, from its request to its record. -/
def runNow (call : Nat) (now : DateTime) : List (Action Nat) :=
  .begin call (.fire sweep.id now) :: List.replicate 5 (.next call)

/-- The agent of a first run is gone when the second one starts. -/
def twoRuns : List (Action Nat) :=
  [.begin 0 (.create sweep (clock 10 30 0) ""), .next 0, .next 0] ++
    runNow 1 (clock 10 40 0) ++ [.remove "ct-7015d0c96620bf42"] ++
    runNow 2 (clock 10 50 0)

theorem twoRuns_fresh :
    Machine.Steps (World.step hourly) (Fresh hourly) World.start twoRuns := by
  iterate 6 refine Machine.steps_cons trivial rfl ?_
  refine Machine.steps_cons rfl rfl ?_
  iterate 6 refine Machine.steps_cons trivial rfl ?_
  refine Machine.steps_cons rfl rfl ?_
  iterate 2 refine Machine.steps_cons trivial rfl ?_
  trivial

theorem two_runs_start : ∃ w, Machine.run (World.step hourly) World.start twoRuns = some w ∧
    executions w = [0, 1] ∧ RunsStart w :=
  ⟨_, rfl, rfl, Machine.always_end (runs_start twoRuns twoRuns_fresh) rfl⟩

/-- The second run is made while the agent of the first is still there. -/
def runTwice : List (Action Nat) :=
  [.begin 0 (.create sweep (clock 10 30 0) ""), .next 0, .next 0] ++
    runNow 1 (clock 10 40 0) ++ runNow 2 (clock 10 41 0)

theorem second_run_starts_nothing :
    ¬∀ (as : List (Action Nat)) (w : World Nat),
      Machine.run (World.step hourly) World.start as = some w →
      Machine.Always (World.step hourly) RunsStart World.start as := by
  intro h
  have hend := Machine.always_end (h runTwice _ rfl) rfl
  have hdistinct : [0, 0].Nodup := hend.distinct
  cases hdistinct with
  | cons hnot _ => exact hnot 0 List.mem_cons_self rfl

end Prospero.Proofs.Runs
