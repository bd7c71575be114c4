import Prospero.Lib.Machine
import Prospero.Lib.Monitor
import Prospero.Lib.Slots
import Prospero.Proofs.Automation

namespace Prospero.Proofs.Automations
open Prospero.Automations

/-- What no edit changes. -/
def core (a : Automation) : Automation := { a with enabled := false, lastFiredAt := none }

section Core

variable {σ : Type} {crates : Crates σ} {a b : Automation}

theorem createdAt_eq (h : core a = core b) : a.createdAt = b.createdAt := by
  have hcreated := congrArg Automation.createdAt h
  exact hcreated

theorem trigger_eq (h : core a = core b) : a.trigger = b.trigger := by
  have htrigger := congrArg Automation.trigger h
  exact htrigger

theorem IsTick.transfer {tick : DateTime} (h : IsTick crates a tick) (hcore : core a = core b) :
    IsTick crates b tick := by
  obtain ⟨schedule, parsed, htrigger, hrest⟩ := h
  exact ⟨schedule, parsed, trigger_eq hcore ▸ htrigger, hrest⟩

end Core

/-- A copy of the automation that the row has, but for `enabled` and `last_fired_at`. -/
def Same (stored : StoredAutomation) (row : Row) : Prop :=
  core stored.automation = core row.spec ∧ stored.webhookSecret = row.webhookSecret

def restOf : Option Pass → List StoredAutomation
  | some pass => pass.rest
  | none => []

/-- The copies of rows that a call works with. -/
def held : Phase → List StoredAutomation
  | .updating stored => [stored]
  | .ticking pass => pass.rest
  | .ensuring _ _ next | .applying _ _ _ next | .recording _ _ next | .trimming _ next => restOf next
  | _ => []

/-- The run that a call is about to start an agent for. -/
def spawnOf : Phase → Option AutomationRun
  | .ensuring run _ _ | .applying run _ _ _ => some run
  | _ => none

/-- Nothing is created, deleted, claimed, started or recorded. -/
def Plain {κ : Type} : Happening κ → Prop
  | .replied _ (.ok (.created _)) | .replied _ (.ok (.deleted _ _)) => False
  | .replied _ _ => True
  | .claimed _ _ _ | .ensured _ _ _ | .recorded _ _ _ => False

/-- A row read now, or a copy that the call had. -/
def Copied {κ : Type} (w : World κ) (call : κ) (stored : StoredAutomation) : Prop :=
  (∃ old, w.calls call = some old ∧ stored ∈ held old) ∨
    ∃ row, rowOf w.rows stored.automation.id = some row ∧ Same stored row ∧
      stored.automation.lastFiredAt = row.lastFiredAt

/-- What a call may turn to without touching the stores. -/
structure Turn {κ : Type} (w : World κ) (call : κ) (phase : Phase) : Prop where
  copies : ∀ stored ∈ held phase, Copied w call stored
  insert : ∀ stored, phase = .inserting stored →
    ∃ body createdAt secret, stored = newAutomation body createdAt secret
  spawn : ∀ run, spawnOf phase = some run → run.source = .schedule →
    ∃ old, w.calls call = some old ∧ spawnOf old = some run
  failed : ∀ run execution next, phase = .recording run execution next →
    execution = none ∧ run.error.isSome = true

/-- The config store's automations and the API server are as they were. -/
structure Kept {κ : Type} (w w' : World κ) : Prop where
  rows : w'.rows = w.rows
  cluster : w'.cluster = w.cluster

section Step

variable {σ κ : Type} [DecidableEq κ] (crates : Crates σ)

/-- What one step can do. -/
inductive Effect (w w' : World κ) : Action κ → Prop
  | removed (name : String) (rows : w'.rows = w.rows) (calls : w'.calls = w.calls)
      (history : w'.history = w.history)
      (cluster : w'.cluster = { w.cluster with tasks := w.cluster.tasks.erase name }) :
      Effect w w' (.remove name)
  | applied (name : String) (spec : CalibanTaskSpec) (rows : w'.rows = w.rows)
      (calls : w'.calls = w.calls) (history : w'.history = w.history)
      (cluster : w'.cluster = (w.cluster.apply name spec).1) : Effect w w' (.apply name spec)
  | moved {a : Action κ} (call : κ) (phase : Phase) (happened : List (Happening κ))
      (turn : Turn w call phase) (kept : Kept w w')
      (calls : w'.calls = Function.update w.calls call (some phase))
      (history : w'.history = w.history ++ happened) (plain : ∀ h ∈ happened, Plain h) :
      Effect w w' a
  | inserted (call : κ) (stored : StoredAutomation)
      (slot : w.calls call = some (.inserting stored))
      (rows : w'.rows = w.rows.upsertAutomation stored) (cluster : w'.cluster = w.cluster)
      (calls : w'.calls = Function.update w.calls call (some .done))
      (history : w'.history = w.history ++ [.replied call (.ok (.created stored))]) :
      Effect w w' (.next call)
  | updated (call : κ) (stored : StoredAutomation)
      (slot : w.calls call = some (.updating stored))
      (rows : w'.rows = w.rows.upsertAutomation stored) (cluster : w'.cluster = w.cluster)
      (calls : w'.calls = Function.update w.calls call (some .done))
      (history : w'.history = w.history ++ [.replied call (.ok (.updated stored))]) :
      Effect w w' (.next call)
  | deleted (call : κ) (id : String) (existed : Bool) (slot : w.calls call = some (.deleting id))
      (rows : w'.rows = w.rows.erase id) (cluster : w'.cluster = w.cluster)
      (calls : w'.calls = Function.update w.calls call (some .done))
      (history : w'.history = w.history ++ [.replied call (.ok (.deleted id existed))]) :
      Effect w w' (.next call)
  | claimed (call : κ) (now : DateTime) (stored : StoredAutomation)
      (rest : List StoredAutomation) (fireAt : String) (spec : TaskSpec)
      (slot : w.calls call = some (.ticking ⟨now, stored :: rest⟩))
      (due : dueTick crates stored now = some fireAt)
      (rows : w.rows.claimAutomationFire stored.automation.id fireAt = some w'.rows)
      (cluster : w'.cluster = w.cluster)
      (calls : w'.calls = Function.update w.calls call (some (.ensuring
        ⟨stored.automation.id, fireAt, .schedule, none, none⟩ spec (some ⟨now, rest⟩))))
      (history : w'.history = w.history ++ [.claimed call stored.automation.id fireAt]) :
      Effect w w' (.next call)
  | spawned (call : κ) (run : AutomationRun) (spec : TaskSpec) (existed : Bool)
      (next : Option Pass) (execution : Execution)
      (slot : w.calls call = some (.applying run spec existed next)) (rows : w'.rows = w.rows)
      (cluster : w.cluster.apply (taskName crates spec) (buildCalibanTask spec) =
        (w'.cluster, execution))
      (calls : w'.calls = Function.update w.calls call (some (.recording
        { run with agentId := some (taskName crates spec) } (some execution) next)))
      (history : w'.history = w.history ++ [.ensured call run execution]) :
      Effect w w' (.next call)
  | recorded (call : κ) (run : AutomationRun) (execution : Option Execution)
      (next : Option Pass) (slot : w.calls call = some (.recording run execution next))
      (kept : Kept w w')
      (calls : w'.calls = Function.update w.calls call (some (.trimming run next)))
      (history : w'.history = w.history ++ [.recorded call run execution]) :
      Effect w w' (.next call)

variable {crates} {w w' : World κ} {a : Action κ} {call : κ} {phase : Phase}

omit [DecidableEq κ] in
/-- Nothing is on hand. -/
theorem turn_idle (hheld : held phase = []) (hspawn : spawnOf phase = none)
    (hinsert : ∀ stored, phase ≠ .inserting stored)
    (hrecord : ∀ run execution next, phase ≠ .recording run execution next) :
    Turn w call phase := by
  refine ⟨?_, fun stored h => absurd h (hinsert stored), ?_,
    fun run execution next h => absurd h (hrecord run execution next)⟩
  · intro stored h
    rw [hheld] at h
    cases h
  · intro run h
    rw [hspawn] at h
    cases h

theorem effect_turn (h : Turn w call phase) : Effect crates w (w.setCall call phase) a :=
  .moved call phase [] h ⟨rfl, rfl⟩ rfl (List.append_nil _).symm (fun _ h => by cases h)

theorem effect_reply {r : Except Automations.CoreError Reply} (h : Plain (.replied call r)) :
    Effect crates w (w.reply call r) a := by
  refine .moved call .done [.replied call r] ?_ ⟨rfl, rfl⟩ rfl rfl ?_
  · exact turn_idle rfl rfl (by simp) (by simp)
  · intro h' hmem
    cases List.mem_singleton.mp hmem
    exact h

theorem effect_proceed {α : Type} {r : Except Automations.CoreError α} {next : α → Phase}
    (h : ∀ x, r = .ok x → Turn w call (next x)) : Effect crates w (w.proceed call r next) a := by
  cases r with
  | error e => exact effect_reply trivial
  | ok x => exact effect_turn (h x rfl)

omit [DecidableEq κ] in
/-- The copies of a pass are handed on with it, and so is a run. -/
theorem turn_rest {old : Phase} (slot : w.calls call = some old) (hheld : held phase ⊆ held old)
    (hspawn : ∀ run, spawnOf phase = some run → spawnOf old = some run)
    (hinsert : ∀ stored, phase ≠ .inserting stored)
    (hrecord : ∀ run execution next, phase = .recording run execution next →
      execution = none ∧ run.error.isSome = true) : Turn w call phase :=
  ⟨fun _ h => Or.inl ⟨old, slot, hheld h⟩, fun stored h => absurd h (hinsert stored),
    fun run h _ => ⟨old, slot, hspawn run h⟩, hrecord⟩

theorem effect_finish {old : Phase} {run : AutomationRun} {next : Option Pass}
    (slot : w.calls call = some old) (hheld : held old = restOf next)
    (runs : List AutomationRun) :
    Effect crates w ({ w with runs := runs }.finish call run next) a := by
  cases next with
  | none =>
    refine .moved call .done [.replied call (.ok (.ran run))] ?_ ⟨rfl, rfl⟩ rfl rfl ?_
    · exact turn_idle rfl rfl (by simp) (by simp)
    · intro h' hmem
      cases List.mem_singleton.mp hmem
      trivial
  | some pass =>
    refine .moved call (.ticking pass) [] ?_ ⟨rfl, rfl⟩ rfl (List.append_nil _).symm ?_
    · exact turn_rest slot (hheld ▸ List.Subset.refl _) (by simp [spawnOf]) (by simp) (by simp)
    · simp

omit [DecidableEq κ] in
/-- A run that is not part of a pass. -/
theorem turn_run {stored : StoredAutomation} {firedAt : String} {source : RunSource}
    {payload : Option Value} (hsource : source ≠ .schedule) :
    Turn w call (runAutomation crates stored firedAt source payload none) := by
  simp only [runAutomation]
  split
  · exact ⟨by simp [held, restOf], by simp, by simp [spawnOf], by simp⟩
  · refine ⟨by simp [held, restOf], by simp, ?_, by simp⟩
    intro run h hrun
    cases h
    exact absurd hrun hsource

omit [DecidableEq κ] in
theorem creating_turn {rows : Rows} {body : CreateAutomationBody} {createdAt : DateTime}
    {secret : String} {stored : StoredAutomation}
    (h : createAutomationAt crates rows body createdAt secret = .ok stored) :
    Turn w call (.inserting stored) := by
  unfold createAutomationAt at h
  split at h
  · cases h
  · split at h <;> cases h
    refine ⟨by simp [held], ?_, by simp [spawnOf], by simp⟩
    intro stored heq
    cases heq
    exact ⟨body, createdAt, secret, rfl⟩

omit [DecidableEq κ] in
theorem reading_turn {id : String} {enabled : Bool} {stored : StoredAutomation}
    (h : automation w.rows id = .ok stored) :
    Turn w call (.updating
      { stored with automation := { stored.automation with enabled := enabled } }) := by
  obtain ⟨row, hrow, rfl⟩ := find_automation h
  refine ⟨?_, by simp, by simp [spawnOf], by simp⟩
  intro copy hcopy
  cases List.mem_singleton.mp hcopy
  exact Or.inr ⟨row, hrow, ⟨rfl, rfl⟩, rfl⟩

omit [DecidableEq κ] in
theorem listing_turn {now : DateTime} :
    Turn w call (.ticking ⟨now, w.rows.listAutomations⟩) := by
  refine ⟨?_, by simp, by simp [spawnOf], by simp⟩
  intro stored hstored
  obtain ⟨row, hrow, rfl⟩ := mem_listAutomations hstored
  exact Or.inr ⟨row, hrow, ⟨rfl, rfl⟩, rfl⟩

omit [DecidableEq κ] in
theorem firing_turn {rows : Rows} {id : String} {now : DateTime}
    (h : fireAutomation crates rows id .manual none now = .ok phase) : Turn w call phase := by
  unfold fireAutomation at h
  split at h <;> cases h
  exact turn_run (by decide)

omit [DecidableEq κ] in
theorem triggering_turn {rows : Rows} {id : String} {body : List UInt8}
    {signature : Option String} {now : DateTime}
    (h : triggerWebhook crates rows id body signature now = .ok phase) : Turn w call phase := by
  unfold triggerWebhook at h
  repeat' split at h
  all_goals cases h
  exact turn_run (by decide)

theorem tick_effect {pass : Pass} (slot : w.calls call = some (.ticking pass)) :
    Effect crates w (w.tick crates call pass) (.next call) := by
  obtain ⟨now, rest⟩ := pass
  unfold World.tick
  cases rest with
  | nil => exact effect_reply trivial
  | cons stored rest =>
    have hskip : Effect crates w (w.setCall call (.ticking ⟨now, rest⟩)) (.next call) :=
      effect_turn (turn_rest slot (List.subset_cons_self ..) (by simp [spawnOf]) (by simp)
        (by simp))
    simp only
    split
    · exact hskip
    · rename_i fireAt hdue
      split
      · exact hskip
      · rename_i rows hclaim
        exact .claimed call now stored rest fireAt _ slot hdue hclaim rfl rfl rfl

theorem advance_effect (slot : w.calls call = some phase)
    (h : w.advance crates call phase = some w') : Effect crates w w' (.next call) := by
  cases phase with
  | creating body createdAt secret =>
    cases h
    exact effect_proceed fun _ => creating_turn
  | inserting stored =>
    cases h
    exact .inserted call stored slot rfl rfl rfl rfl
  | reading id enabled =>
    cases h
    exact effect_proceed fun _ => reading_turn
  | updating stored =>
    cases h
    exact .updated call stored slot rfl rfl rfl rfl
  | clearing id =>
    cases h
    exact .moved call (.deleting id) [] (turn_idle rfl rfl (by simp) (by simp)) ⟨rfl, rfl⟩
      rfl (List.append_nil _).symm (by simp)
  | deleting id =>
    cases h
    exact .deleted call id _ slot rfl rfl rfl rfl
  | listing now =>
    cases h
    exact effect_turn listing_turn
  | ticking pass =>
    cases h
    exact tick_effect slot
  | firing id now =>
    cases h
    exact effect_proceed fun _ => firing_turn
  | triggering id body signature now =>
    cases h
    exact effect_proceed fun _ => triggering_turn
  | ensuring run spec next =>
    cases h
    exact effect_turn (turn_rest slot (List.Subset.refl _) (fun _ h => h) (by simp) (by simp))
  | applying run spec existed next =>
    cases h
    exact .spawned call run spec existed next _ slot rfl rfl rfl rfl
  | recording run execution next =>
    cases h
    exact .recorded call run execution next slot ⟨rfl, rfl⟩ rfl rfl
  | trimming run next =>
    cases h
    exact effect_finish slot rfl _
  | done => cases h

omit [DecidableEq κ] in
/-- A failed attempt leaves its error in the run. -/
theorem failed_turn {old : Phase} {run : AutomationRun} {message : String} {next : Option Pass}
    (slot : w.calls call = some old) (hheld : held old = restOf next) :
    Turn w call (.recording { run with error := some message } none next) := by
  refine turn_rest slot (hheld ▸ List.Subset.refl _) (by simp [spawnOf]) (by simp) ?_
  intro run' execution next' heq
  cases heq
  exact ⟨rfl, rfl⟩

theorem fail_effect {message : String} (slot : w.calls call = some phase)
    (h : w.fail call message phase = some w') : Effect crates w w' (.fail call message) := by
  cases phase with
  | creating | inserting | reading | updating | clearing | deleting | firing | triggering =>
    cases h
    exact effect_reply trivial
  | listing now =>
    cases h
    exact effect_reply trivial
  | ticking pass =>
    obtain ⟨now, rest⟩ := pass
    cases rest with
    | nil => cases h
    | cons stored rest =>
      cases h
      exact effect_turn (turn_rest slot (List.subset_cons_self ..) (by simp [spawnOf]) (by simp)
        (by simp))
  | ensuring run spec next | applying run spec existed next =>
    cases h
    exact effect_turn (failed_turn slot rfl)
  | recording run execution next | trimming run next =>
    cases h
    exact effect_finish slot rfl w.runs
  | done => cases h

theorem step_effect (h : w.step crates a = some w') : Effect crates w w' a := by
  cases a with
  | begin call request =>
    simp only [World.step] at h
    split at h <;> cases h
    cases request <;> exact effect_turn (turn_idle rfl rfl (by simp [Request.start])
      (by simp [Request.start]))
  | next call =>
    simp only [World.step] at h
    split at h
    · cases h
    · exact advance_effect ‹_› h
  | fail call message =>
    simp only [World.step] at h
    split at h
    · cases h
    · exact fail_effect ‹_› h
  | remove name =>
    cases h
    exact .removed name rfl rfl rfl rfl
  | apply name spec =>
    cases h
    exact .applied name spec rfl rfl rfl rfl

theorem history_kept (h : w.step crates a = some w') : w.history ⊆ w'.history := by
  have happend : ∀ happened, w'.history = w.history ++ happened → w.history ⊆ w'.history :=
    fun happened h => h ▸ List.subset_append_left _ _
  cases step_effect h with
  | removed name rows calls history | applied name spec rows calls history =>
    exact history ▸ List.Subset.refl _
  | moved call phase happened turn kept calls history plain => exact happend _ history
  | inserted call stored slot rows cluster calls history
  | updated call stored slot rows cluster calls history
  | deleted call id existed slot rows cluster calls history
  | claimed call now stored rest fireAt spec slot due rows cluster calls history
  | spawned call run spec existed next execution slot rows cluster calls history
  | recorded call run execution next slot kept calls history => exact happend _ history

end Step

end Prospero.Proofs.Automations
