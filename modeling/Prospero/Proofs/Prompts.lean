import Prospero.Proofs.AutomationEngine
import Prospero.Proofs.Interpolation

namespace Prospero.Proofs.Prompts
open Prospero.Automations Prospero.Proofs.Automations Prospero.Proofs.Interpolation

variable {σ κ : Type} [DecidableEq κ] (crates : Crates σ)

/-- The next step of a call starts a run of an automation: a pass has won the claim of
its tick, someone has asked for it, or a signed webhook has been accepted. -/
inductive Fires (w : World κ) (call : κ) : StoredAutomation → Option Value → Prop
  | scheduled {now : DateTime} {stored : StoredAutomation} {rest : List StoredAutomation}
      {fireAt : String} {rows : Rows} (slot : w.calls call = some (.ticking ⟨now, stored :: rest⟩))
      (due : dueTick crates stored now = some fireAt)
      (won : w.rows.claimAutomationFire stored.automation.id fireAt = some rows) :
      Fires w call stored none
  | manual {id : String} {now : DateTime} {stored : StoredAutomation}
      (slot : w.calls call = some (.firing id now)) (found : automation w.rows id = .ok stored) :
      Fires w call stored none
  | webhook {id secret : String} {body : List UInt8} {signature : Option String}
      {now : DateTime} {stored : StoredAutomation} {payload : Value}
      (slot : w.calls call = some (.triggering id body signature now))
      (found : automation w.rows id = .ok stored) (keyed : stored.webhookSecret = some secret)
      (signed : verifyWebhookSignature crates secret body signature = true)
      (enabled : stored.automation.enabled = true)
      (parsed : crates.jsonFromSlice body = .ok payload) : Fires w call stored (some payload)

/-- The call hands a filled prompt to `ensure_agent`, or goes on to record an error
without an agent. -/
def Formed (stored : StoredAutomation) (payload : Option Value) (phase : Option Phase) : Prop :=
  (∃ run spec next, phase = some (.ensuring run spec next) ∧
    Filled crates stored.automation.template.task payload spec.request.prompt) ∨
  ∃ run next, phase = some (.recording run none next) ∧ run.error.isSome = true

variable {crates} {w w' : World κ} {call : κ} {stored : StoredAutomation} {payload : Option Value}

omit [DecidableEq κ] in
/-- A run without a payload takes the template as it stands. -/
theorem runAutomation_formed {firedAt : String} {source : RunSource} {next : Option Pass} :
    Formed crates stored payload (some (runAutomation crates stored firedAt source payload next)) ↔
      payload.isSome ∨ Slotless stored.automation.template.task := by
  cases payload with
  | none =>
    rw [← filled_none_iff crates]
    constructor
    · intro h
      rcases h with ⟨run, spec, next', heq, hfilled⟩ | ⟨run, next', heq, -⟩
      · cases heq
        exact Or.inr hfilled
      · cases heq
    · intro h
      rcases h with hsome | hfilled
      · cases hsome
      · exact Or.inl ⟨_, _, next, rfl, hfilled⟩
  | some p =>
    refine iff_of_true ?_ (Or.inl rfl)
    unfold runAutomation
    cases htask : interpolate crates stored.automation.template.task p with
    | error e =>
      simp only [htask]
      exact Or.inr ⟨_, next, rfl, rfl⟩
    | ok task =>
      simp only [htask]
      exact Or.inl ⟨_, _, next, rfl, interpolate_filled htask⟩

/-- Where a call fires, its next step is the run. -/
theorem Fires.runs (h : Fires crates w call stored payload)
    (hs : w.step crates (.next call) = some w') : ∃ firedAt source next,
      w'.calls call = some (runAutomation crates stored firedAt source payload next) := by
  cases h with
  | scheduled slot due won =>
    simp only [World.step, slot, World.advance, World.tick, due, won, Option.some.injEq] at hs
    subst hs
    exact ⟨_, _, _, Function.update_self ..⟩
  | manual slot found =>
    simp only [World.step, slot, World.advance, fireAutomation, found, World.proceed,
      Option.some.injEq] at hs
    subst hs
    exact ⟨_, _, _, Function.update_self ..⟩
  | webhook slot found keyed signed enabled parsed =>
    simp only [World.step, slot, World.advance, triggerWebhook, found, keyed, signed, enabled,
      parsed, not_true_eq_false, if_false, World.proceed, Option.some.injEq] at hs
    subst hs
    exact ⟨_, _, _, Function.update_self ..⟩

section Start

variable {a : Action κ} {run : AutomationRun} {spec : TaskSpec} {next : Option Pass}

/-- Nothing but the step of a call leads it to an agent. -/
theorem setCall_other {other : κ} {phase : Phase} (hphase : phase ≠ .ensuring run spec next)
    (h : (w.setCall call phase).calls other = some (.ensuring run spec next)) :
    w.calls other = some (.ensuring run spec next) := by
  rcases Slots.update_some h with ⟨-, heq⟩ | ⟨-, hold⟩
  · exact absurd heq.symm hphase
  · exact hold

theorem finish_other {other : κ} {done : AutomationRun} {rest : Option Pass}
    (h : (w.finish call done rest).calls other = some (.ensuring run spec next)) :
    w.calls other = some (.ensuring run spec next) := by
  cases rest with
  | none => exact setCall_other (by simp : Phase.done ≠ _) h
  | some pass => exact setCall_other (by simp) h

theorem proceed_other {α : Type} {r : Except Automations.CoreError α} {phase : α → Phase}
    {other : κ}
    (h : (w.proceed call r phase).calls other = some (.ensuring run spec next)) :
    w.calls other = some (.ensuring run spec next) ∨
      other = call ∧ ∃ x, r = .ok x ∧ phase x = .ensuring run spec next := by
  cases r with
  | error e => exact Or.inl (setCall_other (by simp : Phase.done ≠ _) h)
  | ok x =>
    rcases Slots.update_some h with ⟨hother, heq⟩ | ⟨-, hold⟩
    · exact Or.inr ⟨hother, x, rfl, heq.symm⟩
    · exact Or.inl hold

omit [DecidableEq κ] in
theorem fireAutomation_fires {id : String} {now : DateTime} {phase : Phase}
    (slot : w.calls call = some (.firing id now))
    (h : fireAutomation crates w.rows id .manual none now = .ok phase) :
    ∃ stored, Fires crates w call stored none := by
  unfold fireAutomation at h
  split at h
  · cases h
  · exact ⟨_, .manual slot ‹_›⟩

omit [DecidableEq κ] in
theorem triggerWebhook_fires {id : String} {body : List UInt8} {signature : Option String}
    {now : DateTime} {phase : Phase}
    (slot : w.calls call = some (.triggering id body signature now))
    (h : triggerWebhook crates w.rows id body signature now = .ok phase) :
    ∃ stored payload, Fires crates w call stored (some payload) := by
  unfold triggerWebhook at h
  split at h
  · cases h
  · rename_i stored hfound
    split at h
    · cases h
    · rename_i secret hkeyed
      split at h
      · cases h
      · rename_i hsigned
        split at h
        · cases h
        · rename_i henabled
          split at h
          · cases h
          · rename_i payload hparsed
            exact ⟨stored, payload, .webhook slot hfound hkeyed (not_not.mp hsigned)
              (not_not.mp henabled) hparsed⟩

theorem tick_fires {pass : Pass} {other : κ} (slot : w.calls call = some (.ticking pass))
    (h : (w.tick crates call pass).calls other = some (.ensuring run spec next)) :
    w.calls other = some (.ensuring run spec next) ∨
      other = call ∧ ∃ stored payload, Fires crates w call stored payload := by
  obtain ⟨now, rest⟩ := pass
  unfold World.tick at h
  cases rest with
  | nil => exact Or.inl (setCall_other (by simp : Phase.done ≠ _) h)
  | cons stored rest =>
    simp only at h
    split at h
    · exact Or.inl (setCall_other (by simp) h)
    · rename_i fireAt hdue
      split at h
      · exact Or.inl (setCall_other (by simp) h)
      · rename_i rows hwon
        rcases Slots.update_some h with ⟨hother, -⟩ | ⟨-, hold⟩
        · exact Or.inr ⟨hother, stored, none, .scheduled slot hdue hwon⟩
        · exact Or.inl hold

theorem fail_ensuring {message : String} {phase : Phase} {call other : κ}
    (hs : w.fail call message phase = some w')
    (h : w'.calls other = some (.ensuring run spec next)) :
    w.calls other = some (.ensuring run spec next) := by
  cases phase with
  | creating | inserting | reading | updating | clearing | deleting | listing | firing
  | triggering =>
    cases hs
    exact setCall_other (by simp : Phase.done ≠ _) h
  | ticking pass =>
    obtain ⟨now, rest⟩ := pass
    cases rest with
    | nil => cases hs
    | cons stored rest =>
      cases hs
      exact setCall_other (by simp) h
  | ensuring | applying =>
    cases hs
    exact setCall_other (by simp) h
  | recording | trimming =>
    cases hs
    exact finish_other h
  | done => cases hs

theorem advance_fires {phase : Phase} {call other : κ} (slot : w.calls call = some phase)
    (hs : w.advance crates call phase = some w')
    (h : w'.calls other = some (.ensuring run spec next)) :
    w.calls other = some (.ensuring run spec next) ∨
      other = call ∧ ∃ stored payload, Fires crates w call stored payload := by
  cases phase with
  | creating body createdAt secret =>
    cases hs
    rcases proceed_other h with hold | ⟨-, stored, -, heq⟩
    · exact Or.inl hold
    · cases heq
  | reading id enabled =>
    cases hs
    rcases proceed_other h with hold | ⟨-, stored, -, heq⟩
    · exact Or.inl hold
    · cases heq
  | inserting | updating | deleting =>
    cases hs
    exact Or.inl (setCall_other (by simp : Phase.done ≠ _) h)
  | clearing | listing | ensuring | applying | recording =>
    cases hs
    exact Or.inl (setCall_other (by simp) h)
  | ticking pass =>
    cases hs
    exact tick_fires slot h
  | firing id now =>
    cases hs
    rcases proceed_other h with hold | ⟨rfl, phase, hfire, -⟩
    · exact Or.inl hold
    · obtain ⟨stored, hfires⟩ := fireAutomation_fires slot hfire
      exact Or.inr ⟨rfl, stored, none, hfires⟩
  | triggering id body signature now =>
    cases hs
    rcases proceed_other h with hold | ⟨rfl, phase, htrigger, -⟩
    · exact Or.inl hold
    · obtain ⟨stored, payload, hfires⟩ := triggerWebhook_fires slot htrigger
      exact Or.inr ⟨rfl, stored, some payload, hfires⟩
  | trimming finished rest =>
    cases hs
    exact Or.inl (finish_other
      (w := { w with runs := trimRuns w.runs finished.automationId }) h)
  | done => cases hs

/-- An agent is asked for by a run that a call has just started. -/
theorem ensuring_fires {other : κ} (hs : w.step crates a = some w')
    (h : w'.calls other = some (.ensuring run spec next)) :
    w.calls other = some (.ensuring run spec next) ∨
      a = .next other ∧ ∃ stored payload, Fires crates w other stored payload := by
  cases a with
  | begin call request =>
    simp only [World.step] at hs
    split at hs <;> cases hs
    refine Or.inl (setCall_other ?_ h)
    cases request <;> simp [Request.start]
  | remove name | apply name spec' =>
    cases hs
    exact Or.inl h
  | fail call message =>
    simp only [World.step] at hs
    split at hs
    · cases hs
    · exact Or.inl (fail_ensuring hs h)
  | next call =>
    simp only [World.step] at hs
    split at hs
    · cases hs
    · rcases advance_fires ‹_› hs h with hold | ⟨rfl, hfires⟩
      · exact Or.inl hold
      · exact Or.inr ⟨rfl, hfires⟩

end Start

variable (crates) in
/-- A call that fires at this step has come to a filled prompt or an error. -/
def FormsPrompts (w : World κ) (a : Action κ) : Prop :=
  ∀ w' call stored payload, a = .next call → w.step crates a = some w' →
    Fires crates w call stored payload → Formed crates stored payload (w'.calls call)

variable (crates) in
/-- A run that starts at this step has a payload, or a template with no slot. -/
def HasPayload (w : World κ) (a : Action κ) : Prop :=
  ∀ call stored payload, a = .next call → Fires crates w call stored payload →
    payload.isSome ∨ Slotless stored.automation.template.task

theorem Fires.formed_iff (h : Fires crates w call stored payload)
    (hs : w.step crates (.next call) = some w') :
    Formed crates stored payload (w'.calls call) ↔
      payload.isSome ∨ Slotless stored.automation.template.task := by
  obtain ⟨firedAt, source, next, hcall⟩ := h.runs hs
  rw [hcall]
  exact runAutomation_formed

/-- Where a call fires, its next step is enabled. -/
theorem Fires.enabled (h : Fires crates w call stored payload) :
    ∃ w', w.step crates (.next call) = some w' := by
  cases h with
  | scheduled slot => simp [World.step, slot, World.advance]
  | manual slot => simp [World.step, slot, World.advance]
  | webhook slot => simp [World.step, slot, World.advance]

theorem formsPrompts_iff {a : Action κ} : FormsPrompts crates w a ↔ HasPayload crates w a := by
  constructor
  · intro h call stored payload ha hfires
    subst ha
    obtain ⟨w', hs⟩ := hfires.enabled
    exact (hfires.formed_iff hs).mp (h w' call stored payload rfl hs hfires)
  · intro h w' call stored payload ha hs hfires
    subst ha
    exact (hfires.formed_iff hs).mpr (h call stored payload rfl hfires)

/-- Only a run that a call has just started asks for an agent. Throughout the engines'
life what starts asks with a filled prompt, or is recorded with an error, just when
nothing that has slots is fired without a payload. -/
theorem prompts_formed_iff {σ κ : Type} [DecidableEq κ] (crates : Crates σ) :
    (∀ (w w' : World κ) (a : Action κ) (call : κ) (run : AutomationRun) (spec : TaskSpec)
      (next : Option Pass), w.step crates a = some w' →
      w'.calls call = some (.ensuring run spec next) →
      w.calls call = some (.ensuring run spec next) ∨
        a = .next call ∧ ∃ stored payload, Fires crates w call stored payload) ∧
    ∀ as : List (Action κ),
      Machine.Steps (World.step crates) (FormsPrompts crates) World.start as ↔
        Machine.Steps (World.step crates) (HasPayload crates) World.start as :=
  ⟨fun _ _ _ _ _ _ _ => ensuring_fires,
    fun _ => Machine.steps_congr (fun _ _ _ => formsPrompts_iff) World.start⟩

section Manual

def review : CreateAutomationBody where
  id := "review"
  workspace := "ws"
  trigger := .webhook
  template := ⟨"Review {{ref}}", none, none, none, none, none, none, true, .supervised⟩
  enabled := true

/-- Someone runs a webhook's automation now. -/
def runReview : List (Action Nat) :=
  [.begin 0 (.create review (clock 10 30 0) "key"), .next 0, .next 0,
    .begin 1 (.fire "review" (clock 10 40 0)), .next 1]

theorem review_slots : Task review.template.task.toList [("Review ".toList, "ref".toList)] [] :=
  .slot (cut_firstAt rfl) (cut_firstAt rfl) (.bare (by decide))

theorem raw_slot_spawned :
    ¬∀ as : List (Action Nat),
      Machine.Steps (World.step hourly) (FormsPrompts hourly) World.start as := by
  intro h
  have hlast := (h runReview).2 _ rfl |>.2 _ rfl |>.2 _ rfl |>.2 _ rfl |>.1
  have hformed := hlast _ 1 _ none rfl rfl (.manual rfl rfl)
  rcases hformed with ⟨run, spec, next, heq, slots, tail, texts, htask, htexts, -⟩ | ⟨_, _, heq, -⟩
  · obtain ⟨rfl, -⟩ := htask.unique review_slots
    cases htexts with
    | cons hfills =>
      obtain ⟨p, hp, -⟩ := hfills
      cases hp
  · cases heq

end Manual

end Prospero.Proofs.Prompts
