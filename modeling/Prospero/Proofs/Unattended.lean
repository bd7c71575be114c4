import Prospero.Proofs.Auth
import Prospero.Proofs.AutomationEngine
import Prospero.Unattended

namespace Prospero.Proofs.Unattended
open Prospero.Automations (Automation Crates Phase StoredAutomation TaskSpec spawnRequestFrom)
open Prospero.Auth (Crypto Principal requiredAccess)
open Prospero.Proofs.Automations (Copied Effect core held restOf rowOf)
open Prospero.Unattended

section Engine

variable {σ κ : Type} [DecidableEq κ] {crates : Crates σ} {w w' : Automations.World κ} {call : κ}
  {phase old : Phase} {a : Automation} {stored : StoredAutomation}

/-- The spec is one that a run of the automation asks for. -/
def Fires (a : Automation) (id : String) (spec : TaskSpec) : Prop :=
  a.id = id ∧ ∃ task, spec = ⟨a.workspace, spawnRequestFrom a.template task⟩

theorem Fires.transfer {b : Automation} {id : String} {spec : TaskSpec} (h : Fires a id spec)
    (hcore : core a = core b) : Fires b id spec := by
  obtain ⟨hid, task, hspec⟩ := h
  have hsame := congrArg Automation.id hcore
  have hworkspace := congrArg Automation.workspace hcore
  have htemplate := congrArg Automation.template hcore
  simp only [core] at hsame hworkspace htemplate
  exact ⟨hsame ▸ hid, task, by rw [hspec, hworkspace, htemplate]⟩

/-- The call is on its way to write a new automation. -/
def Opening : Phase → Prop
  | .creating _ _ _ | .inserting _ => True
  | _ => False

/-- What a call that goes on may come to: no new automation but the one it was
opened for, and no spawn but one of an automation it has read. -/
structure Follows (w : Automations.World κ) (call : κ) (phase : Phase) : Prop where
  opening : Opening phase → ∃ old, w.calls call = some old ∧ Opening old
  spawn : ∀ run spec next, phase = .ensuring run spec next →
    ∃ stored, Copied w call stored ∧ Fires stored.automation run.automationId spec

omit [DecidableEq κ] in
theorem follows_idle (hopen : ¬Opening phase)
    (hspawn : ∀ run spec next, phase ≠ .ensuring run spec next) : Follows w call phase :=
  ⟨fun h => absurd h hopen, fun run spec next h => absurd h (hspawn run spec next)⟩

omit [DecidableEq κ] in
/-- A run is one of the automation that was read for it. -/
theorem follows_run {firedAt : String} {source : Automations.RunSource}
    {payload : Option Value} {next : Option Automations.Pass} (hcopied : Copied w call stored) :
    Follows w call (Automations.runAutomation crates stored firedAt source payload next) := by
  simp only [Automations.runAutomation]
  split
  · exact follows_idle id (by simp)
  · rename_i task _
    refine ⟨False.elim, ?_⟩
    intro run spec next' h
    cases h
    exact ⟨stored, hcopied, rfl, task, rfl⟩

theorem proceed_follows {α : Type} {r : Except Automations.CoreError α} {next : α → Phase}
    (h : ∀ x, r = .ok x → Follows w call (next x)) :
    ∃ phase, (w.proceed call r next).calls = Function.update w.calls call (some phase) ∧
      Follows w call phase := by
  cases r with
  | error e => exact ⟨.done, rfl, follows_idle id (by simp)⟩
  | ok x => exact ⟨next x, rfl, h x rfl⟩

theorem finish_follows {run : Automations.AutomationRun} {next : Option Automations.Pass}
    (runs : List Automations.AutomationRun) :
    ∃ phase, ({ w with runs := runs }.finish call run next).calls =
      Function.update w.calls call (some phase) ∧ Follows w call phase := by
  cases next with
  | none => exact ⟨.done, rfl, follows_idle id (by simp)⟩
  | some pass => exact ⟨.ticking pass, rfl, follows_idle id (by simp)⟩

omit [DecidableEq κ] in
theorem copied_automation {id : String} (h : Automations.automation w.rows id = .ok stored) :
    Copied w call stored := by
  obtain ⟨row, hrow, rfl⟩ := Automations.find_automation h
  exact Or.inr ⟨row, hrow, ⟨rfl, rfl⟩, rfl⟩

omit [DecidableEq κ] in
theorem firing_follows {id : String} {now : DateTime}
    (h : Automations.fireAutomation crates w.rows id .manual none now = .ok phase) :
    Follows w call phase := by
  unfold Automations.fireAutomation at h
  split at h <;> cases h
  exact follows_run (copied_automation ‹_›)

omit [DecidableEq κ] in
theorem triggering_follows {id : String} {body : List UInt8} {signature : Option String}
    {now : DateTime}
    (h : Automations.triggerWebhook crates w.rows id body signature now = .ok phase) :
    Follows w call phase := by
  unfold Automations.triggerWebhook at h
  repeat' split at h
  all_goals cases h
  exact follows_run (copied_automation ‹_›)

theorem tick_follows {pass : Automations.Pass} (slot : w.calls call = some (.ticking pass)) :
    ∃ phase, (w.tick crates call pass).calls = Function.update w.calls call (some phase) ∧
      Follows w call phase := by
  obtain ⟨now, rest⟩ := pass
  unfold Automations.World.tick
  cases rest with
  | nil => exact ⟨.done, rfl, follows_idle id (by simp)⟩
  | cons stored rest =>
    have hskip : Follows w call (.ticking ⟨now, rest⟩) := follows_idle id (by simp)
    simp only
    split
    · exact ⟨_, rfl, hskip⟩
    · split
      · exact ⟨_, rfl, hskip⟩
      · exact ⟨_, rfl, follows_run (Or.inl ⟨_, slot, List.mem_cons_self⟩)⟩

theorem advance_follows (slot : w.calls call = some old)
    (h : w.advance crates call old = some w') :
    ∃ phase, w'.calls = Function.update w.calls call (some phase) ∧ Follows w call phase := by
  cases old with
  | creating body createdAt secret =>
    cases h
    exact proceed_follows fun _ _ => ⟨fun _ => ⟨_, slot, trivial⟩, by simp⟩
  | reading id enabled =>
    cases h
    exact proceed_follows fun _ _ => follows_idle False.elim (by simp)
  | firing id now =>
    cases h
    exact proceed_follows fun _ => firing_follows
  | triggering id body signature now =>
    cases h
    exact proceed_follows fun _ => triggering_follows
  | ticking pass =>
    cases h
    exact tick_follows slot
  | trimming run next =>
    cases h
    exact finish_follows _
  | inserting | updating | clearing | deleting | listing | ensuring | applying | recording =>
    cases h
    exact ⟨_, rfl, follows_idle id (by simp)⟩
  | done => cases h

theorem fail_follows {message : String} (h : w.fail call message old = some w') :
    ∃ phase, w'.calls = Function.update w.calls call (some phase) ∧ Follows w call phase := by
  cases old with
  | ticking pass =>
    obtain ⟨now, rest⟩ := pass
    cases rest with
    | nil => cases h
    | cons stored rest =>
      cases h
      exact ⟨_, rfl, follows_idle id (by simp)⟩
  | recording run execution next | trimming run next =>
    cases h
    exact finish_follows w.runs
  | done => cases h
  | _ =>
    cases h
    exact ⟨_, rfl, follows_idle id (by simp)⟩

/-- What a call has in hand after a step it had before, or has just read. -/
theorem effect_copies {action : Automations.Action κ} (h : Effect crates w w' action)
    (slot : w'.calls call = some phase) : ∀ stored ∈ held phase, Copied w call stored := by
  intro stored hmem
  have hupdate : ∀ {other : κ} {next : Phase},
      w'.calls = Function.update w.calls other (some next) →
      (∀ x ∈ held next, Copied w other x) → Copied w call stored := by
    intro other next calls hcopies
    rw [calls] at slot
    rcases Slots.update_some slot with ⟨rfl, rfl⟩ | ⟨-, hold⟩
    · exact hcopies stored hmem
    · exact Or.inl ⟨phase, hold, hmem⟩
  cases h with
  | removed name rows calls | applied name spec rows calls =>
    exact Or.inl ⟨phase, calls ▸ slot, hmem⟩
  | moved other next happened turn kept calls => exact hupdate calls turn.copies
  | inserted other stored' old rows cluster calls | updated other stored' old rows cluster calls
  | deleted other id existed old rows cluster calls => exact hupdate calls (by simp [held])
  | claimed other now stored' rest fireAt spec old due rows cluster calls =>
    exact hupdate calls fun x hx => Or.inl ⟨_, old, List.mem_cons_of_mem stored' hx⟩
  | spawned other run spec existed next execution old rows cluster calls
  | recorded other run execution next old kept calls =>
    exact hupdate calls fun x hx => Or.inl ⟨_, old, hx⟩

/-- The history goes on, and an automation is created by the call that was writing it. -/
theorem effect_history {action : Automations.Action κ} (h : Effect crates w w' action) :
    w.history ⊆ w'.history ∧
      ∀ call stored, .replied call (.ok (.created stored)) ∈ w'.history →
        .replied call (.ok (.created stored)) ∈ w.history ∨
          w.calls call = some (.inserting stored) := by
  have hplain : ∀ {happened : List (Automations.Happening κ)},
      w'.history = w.history ++ happened →
      (∀ call stored, .replied call (.ok (.created stored)) ∈ happened →
        w.calls call = some (.inserting stored)) →
      w.history ⊆ w'.history ∧
      ∀ call stored, .replied call (.ok (.created stored)) ∈ w'.history →
        .replied call (.ok (.created stored)) ∈ w.history ∨
          w.calls call = some (.inserting stored) := by
    intro happened history hnew
    rw [history]
    refine ⟨List.subset_append_left _ _, ?_⟩
    intro call stored hmem
    exact (List.mem_append.mp hmem).imp id (hnew call stored)
  cases h with
  | removed name rows calls history | applied name spec rows calls history =>
    exact hplain (history.trans (List.append_nil _).symm) (by simp)
  | moved other next happened turn kept calls history plain =>
    exact hplain history fun call stored hmem => (plain _ hmem).elim
  | inserted other stored' old rows cluster calls history =>
    refine hplain history ?_
    intro call stored hmem
    cases List.mem_singleton.mp hmem
    exact old
  | updated other stored' old rows cluster calls history
  | deleted other id existed old rows cluster calls history
  | claimed other now stored' rest fireAt spec old due rows cluster calls history
  | spawned other run spec existed next execution old rows cluster calls history
  | recorded other run execution next old kept calls history => exact hplain history (by simp)

theorem effect_filled {action : Automations.Action κ} (h : Effect crates w w' action)
    (filled : w.calls call ≠ none) : w'.calls call ≠ none := by
  have hupdate : ∀ {other : κ} {next : Phase},
      w'.calls = Function.update w.calls other (some next) → w'.calls call ≠ none := by
    intro other next calls
    rw [calls, Function.update_apply]
    split
    · simp
    · exact filled
  cases h with
  | removed name rows calls | applied name spec rows calls => rw [calls]; exact filled
  | moved other next happened turn kept calls | inserted other stored' old rows cluster calls
  | updated other stored' old rows cluster calls
  | deleted other id existed old rows cluster calls
  | claimed other now stored' rest fireAt spec old due rows cluster calls
  | spawned other run spec existed next execution old rows cluster calls
  | recorded other run execution next old kept calls => exact hupdate calls

/-- A row is as it was, or comes from a call that was writing it. -/
inductive RowFrom (w w' : Automations.World κ) (id : String) (row : Automations.Row) : Prop
  | before (old : Automations.Row) (found : rowOf w.rows id = some old)
      (same : core old.spec = core row.spec)
  | edited (call : κ) (stored : StoredAutomation) (slot : w.calls call = some (.updating stored))
      (same : core stored.automation = core row.spec)
  | created (call : κ) (stored : StoredAutomation)
      (slot : w.calls call = some (.inserting stored))
      (replied : .replied call (.ok (.created stored)) ∈ w'.history)
      (same : core stored.automation = core row.spec)

theorem effect_rows {action : Automations.Action κ} {id : String} {row : Automations.Row}
    (h : Effect crates w w' action) (hrow : rowOf w'.rows id = some row) :
    RowFrom w w' id row := by
  cases h with
  | removed name rows | applied name spec rows
  | spawned other run spec existed next execution old rows =>
    exact .before row (rows ▸ hrow) rfl
  | moved other next happened turn kept | recorded other run execution next old kept =>
    exact .before row (kept.rows ▸ hrow) rfl
  | inserted other stored' old rows cluster calls history =>
    rw [rows, Automations.rowOf_upsert] at hrow
    split at hrow
    · cases hrow
      exact .created other stored' old (history ▸ List.mem_append_right _ List.mem_cons_self) rfl
    · exact .before row hrow rfl
  | updated other stored' old rows cluster calls history =>
    rw [rows, Automations.rowOf_upsert] at hrow
    split at hrow
    · cases hrow
      exact .edited other stored' old rfl
    · exact .before row hrow rfl
  | deleted other id' existed old rows =>
    rw [rows, Automations.rowOf_erase] at hrow
    split at hrow
    · cases hrow
    · exact .before row hrow rfl
  | claimed other now stored' rest fireAt spec old due rows =>
    obtain ⟨found, hfound, -, hrows⟩ := Automations.claim_eq rows
    rw [hrows] at hrow
    split at hrow
    · rename_i hid
      subst hid
      cases hrow
      exact .before found hfound rfl
    · exact .before row hrow rfl

end Engine

section Provenance

variable {κ : Type}

/-- A principal of admin scope had the automation created. -/
def CreatedByAdmin (w : World κ) (stored : StoredAutomation) : Prop :=
  ∃ call principal, w.openers call = some principal ∧ principal.scope = .admin ∧
    .replied call (.ok (.created stored)) ∈ w.engine.history

/-- A principal of admin scope has asked for the spawn, or has created the template
with its posture, or that holds of the agent it respawns. -/
inductive Sanctioned (w : World κ) : Spawn → Prop
  | requested (principal : Principal) (spec : TaskSpec) (admin : principal.scope = .admin) :
      Sanctioned w (.requested (some principal) spec)
  | fired (id : String) (spec : TaskSpec) (stored : StoredAutomation)
      (created : CreatedByAdmin w stored)
      (unattended : stored.automation.template.permissionPosture = .unattended)
      (fires : Fires stored.automation id spec) : Sanctioned w (.fired id spec)
  | respawned (agent : Spawn) (reached : agent ∈ w.spawns)
      (unattended : agent.posture = .unattended) (sanctioned : Sanctioned w agent) :
      Sanctioned w (.respawned agent)

def NoEscalation (w : World κ) : Prop :=
  ∀ spawn ∈ w.spawns, spawn.posture = .unattended → Sanctioned w spawn

/-- The automation is one that an admin created, but for its edits. -/
def Known (w : World κ) (a : Automation) : Prop :=
  ∃ stored, CreatedByAdmin w stored ∧ core stored.automation = core a

/-- Every automation that an engine works with is known, and who is to write a new
one is an admin. -/
structure Vouched (w : World κ) : Prop where
  filled : ∀ call stored, .replied call (.ok (.created stored)) ∈ w.engine.history →
    w.engine.calls call ≠ none
  opening : ∀ call phase, w.engine.calls call = some phase → Opening phase →
    ∃ principal, w.openers call = some principal ∧ principal.scope = .admin
  rows : ∀ id row, rowOf w.engine.rows id = some row → Known w row.spec
  copies : ∀ call phase, w.engine.calls call = some phase → ∀ stored ∈ held phase,
    Known w stored.automation
  ensuring : ∀ call run spec next, w.engine.calls call = some (.ensuring run spec next) →
    ∃ stored, CreatedByAdmin w stored ∧ Fires stored.automation run.automationId spec

structure Inv (w : World κ) : Prop where
  vouched : Vouched w
  fleet : ∀ id agent, w.fleet id = some agent → agent ∈ w.spawns
  spawns : NoEscalation w

end Provenance

section Later

variable {κ : Type} {w w' : World κ} {call : κ} {stored : StoredAutomation} {spawn : Spawn}

/-- Nothing that has happened is taken back. -/
structure Later (w w' : World κ) : Prop where
  openers : ∀ call, w.engine.calls call ≠ none → w'.openers call = w.openers call
  history : w.engine.history ⊆ w'.engine.history
  spawns : w.spawns ⊆ w'.spawns

theorem Vouched.created (h : Vouched w) (later : Later w w') (hc : CreatedByAdmin w stored) :
    CreatedByAdmin w' stored := by
  obtain ⟨call, principal, hopener, hadmin, hreply⟩ := hc
  refine ⟨call, principal, ?_, hadmin, later.history hreply⟩
  rw [later.openers call (h.filled call stored hreply)]
  exact hopener

theorem Vouched.later_known {a : Automation} (h : Vouched w) (later : Later w w')
    (hknown : Known w a) : Known w' a := by
  obtain ⟨stored, hcreated, hcore⟩ := hknown
  exact ⟨stored, h.created later hcreated, hcore⟩

theorem Vouched.sanctioned (h : Vouched w) (later : Later w w') (hs : Sanctioned w spawn) :
    Sanctioned w' spawn := by
  induction hs with
  | requested principal spec admin => exact .requested principal spec admin
  | fired id spec stored created unattended fires =>
    exact .fired id spec stored (h.created later created) unattended fires
  | respawned agent reached unattended _ ih =>
    exact .respawned agent (later.spawns reached) unattended ih

theorem Vouched.known (h : Vouched w) (hc : Copied w.engine call stored) :
    Known w stored.automation := by
  rcases hc with ⟨old, slot, hmem⟩ | ⟨row, hrow, hsame, -⟩
  · exact h.copies call old slot stored hmem
  · obtain ⟨created, hcreated, hcore⟩ := h.rows _ row hrow
    exact ⟨created, hcreated, hcore.trans hsame.1.symm⟩

/-- A run of an automation that is known is one of its template. -/
theorem Vouched.fires {phase : Phase} {run : Automations.AutomationRun} {spec : TaskSpec}
    {next : Option Automations.Pass} (h : Vouched w) (hf : Follows w.engine call phase)
    (hphase : phase = .ensuring run spec next) :
    ∃ stored, CreatedByAdmin w stored ∧ Fires stored.automation run.automationId spec := by
  obtain ⟨read, hcopied, hfires⟩ := hf.spawn run spec next hphase
  obtain ⟨stored, hcreated, hcore⟩ := h.known hcopied
  exact ⟨stored, hcreated, hfires.transfer hcore.symm⟩

end Later

section Step

variable {σ κ : Type} [DecidableEq κ] {crypto : Crypto} {crates : Crates σ} {w w' : World κ}

/-- What a step of the engines keeps, if those that come to write an automation are
opened by an admin, and those that come to spawn have read the template. -/
theorem Vouched.engine {a : Automations.Action κ} (h : Vouched w) (later : Later w w')
    (effect : Effect crates w.engine w'.engine a)
    (opening : ∀ call phase, w'.engine.calls call = some phase → Opening phase →
      ∃ principal, w'.openers call = some principal ∧ principal.scope = .admin)
    (ensuring : ∀ call run spec next, w'.engine.calls call = some (.ensuring run spec next) →
      ∃ stored, CreatedByAdmin w stored ∧ Fires stored.automation run.automationId spec) :
    Vouched w' := by
  obtain ⟨-, hnew⟩ := effect_history effect
  refine ⟨?_, opening, ?_, ?_, ?_⟩
  · intro call stored hmem
    apply effect_filled effect
    rcases hnew call stored hmem with hold | hslot
    · exact h.filled call stored hold
    · simp [hslot]
  · intro id row hrow
    cases effect_rows effect hrow with
    | before old found same =>
      obtain ⟨stored, hcreated, hcore⟩ := h.rows id old found
      exact h.later_known later ⟨stored, hcreated, hcore.trans same⟩
    | edited call stored slot same =>
      obtain ⟨created, hcreated, hcore⟩ := h.copies call _ slot stored List.mem_cons_self
      exact h.later_known later ⟨created, hcreated, hcore.trans same⟩
    | created call stored slot replied same =>
      obtain ⟨principal, hopener, hadmin⟩ := h.opening call _ slot trivial
      refine ⟨stored, ⟨call, principal, ?_, hadmin, replied⟩, same⟩
      rw [later.openers call (by simp [slot])]
      exact hopener
  · intro call phase slot stored hmem
    exact h.later_known later (h.known (effect_copies effect slot stored hmem))
  · intro call run spec next slot
    obtain ⟨stored, hcreated, hfires⟩ := ensuring call run spec next slot
    exact ⟨stored, h.created later hcreated, hfires⟩

omit [DecidableEq κ] in
/-- Spawns have reached the provider, each with its sanction if it is unattended. -/
theorem Inv.reached {new : List Spawn} (h : Inv w) (later : Later w w') (vouched : Vouched w')
    (fleet : w'.fleet = w.fleet) (spawns : w'.spawns = w.spawns ++ new)
    (hnew : ∀ spawn ∈ new, spawn.posture = .unattended → Sanctioned w spawn) : Inv w' := by
  refine ⟨vouched, ?_, ?_⟩
  · intro id agent hagent
    rw [fleet] at hagent
    exact later.spawns (h.fleet id agent hagent)
  · intro spawn hmem hposture
    rw [spawns] at hmem
    rcases List.mem_append.mp hmem with hold | hmem
    · exact h.vouched.sanctioned later (h.spawns spawn hold hposture)
    · exact h.vouched.sanctioned later (hnew spawn hmem hposture)

omit [DecidableEq κ] in
theorem Inv.spawned {spawn : Spawn} (h : Inv w)
    (hs : spawn.posture = .unattended → Sanctioned w spawn) :
    Inv { w with spawns := w.spawns ++ [spawn] } := by
  obtain ⟨filled, opening, rows, copies, ensuring⟩ := h.vouched
  refine h.reached ⟨fun _ _ => rfl, List.Subset.refl _, List.subset_append_left _ _⟩
    ⟨filled, opening, rows, copies, ensuring⟩ rfl rfl ?_
  exact List.forall_mem_singleton.mpr hs

omit [DecidableEq κ] in
theorem Inv.restartAgent (h : Inv w) (id : String) : Inv (w.restartAgent id) := by
  unfold World.restartAgent
  split
  · exact h
  · rename_i agent hagent
    have hreached := h.fleet id agent hagent
    exact h.spawned fun hposture => .respawned agent hreached hposture
      (h.spawns agent hreached hposture)

omit [DecidableEq κ] in
/-- The provider shows other agents, each of a spawn that has reached it. -/
theorem Inv.moved {fleet : String → Option Spawn} (h : Inv w)
    (hfleet : ∀ id agent, fleet id = some agent → agent ∈ w.spawns) :
    Inv { w with fleet := fleet } := by
  obtain ⟨filled, opening, rows, copies, ensuring⟩ := h.vouched
  refine ⟨⟨filled, opening, rows, copies, ensuring⟩, hfleet, ?_⟩
  intro spawn hmem hposture
  exact h.vouched.sanctioned ⟨fun _ _ => rfl, List.Subset.refl _, List.Subset.refl _⟩
    (h.spawns spawn hmem hposture)

/-- A call on an engine that a request or a tick makes. -/
theorem Inv.begin {call : κ} {request : Automations.Request} (h : Inv w)
    (hs : w.engine.step crates (.begin call request) = some w'.engine)
    (openers : ∀ other, other ≠ call → w'.openers other = w.openers other)
    (hopen : Opening request.start →
      ∃ principal, w'.openers call = some principal ∧ principal.scope = .admin)
    (fleet : w'.fleet = w.fleet) (spawns : w'.spawns = w.spawns) : Inv w' := by
  have effect := Automations.step_effect hs
  have hslot : w.engine.calls call = none := by
    simp only [Automations.World.step] at hs
    split at hs <;> simp_all
  have hcalls : w'.engine.calls = Function.update w.engine.calls call (some request.start) := by
    simp only [Automations.World.step, hslot] at hs
    rw [← Option.some.inj hs]
    rfl
  have later : Later w w' := by
    refine ⟨?_, (effect_history effect).1, spawns ▸ List.Subset.refl _⟩
    intro other hfilled
    exact openers other fun heq => hfilled (heq ▸ hslot)
  have hnone : w'.spawns = w.spawns ++ [] := spawns.trans (List.append_nil _).symm
  refine h.reached later (h.vouched.engine later effect ?_ ?_) fleet hnone (by simp)
  · intro other phase slot hopening
    rw [hcalls] at slot
    rcases Slots.update_some slot with ⟨rfl, rfl⟩ | ⟨hne, hold⟩
    · exact hopen hopening
    · rw [openers other hne]
      exact h.vouched.opening other phase hold hopening
  · intro other run spec next slot
    rw [hcalls] at slot
    rcases Slots.update_some slot with ⟨rfl, heq⟩ | ⟨-, hold⟩
    · cases request <;> cases heq
    · exact h.vouched.ensuring other run spec next hold

/-- A call goes on or fails. Where it was in `ensure_agent`, its spec has reached the
provider. -/
theorem Inv.proceeded {a : Automations.Action κ} {call : κ} {engine : Automations.World κ}
    (h : Inv w) (hs : w.engine.step crates a = some engine)
    (hfollows : ∃ phase, engine.calls = Function.update w.engine.calls call (some phase) ∧
      Follows w.engine call phase) :
    Inv { w with engine := engine, spawns := w.spawns ++ ensured (w.engine.calls call) } := by
  have effect := Automations.step_effect hs
  obtain ⟨phase, hcalls, hphase⟩ := hfollows
  have later : Later w
      { w with engine := engine, spawns := w.spawns ++ ensured (w.engine.calls call) } :=
    ⟨fun _ _ => rfl, (effect_history effect).1, List.subset_append_left _ _⟩
  refine h.reached later (h.vouched.engine later effect ?_ ?_) rfl rfl ?_
  · intro other next slot hopening
    rw [hcalls] at slot
    rcases Slots.update_some slot with ⟨rfl, rfl⟩ | ⟨-, hold⟩
    · obtain ⟨old, hold, hopening⟩ := hphase.opening hopening
      exact h.vouched.opening other old hold hopening
    · exact h.vouched.opening other next hold hopening
  · intro other run spec next slot
    rw [hcalls] at slot
    rcases Slots.update_some slot with ⟨rfl, heq⟩ | ⟨-, hold⟩
    · exact h.vouched.fires hphase heq.symm
    · exact h.vouched.ensuring other run spec next hold
  · intro spawn hmem hposture
    unfold ensured at hmem
    split at hmem
    · rename_i run spec next slot
      cases List.mem_singleton.mp hmem
      obtain ⟨stored, hcreated, hfires⟩ := h.vouched.ensuring call run spec next slot
      obtain ⟨task, hspec⟩ := hfires.2
      refine .fired _ _ stored hcreated ?_ hfires
      rw [Spawn.posture, Spawn.spec, hspec] at hposture
      exact hposture
    · cases hmem

/-- A request that a route's scope lets in comes with a principal of that scope. -/
def Scoped (principal : Option Principal) (call : Call κ) : Prop :=
  ∀ need, requiredAccess call.endpoint.1 call.endpoint.2 = .requires need →
    ∃ p, principal = some p ∧ ¬p.scope < need

omit [DecidableEq κ] in
theorem admitted_scoped {r : Request κ} {identity : Auth.Identity}
    (h : Auth.middleware crypto r.auth r.http = .ok identity) :
    Scoped (extension crypto r.auth r.http) r.call := by
  intro need haccess
  cases Auth.middleware_admitted h with
  | disabled subject header off => cases off
  | unguarded subject header access =>
    rw [show requiredAccess r.http.method r.http.route = .requires need from haccess] at access
    cases access
  | authenticated subject header other access principal resolved may =>
    rw [show requiredAccess r.http.method r.http.route = .requires need from haccess] at access
    cases access
    refine ⟨principal, ?_, may⟩
    unfold extension
    rw [show requiredAccess r.http.method r.http.route = .requires need from haccess]
    exact resolved

theorem scope_admin {scope : Auth.Scope} (h : ¬scope < .admin) : scope = .admin := by
  cases scope with
  | read | operate => exact absurd (by decide) h
  | admin => rfl

theorem Inv.engage {principal : Option Principal} {call : κ} {request : Automations.Request}
    (h : Inv w) (hs : w.engage crates principal call request = some w')
    (hopen : Opening request.start → ∃ p, principal = some p ∧ p.scope = .admin) : Inv w' := by
  obtain ⟨engine, hengine, rfl⟩ := Option.map_eq_some_iff.mp hs
  refine h.begin hengine (fun other hne => Function.update_of_ne hne _ _) ?_ rfl rfl
  intro hopening
  simp only [Function.update_self]
  exact hopen hopening

/-- The handler asks for the admin scope where the body asks for unattended. -/
theorem spawnAgent_admin {p : Principal} {workspace : String} {body : SpawnBody} {spec : TaskSpec}
    (h : spawnAgent (some p) workspace body = .ok spec)
    (hposture : spec.request.permissionPosture = .unattended) : p.scope = .admin := by
  unfold spawnAgent at h
  split at h
  · rename_i p' _ heq
    cases heq
    split at h
    · cases h
    · exact scope_admin ‹_›
  · rename_i hnot
    cases h
    exact (hnot p hposture rfl).elim

theorem Inv.handle {principal : Option Principal} {call : Call κ} (h : Inv w)
    (hs : w.handle crates principal call = some w') (hscoped : Scoped principal call) :
    Inv w' := by
  cases call with
  | spawnAgent workspace body =>
    simp only [World.handle] at hs
    split at hs <;> cases hs
    · exact h
    · rename_i spec hspec
      obtain ⟨p, hprincipal, -⟩ := hscoped .operate rfl
      subst hprincipal
      exact h.spawned fun hposture => .requested p spec (spawnAgent_admin hspec hposture)
  | respawnAgent id =>
    cases hs
    exact h.restartAgent id
  | createAutomation call body createdAt secret =>
    obtain ⟨p, hprincipal, hmay⟩ := hscoped .admin rfl
    exact h.engage hs fun _ => ⟨p, hprincipal, scope_admin hmay⟩
  | setEnabled | deleteAutomation | runNow | trigger => exact h.engage hs False.elim
  | mcp below tool =>
    cases tool with
    | spawnAgent args =>
      cases hs
      -- the tool has no posture to ask for
      exact h.spawned nofun
    | respawnAgent id =>
      cases hs
      exact h.restartAgent id
  | other method route =>
    cases hs
    exact h

theorem Inv.serve {r : Request κ} (h : Inv w) (hs : w.serve crypto crates r = some w') :
    Inv w' := by
  unfold World.serve at hs
  split at hs
  · cases hs
    exact h
  · exact h.handle hs (admitted_scoped ‹_›)

theorem Inv.step {a : Action κ} (h : Inv w) (hs : w.step crypto crates a = some w') : Inv w' := by
  cases a with
  | request r => exact h.serve hs
  | tick call now =>
    obtain ⟨engine, hengine, rfl⟩ := Option.map_eq_some_iff.mp hs
    exact h.begin hengine (fun _ _ => rfl) False.elim rfl rfl
  | next call =>
    obtain ⟨engine, hengine, rfl⟩ := Option.map_eq_some_iff.mp hs
    refine h.proceeded hengine ?_
    simp only [Automations.World.step] at hengine
    split at hengine
    · cases hengine
    · exact advance_follows ‹_› hengine
  | fail call message =>
    obtain ⟨engine, hengine, rfl⟩ := Option.map_eq_some_iff.mp hs
    refine h.proceeded hengine ?_
    simp only [Automations.World.step] at hengine
    split at hengine
    · cases hengine
    · exact fail_follows hengine
  | place id n =>
    obtain ⟨spawn, hspawn, rfl⟩ := Option.map_eq_some_iff.mp hs
    refine h.moved fun other agent hagent => ?_
    rcases Slots.update_some hagent with ⟨-, rfl⟩ | ⟨-, hold⟩
    · exact List.mem_of_getElem? hspawn
    · exact h.fleet other agent hold
  | drop id =>
    cases hs
    exact h.moved fun other agent hagent => h.fleet other agent (Slots.update_none hagent).2

omit [DecidableEq κ] in
theorem Inv.start : Inv (World.start : World κ) := by
  refine ⟨⟨?_, ?_, ?_, ?_, ?_⟩, ?_, ?_⟩ <;>
    simp [World.start, Automations.World.start, rowOf, NoEscalation]

end Step

end Prospero.Proofs.Unattended
