import Mathlib.Data.List.AList
import Mathlib.Data.List.Sort
import Prospero.Automation

namespace Prospero.Automations

def runHistoryLimit : Nat := 200

/-- A row of `automations`. The column `spec` holds an automation without its
`last_fired_at`. -/
structure Row where
  spec : Automation
  webhookSecret : Option String
  lastFiredAt : Option String

def encodeSpec (stored : StoredAutomation) : Automation :=
  { stored.automation with lastFiredAt := none }

def decodeAutomation (row : Row) : StoredAutomation :=
  ⟨{ row.spec with lastFiredAt := row.lastFiredAt }, row.webhookSecret⟩

/-- `last_fired_at IS NULL OR last_fired_at < ?`. -/
def Row.isBefore (row : Row) (fireAt : String) : Bool :=
  match row.lastFiredAt with
  | none => true
  | some last => last < fireAt

/-- The table `automations`, by id. -/
abbrev Rows := AList fun id : String => { row : Row // row.spec.id = id }

namespace Rows

def listAutomations (rows : Rows) : List StoredAutomation :=
  (rows.entries.insertionSort fun x y => x.1 ≤ y.1).map fun entry => decodeAutomation entry.2.1

/-- A conflict leaves `last_fired_at` alone. -/
def upsertAutomation (rows : Rows) (stored : StoredAutomation) : Rows :=
  rows.insert stored.automation.id
    ⟨⟨encodeSpec stored, stored.webhookSecret,
      (rows.lookup stored.automation.id).bind fun row => row.1.lastFiredAt⟩, rfl⟩

/-- The one row whose `last_fired_at` the claim moved, if it did. -/
def claimAutomationFire (rows : Rows) (id fireAt : String) : Option Rows :=
  match rows.lookup id with
  | none => none
  | some ⟨row, hid⟩ =>
    if row.isBefore fireAt then
      some (rows.insert id ⟨{ row with lastFiredAt := some fireAt }, hid⟩)
    else none

end Rows

/-- The newest runs of an automation stay, and those of all others. -/
def trimRuns (runs : List AutomationRun) (id : String) : List AutomationRun :=
  let mine := (runs.filter fun run => run.automationId = id).insertionSort
    fun x y => y.firedAt ≤ x.firedAt
  (runs.filter fun run => run.automationId ≠ id) ++ mine.take runHistoryLimit

structure CalibanTaskSpec where
  workspaceRef : String
  providerRef : Option String
  prompt : String
  interactive : Option Bool
  permissionPosture : Option PermissionPosture
  tools : Option (List String)
deriving DecidableEq

def buildCalibanTask (spec : TaskSpec) : CalibanTaskSpec where
  workspaceRef := spec.workspace
  providerRef := spec.request.providerRef
  prompt := spec.request.prompt
  interactive := if spec.request.interactive then some true else none
  permissionPosture :=
    if spec.request.permissionPosture = .supervised then none
    else some spec.request.permissionPosture
  tools := spec.request.toolAllowlist

/-- A CR of the API server. `uid` tells its incarnations apart. -/
structure CalibanTask where
  uid : Nat
  spec : CalibanTaskSpec

/-- A history variable: the incarnation that a run's `apply` left under its name,
and whether the `apply` created it. -/
structure Execution where
  uid : Nat
  started : Bool

/-- The API server. `uids` counts the incarnations so far. -/
structure Cluster where
  tasks : AList fun _ : String => CalibanTask
  uids : Nat

/-- Server-side apply: creates the CR, or updates the one there is. -/
def Cluster.apply (cluster : Cluster) (name : String) (spec : CalibanTaskSpec) :
    Cluster × Execution :=
  match cluster.tasks.lookup name with
  | some task =>
    ({ cluster with tasks := cluster.tasks.insert name { task with spec := spec } },
      ⟨task.uid, false⟩)
  | none =>
    (⟨cluster.tasks.insert name ⟨cluster.uids, spec⟩, cluster.uids + 1⟩, ⟨cluster.uids, true⟩)

/-- What a tick pass has left to do. -/
structure Pass where
  now : DateTime
  rest : List StoredAutomation

structure CreateAutomationBody where
  id : String
  workspace : String
  trigger : Trigger
  template : SpawnTemplate
  enabled : Bool

/-- A call on an engine. A `fire` is someone's "run now". -/
inductive Request
  | create (body : CreateAutomationBody) (createdAt : DateTime) (secret : String)
  | setEnabled (id : String) (enabled : Bool)
  | delete (id : String)
  | tick (now : DateTime)
  | fire (id : String) (now : DateTime)
  | trigger (id : String) (body : List UInt8) (signature : Option String) (now : DateTime)

/-- What a call is about to do. `next` is the pass that a scheduled run is part of. -/
inductive Phase
  | creating (body : CreateAutomationBody) (createdAt : DateTime) (secret : String)
  | inserting (stored : StoredAutomation)
  | reading (id : String) (enabled : Bool)
  | updating (stored : StoredAutomation)
  | clearing (id : String)
  | deleting (id : String)
  | listing (now : DateTime)
  | ticking (pass : Pass)
  | firing (id : String) (now : DateTime)
  | triggering (id : String) (body : List UInt8) (signature : Option String) (now : DateTime)
  | ensuring (run : AutomationRun) (spec : TaskSpec) (next : Option Pass)
  | applying (run : AutomationRun) (spec : TaskSpec) (existed : Bool) (next : Option Pass)
  | recording (run : AutomationRun) (execution : Option Execution) (next : Option Pass)
  | trimming (run : AutomationRun) (next : Option Pass)
  | done

inductive Reply
  | created (stored : StoredAutomation)
  | updated (stored : StoredAutomation)
  | deleted (id : String) (existed : Bool)
  | ticked
  | ran (run : AutomationRun)

/-- What has come of the calls so far. -/
inductive Happening (κ : Type)
  | replied (call : κ) (reply : Except CoreError Reply)
  | claimed (call : κ) (id fireAt : String)
  | ensured (call : κ) (run : AutomationRun) (execution : Execution)
  | recorded (call : κ) (run : AutomationRun) (execution : Option Execution)

/-- The engines of all replicas over one config store and one API server. -/
structure World (κ : Type) where
  rows : Rows
  runs : List AutomationRun
  cluster : Cluster
  calls : κ → Option Phase
  history : List (Happening κ)

/-- `next` does what the call is about to do; `fail` has its statement or request
fail with a message. The last two are the surroundings: a CR goes, and another
client of the fleet applies one. -/
inductive Action (κ : Type)
  | begin (call : κ) (request : Request)
  | next (call : κ)
  | fail (call : κ) (message : String)
  | remove (name : String)
  | apply (name : String) (spec : CalibanTaskSpec)

def Request.start : Request → Phase
  | .create body createdAt secret => .creating body createdAt secret
  | .setEnabled id enabled => .reading id enabled
  | .delete id => .clearing id
  | .tick now => .listing now
  | .fire id now => .firing id now
  | .trigger id body signature now => .triggering id body signature now

def newAutomation (body : CreateAutomationBody) (createdAt : DateTime) (secret : String) :
    StoredAutomation where
  automation := ⟨body.id, body.workspace, body.trigger, body.template, body.enabled,
    stamp createdAt, none⟩
  webhookSecret :=
    match body.trigger with
    | .webhook => some secret
    | .cron _ => none

section Calls

variable {σ : Type} (crates : Crates σ)

def checkTrigger : Trigger → Except CoreError Unit
  | .webhook => .ok ()
  | .cron schedule =>
    match parseSchedule crates schedule with
    | .error e => .error (.invalidConfig e)
    | .ok _ => .ok ()

/-- `create_automation_at`, up to its upsert. -/
def createAutomationAt (rows : Rows) (body : CreateAutomationBody) (createdAt : DateTime)
    (secret : String) : Except CoreError StoredAutomation :=
  match checkTrigger crates body.trigger with
  | .error e => .error e
  | .ok () =>
    if rows.listAutomations.any fun s => s.automation.id = body.id then
      .error (.conflict s!"automation '{body.id}' already exists")
    else .ok (newAutomation body createdAt secret)

def automation (rows : Rows) (id : String) : Except CoreError StoredAutomation :=
  match rows.listAutomations.find? fun s => s.automation.id = id with
  | none => .error (.automationNotFound id)
  | some stored => .ok stored

/-- `run_automation`, up to `ensure_agent`. -/
def runAutomation (stored : StoredAutomation) (firedAt : String) (source : RunSource)
    (payload : Option Value) (next : Option Pass) : Phase :=
  let a := stored.automation
  let run : AutomationRun := ⟨a.id, firedAt, source, none, none⟩
  let task := match payload with
    | some payload => interpolate crates a.template.task payload
    | none => .ok a.template.task
  match task with
  | .error e => .recording { run with error := some e } none next
  | .ok task => .ensuring run ⟨a.workspace, spawnRequestFrom a.template task⟩ next

/-- `fire_automation`, up to its run. -/
def fireAutomation (rows : Rows) (id : String) (source : RunSource) (payload : Option Value)
    (now : DateTime) : Except CoreError Phase :=
  match automation rows id with
  | .error e => .error e
  | .ok stored => .ok (runAutomation crates stored (stamp now) source payload none)

/-- `trigger_webhook`, up to its run. -/
def triggerWebhook (rows : Rows) (id : String) (body : List UInt8) (signature : Option String)
    (now : DateTime) : Except CoreError Phase :=
  match automation rows id with
  | .error e => .error e
  | .ok stored =>
    match stored.webhookSecret with
    | none => .error (.unauthorized s!"automation '{id}' has no webhook trigger")
    | some secret =>
      if ¬verifyWebhookSignature crates secret body signature then
        .error (.unauthorized s!"bad or missing signature for automation '{id}'")
      else if ¬stored.automation.enabled then
        .error (.conflict s!"automation '{id}' is disabled")
      else
        match crates.jsonFromSlice body with
        | .error e => .error (.json e)
        | .ok payload =>
          .ok (runAutomation crates stored (stamp now) .webhook (some payload) none)

end Calls

namespace World

variable {κ : Type} [DecidableEq κ]

def setCall (w : World κ) (call : κ) (phase : Phase) : World κ :=
  { w with calls := Function.update w.calls call (some phase) }

def reply (w : World κ) (call : κ) (r : Except CoreError Reply) : World κ :=
  { w.setCall call .done with history := w.history ++ [.replied call r] }

/-- Goes on with what a read has come to, or replies with its error. -/
def proceed {α : Type} (w : World κ) (call : κ) (r : Except CoreError α) (phase : α → Phase) :
    World κ :=
  match r with
  | .error e => w.reply call (.error e)
  | .ok x => w.setCall call (phase x)

/-- A run is over: its pass goes on, or its caller gets it. -/
def finish (w : World κ) (call : κ) (run : AutomationRun) : Option Pass → World κ
  | some pass => w.setCall call (.ticking pass)
  | none => w.reply call (.ok (.ran run))

/-- One round of the loop in `tick_automations`. -/
def tick {σ : Type} (crates : Crates σ) (w : World κ) (call : κ) (pass : Pass) : World κ :=
  match pass.rest with
  | [] => w.reply call (.ok .ticked)
  | stored :: rest =>
    match dueTick crates stored pass.now with
    | none => w.setCall call (.ticking ⟨pass.now, rest⟩)
    | some fireAt =>
      match w.rows.claimAutomationFire stored.automation.id fireAt with
      | none => w.setCall call (.ticking ⟨pass.now, rest⟩)
      | some rows =>
        { w.setCall call (runAutomation crates stored fireAt .schedule none
            (some ⟨pass.now, rest⟩)) with
          rows := rows
          history := w.history ++ [.claimed call stored.automation.id fireAt] }

/-- The call does what it is about to do. -/
def advance {σ : Type} (crates : Crates σ) (w : World κ) (call : κ) : Phase → Option (World κ)
  | .creating body createdAt secret =>
    some (w.proceed call (createAutomationAt crates w.rows body createdAt secret) .inserting)
  | .inserting stored =>
    some ({ w with rows := w.rows.upsertAutomation stored }.reply call (.ok (.created stored)))
  | .reading id enabled =>
    some (w.proceed call (automation w.rows id) fun stored =>
      .updating { stored with automation := { stored.automation with enabled := enabled } })
  | .updating stored =>
    some ({ w with rows := w.rows.upsertAutomation stored }.reply call (.ok (.updated stored)))
  | .clearing id =>
    some ({ w with runs := w.runs.filter fun run => run.automationId ≠ id }.setCall call
      (.deleting id))
  | .deleting id =>
    some ({ w with rows := w.rows.erase id }.reply call
      (.ok (.deleted id (w.rows.lookup id).isSome)))
  | .listing now => some (w.setCall call (.ticking ⟨now, w.rows.listAutomations⟩))
  | .ticking pass => some (w.tick crates call pass)
  | .firing id now =>
    some (w.proceed call (fireAutomation crates w.rows id .manual none now) fun phase => phase)
  | .triggering id body signature now =>
    some (w.proceed call (triggerWebhook crates w.rows id body signature now) fun phase => phase)
  | .ensuring run spec next =>
    let existed := (w.cluster.tasks.lookup (taskName crates spec)).isSome
    some (w.setCall call (.applying run spec existed next))
  | .applying run spec _ next =>
    -- the handle's `created`, from what the read before saw, is not looked at
    let name := taskName crates spec
    let (cluster, execution) := w.cluster.apply name (buildCalibanTask spec)
    some { w.setCall call (.recording { run with agentId := some name } (some execution) next) with
      cluster := cluster
      history := w.history ++ [.ensured call run execution] }
  | .recording run execution next =>
    some { w.setCall call (.trimming run next) with
      runs := w.runs ++ [run]
      history := w.history ++ [.recorded call run execution] }
  | .trimming run next =>
    some ({ w with runs := trimRuns w.runs run.automationId }.finish call run next)
  | .done => none

/-- What the call was about to do has failed, and changed nothing. -/
def fail (w : World κ) (call : κ) (message : String) : Phase → Option (World κ)
  | .listing _ => some (w.reply call (.ok .ticked))
  | .ticking ⟨now, _ :: rest⟩ => some (w.setCall call (.ticking ⟨now, rest⟩))
  | .ticking ⟨_, []⟩ => none
  | .ensuring run _ next =>
    some (w.setCall call (.recording { run with error := some message } none next))
  | .applying run _ _ next =>
    some (w.setCall call (.recording { run with error := some message } none next))
  | .recording run _ next => some (w.finish call run next)
  | .trimming run next => some (w.finish call run next)
  | .done => none
  | _ => some (w.reply call (.error (.store message)))

def step {σ : Type} (crates : Crates σ) (w : World κ) : Action κ → Option (World κ)
  | .begin call request =>
    match w.calls call with
    | none => some (w.setCall call request.start)
    | some _ => none
  | .next call =>
    match w.calls call with
    | none => none
    | some phase => w.advance crates call phase
  | .fail call message =>
    match w.calls call with
    | none => none
    | some phase => w.fail call message phase
  | .remove name => some { w with
      cluster := { w.cluster with tasks := w.cluster.tasks.erase name } }
  | .apply name spec => some { w with cluster := (w.cluster.apply name spec).1 }

/-- An empty store and no CRs. -/
def start : World κ := ⟨∅, [], ⟨∅, 0⟩, fun _ => none, []⟩

end World

end Prospero.Automations
