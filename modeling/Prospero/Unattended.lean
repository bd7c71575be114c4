import Prospero.Auth
import Prospero.AutomationEngine

namespace Prospero.Unattended
open Auth (ApiError AuthState Crypto Headers Method Principal Route Scope TokenSet middleware
  requiredAccess resolvePrincipal)
open Automations (CreateAutomationBody Phase PermissionPosture SpawnRequest TaskSpec)

structure SpawnBody where
  prompt : String
  label : Option String
  model : Option String
  isolation : Option String
  toolAllowlist : Option (List String)
  interactive : Bool
  frontmatterPath : Option String
  providerRef : Option String
  timeoutSecs : Option Nat
  permissionPosture : PermissionPosture

def SpawnBody.isolationWorktree (body : SpawnBody) : Bool := body.isolation ≠ some "shared"

def spawnRequest (body : SpawnBody) : SpawnRequest where
  prompt := body.prompt
  label := body.label
  model := body.model
  isolationWorktree := body.isolationWorktree
  toolAllowlist := body.toolAllowlist
  interactive := body.interactive
  frontmatterPath := body.frontmatterPath
  timeoutSecs := body.timeoutSecs
  providerRef := body.providerRef
  permissionPosture := body.permissionPosture

/-- `SpawnRequest::new` -/
def newSpawnRequest (prompt : String) : SpawnRequest where
  prompt := prompt
  label := none
  model := none
  isolationWorktree := true
  toolAllowlist := none
  interactive := false
  frontmatterPath := none
  timeoutSecs := none
  providerRef := none
  permissionPosture := .supervised

/-- The handler of a spawn over REST, up to `ensure_agent`. There is no principal
where authentication is disabled. -/
def spawnAgent (principal : Option Principal) (workspace : String) (body : SpawnBody) :
    Except ApiError TaskSpec :=
  match body.permissionPosture, principal with
  | .unattended, some p =>
    if p.scope < .admin then .error (.forbidden "unattended requires admin scope")
    else .ok ⟨workspace, spawnRequest body⟩
  | _, _ => .ok ⟨workspace, spawnRequest body⟩

structure SpawnArgs where
  workspace : String
  prompt : String
  label : Option String
  model : Option String
  interactive : Bool
  timeoutSecs : Option Nat

/-- The MCP tool's spawn, up to `ensure_agent`. -/
def prosperoSpawnAgent (args : SpawnArgs) : TaskSpec where
  workspace := args.workspace
  request := { newSpawnRequest args.prompt with
    label := args.label
    model := args.model
    interactive := args.interactive
    timeoutSecs := args.timeoutSecs }

/-- The MCP tools that have the provider run an agent. -/
inductive Tool
  | spawnAgent (args : SpawnArgs)
  | respawnAgent (agentId : String)

/-- What a request asks for. No other route and no other tool has the provider run
an agent, or writes an automation. -/
inductive Call (κ : Type)
  | spawnAgent (workspace : String) (body : SpawnBody)
  | respawnAgent (id : String)
  | createAutomation (call : κ) (body : CreateAutomationBody) (createdAt : DateTime)
      (secret : String)
  | setEnabled (call : κ) (id : String) (enabled : Bool)
  | deleteAutomation (call : κ) (id : String)
  | runNow (call : κ) (id : String) (now : DateTime)
  | trigger (call : κ) (id : String) (body : List UInt8) (signature : Option String)
      (now : DateTime)
  | mcp (below : Bool) (tool : Tool)
  | other (method : Method) (route : Route)

def Call.endpoint {κ : Type} : Call κ → Method × Route
  | .spawnAgent _ _ => (.post, .workspaceAgents)
  | .respawnAgent _ => (.post, .agentRespawn)
  | .createAutomation _ _ _ _ => (.post, .automations)
  | .setEnabled _ _ _ => (.put, .automationEnabled)
  | .deleteAutomation _ _ => (.delete, .automation)
  | .runNow _ _ _ => (.post, .automationRun)
  | .trigger _ _ _ _ _ => (.post, .automationTrigger)
  | .mcp below _ => (.post, if below then .mcpTail else .mcp)
  | .other method route => (method, route)

/-- A request, with the tokens file and the key of the server as they then are. -/
structure Request (κ : Type) where
  tokens : TokenSet
  sessionKey : List UInt8
  headers : Headers
  nowUnix : Int
  call : Call κ

/-- Authentication is enabled. -/
def Request.auth {κ : Type} (r : Request κ) : AuthState := ⟨some r.tokens, r.sessionKey⟩

def Request.http {κ : Type} (r : Request κ) : Auth.Request :=
  ⟨r.call.endpoint.1, r.call.endpoint.2, r.headers, r.nowUnix⟩

/-- The principal that the middleware leaves with a request it admits. -/
def extension (crypto : Crypto) (auth : AuthState) (r : Auth.Request) : Option Principal :=
  match requiredAccess r.method r.route with
  | .unguarded => none
  | .requires _ => resolvePrincipal crypto auth r.headers r.nowUnix

/-- A spawn that has reached the fleet provider, and where it comes from: a request,
a run of an automation, or the respawn of an agent that an earlier one led to. -/
inductive Spawn
  | requested (principal : Option Principal) (spec : TaskSpec)
  | fired (automationId : String) (spec : TaskSpec)
  | respawned (agent : Spawn)

/-- A respawn runs the agent's own spec again. -/
def Spawn.spec : Spawn → TaskSpec
  | .requested _ spec => spec
  | .fired _ spec => spec
  | .respawned agent => agent.spec

def Spawn.posture (spawn : Spawn) : PermissionPosture := spawn.spec.request.permissionPosture

/-- Any number of servers over one config store and one fleet provider. `fleet` has
the agents that the provider shows, each with the spawn its spec is from. `openers`
has who asked for a call on an engine. -/
structure World (κ : Type) where
  engine : Automations.World κ
  openers : κ → Option Principal
  fleet : String → Option Spawn
  spawns : List Spawn

/-- The last two are the provider's: an agent takes up a spec that has reached it,
which on Kubernetes may replace that of a CR there is, and an agent goes. -/
inductive Action (κ : Type)
  | request (r : Request κ)
  | tick (call : κ) (now : DateTime)
  | next (call : κ)
  | fail (call : κ) (message : String)
  | place (id : String) (spawn : Nat)
  | drop (id : String)

/-- What a call that goes on, or fails, has asked of the provider: it is in
`ensure_agent`. -/
def ensured : Option Phase → List Spawn
  | some (.ensuring run spec _) => [.fired run.automationId spec]
  | _ => []

namespace World

variable {κ : Type} [DecidableEq κ]

/-- An agent that the provider does not know is an error. -/
def restartAgent (w : World κ) (id : String) : World κ :=
  match w.fleet id with
  | none => w
  | some agent => { w with spawns := w.spawns ++ [.respawned agent] }

variable {σ : Type} (crypto : Crypto) (crates : Automations.Crates σ)

/-- A handler hands a request on to the engine. -/
def engage (w : World κ) (principal : Option Principal) (call : κ)
    (request : Automations.Request) : Option (World κ) :=
  (w.engine.step crates (.begin call request)).map fun engine =>
    { w with engine := engine, openers := Function.update w.openers call principal }

def handle (w : World κ) (principal : Option Principal) : Call κ → Option (World κ)
  | .spawnAgent workspace body =>
    match spawnAgent principal workspace body with
    | .error _ => some w
    | .ok spec => some { w with spawns := w.spawns ++ [.requested principal spec] }
  | .respawnAgent id => some (w.restartAgent id)
  | .createAutomation call body createdAt secret =>
    w.engage crates principal call (.create body createdAt secret)
  | .setEnabled call id enabled => w.engage crates principal call (.setEnabled id enabled)
  | .deleteAutomation call id => w.engage crates principal call (.delete id)
  | .runNow call id now => w.engage crates principal call (.fire id now)
  | .trigger call id body signature now =>
    w.engage crates principal call (.trigger id body signature now)
  | .mcp _ (.spawnAgent args) =>
    some { w with spawns := w.spawns ++ [.requested principal (prosperoSpawnAgent args)] }
  | .mcp _ (.respawnAgent id) => some (w.restartAgent id)
  | .other _ _ => some w

def serve (w : World κ) (r : Request κ) : Option (World κ) :=
  match middleware crypto r.auth r.http with
  | .error _ => some w
  | .ok _ => w.handle crates (extension crypto r.auth r.http) r.call

def step (w : World κ) : Action κ → Option (World κ)
  | .request r => w.serve crypto crates r
  | .tick call now =>
    (w.engine.step crates (.begin call (.tick now))).map fun engine => { w with engine := engine }
  | .next call =>
    (w.engine.step crates (.next call)).map fun engine =>
      { w with engine := engine, spawns := w.spawns ++ ensured (w.engine.calls call) }
  | .fail call message =>
    (w.engine.step crates (.fail call message)).map fun engine =>
      { w with engine := engine, spawns := w.spawns ++ ensured (w.engine.calls call) }
  | .place id n =>
    w.spawns[n]?.map fun spawn =>
      { w with fleet := Function.update w.fleet id (some spawn) }
  | .drop id => some { w with fleet := Function.update w.fleet id none }

/-- No automations and no agents. -/
def start : World κ := ⟨Automations.World.start, fun _ => none, fun _ => none, []⟩

end World

end Prospero.Unattended
