import Prospero.Auth
import Prospero.Lib.PathPattern
import Prospero.Lib.Percent

namespace Prospero.Routing
open Auth (Method Route)
open PathPattern (Piece)

section Server

/-- A path of the router, and the methods it has handlers for; a nested service has all. -/
structure Entry where
  route : Route
  pieces : List Piece
  methods : Option (List Method)
deriving DecidableEq

/-- `get` answers `HEAD` too. -/
def got (methods : List Method) : Option (List Method) := some (.get :: .head :: methods)

def agents (pieces : List Piece) : List Piece := .fixed "api" :: .fixed "agents" :: pieces

def workspaces (pieces : List Piece) : List Piece := .fixed "api" :: .fixed "workspaces" :: pieces

def automations (pieces : List Piece) : List Piece := .fixed "api" :: .fixed "automations" :: pieces

def router : List Entry := [
  ⟨.index, [.fixed ""], got []⟩,
  ⟨.assets, [.fixed "assets", .rest], got []⟩,
  ⟨.healthz, [.fixed "healthz"], got []⟩,
  ⟨.readyz, [.fixed "readyz"], got []⟩,
  ⟨.session, [.fixed "api", .fixed "session"], got [.post, .delete]⟩,
  ⟨.openapi, [.fixed "api", .fixed "openapi.json"], got []⟩,
  ⟨.metrics, [.fixed "api", .fixed "metrics"], got []⟩,
  ⟨.capabilities, [.fixed "api", .fixed "capabilities"], got []⟩,
  ⟨.fleet, [.fixed "api", .fixed "fleet"], got []⟩,
  ⟨.fleetStream, [.fixed "api", .fixed "fleet", .fixed "stream"], got []⟩,
  ⟨.mcp, [.fixed "mcp"], none⟩,
  ⟨.mcpTail, [.fixed "mcp", .fixed ""], none⟩,
  ⟨.mcpTail, [.fixed "mcp", .rest], none⟩,
  ⟨.usage, [.fixed "api", .fixed "usage"], got []⟩,
  ⟨.workspaces, workspaces [], got [.post]⟩,
  ⟨.workspace, workspaces [.param], some [.delete]⟩,
  ⟨.workspaceConfig, workspaces [.param, .fixed "config"], some [.put]⟩,
  ⟨.workspaceAgents, workspaces [.param, .fixed "agents"], got [.post]⟩,
  ⟨.agent, agents [.param], got [.delete]⟩,
  ⟨.agentEvents, agents [.param, .fixed "events"], got []⟩,
  ⟨.agentStream, agents [.param, .fixed "stream"], got []⟩,
  ⟨.agentKill, agents [.param, .fixed "kill"], some [.post]⟩,
  ⟨.agentRespawn, agents [.param, .fixed "respawn"], some [.post]⟩,
  ⟨.agentInput, agents [.param, .fixed "input"], some [.post]⟩,
  ⟨.agentEndInput, agents [.param, .fixed "end-input"], some [.post]⟩,
  ⟨.automations, automations [], got [.post]⟩,
  ⟨.automation, automations [.param], some [.delete]⟩,
  ⟨.automationEnabled, automations [.param, .fixed "enabled"], some [.put]⟩,
  ⟨.automationRuns, automations [.param, .fixed "runs"], got []⟩,
  ⟨.automationRun, automations [.param, .fixed "run"], some [.post]⟩,
  ⟨.automationTrigger, automations [.param, .fixed "trigger"], some [.post]⟩]

end Server

section Client

/-- What RFC 3986 leaves unreserved. -/
def unreserved (b : UInt8) : Bool :=
  (65 ≤ b && b ≤ 90) || (97 ≤ b && b ≤ 122) || (48 ≤ b && b ≤ 57) || b = 45 || b = 95 || b = 46 ||
    b = 126

def encodeSegment (segment : String) : String :=
  String.ofList (Percent.encode unreserved (Lines.encode segment))

/-- A request that the dashboard sends, without its body. -/
structure Call where
  method : Method
  path : String

def killAgent (id : String) : Call := ⟨.post, "/api/agents/" ++ encodeSegment id ++ "/kill"⟩

def removeAgent (id : String) : Call := ⟨.delete, "/api/agents/" ++ encodeSegment id⟩

def respawnAgent (id : String) : Call := ⟨.post, "/api/agents/" ++ encodeSegment id ++ "/respawn"⟩

def sendInput (id : String) : Call := ⟨.post, "/api/agents/" ++ encodeSegment id ++ "/input"⟩

def endInput (id : String) : Call := ⟨.post, "/api/agents/" ++ encodeSegment id ++ "/end-input"⟩

def spawnAgent (workspace : String) : Call :=
  ⟨.post, "/api/workspaces/" ++ encodeSegment workspace ++ "/agents"⟩

def setWorkspaceConfig (name : String) : Call :=
  ⟨.put, "/api/workspaces/" ++ encodeSegment name ++ "/config"⟩

def removeWorkspace (name : String) : Call :=
  ⟨.delete, "/api/workspaces/" ++ encodeSegment name⟩

end Client

section Wire

/-- A URL's segments that stand for the one they are in. -/
def singleDots : List (List Char) := [".".toList, "%2e".toList, "%2E".toList]

/-- And those that stand for the one above. -/
def doubleDots : List (List Char) := singleDots.flatMap fun a => singleDots.map (a ++ ·)

/-- The path that is left of a URL's segments. One that goes away at the end leaves an empty one. -/
def removeDots (kept : List (List Char)) : List (List Char) → List (List Char)
  | [] => kept
  | [s] =>
    if s ∈ doubleDots then kept.dropLast ++ [[]]
    else if s ∈ singleDots then kept ++ [[]]
    else kept ++ [s]
  | s :: ss =>
    if s ∈ doubleDots then removeDots kept.dropLast ss
    else if s ∈ singleDots then removeDots kept ss
    else removeDots (kept ++ [s]) ss

def slashed (ss : List (List Char)) : String := String.ofList ('/' :: ['/'].intercalate ss)

/-- What of a path no browser escapes. -/
def asIs (c : Char) : Bool := c.isAlphanum || c ∈ ['-', '_', '.', '~', '%']

/-- What the browser makes of a path, and what the crate `axum` finds for one. -/
structure Crates where
  fetch : String → String
  matched : List Entry → String → Option (Entry × List String)

def captured (e : Entry) (path : String) : Option (List (List Char)) :=
  PathPattern.capture e.pieces (PathPattern.segments path.toList)

def texts (raw : List (List Char)) : Option (List String) :=
  raw.mapM fun s => Lines.decode (Percent.decode s)

/-- The URL standard's dots, and the router's documentation for a path that one pattern matches. -/
structure Crates.Documented (c : Crates) : Prop where
  fetch : ∀ s ss, s ≠ [] → (∀ s' ∈ s :: ss, ∀ x ∈ s', asIs x = true) →
    c.fetch (slashed (s :: ss)) = slashed (removeDots [] (s :: ss))
  found : ∀ table path e raw params, e ∈ table → captured e path = some raw →
    texts raw = some params → (∀ e' ∈ table, (captured e' path).isSome → e' = e) →
    c.matched table path = some (e, params)
  sound : ∀ table path e params, c.matched table path = some (e, params) →
    e ∈ table ∧ ∃ raw, captured e path = some raw ∧ texts raw = some params

/-- The handler that a call gets to, and the arguments it is given. -/
def served (c : Crates) (call : Call) : Option (Route × List String) := do
  let (e, params) ← c.matched router (c.fetch call.path)
  if e.methods.all (call.method ∈ ·) then some (e.route, params) else none

end Wire

end Prospero.Routing
