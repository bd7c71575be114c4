import Prospero.Automation
import Prospero.Lib.Decimal

namespace Prospero.Auth
open Automations (cut stripPrefix trim utf8)

/-- What a token may do; each scope includes those above it here. -/
inductive Scope
  | read
  | operate
  | admin
deriving DecidableEq

def Scope.rank : Scope → Nat
  | .read => 0
  | .operate => 1
  | .admin => 2

instance : LT Scope := ⟨fun a b => a.rank < b.rank⟩

instance (a b : Scope) : Decidable (a < b) := inferInstanceAs (Decidable (a.rank < b.rank))

def Scope.asStr : Scope → String
  | .read => "read"
  | .operate => "operate"
  | .admin => "admin"

structure TokenEntry where
  name : String
  scope : Scope
  hash : List UInt8

abbrev TokenSet := List TokenEntry

/-- SHA-256, HMAC-SHA-256 under a key, and base64url without padding. -/
structure Crypto where
  sha256 : List UInt8 → List UInt8
  hmacSha256 : List UInt8 → List UInt8 → List UInt8
  base64Url : List UInt8 → String

structure AuthState where
  tokens : Option TokenSet
  sessionKey : List UInt8

def AuthState.isEnabled (auth : AuthState) : Bool := auth.tokens.isSome

/-- What `to_str` makes of a header: text, if it is visible ASCII. -/
abbrev HeaderValue := Option String

structure Headers where
  onBehalfOf : Option HeaderValue
  authorization : Option HeaderValue
  cookies : List HeaderValue
  secFetchSite : Option HeaderValue
  origin : Option HeaderValue
  host : Option HeaderValue

inductive Method
  | get
  | head
  | post
  | put
  | delete
  | other (name : String)
deriving DecidableEq

/-- The matched route. The scope table does not list what lies below `/mcp`. -/
inductive Route
  | healthz
  | readyz
  | index
  | assets
  | session
  | openapi
  | automationTrigger
  | metrics
  | capabilities
  | fleet
  | fleetStream
  | usage
  | workspaces
  | workspaceAgents
  | agent
  | agentEvents
  | agentStream
  | automations
  | automationRuns
  | agentKill
  | agentRespawn
  | agentInput
  | agentEndInput
  | automationRun
  | mcp
  | automation
  | automationEnabled
  | workspace
  | workspaceConfig
  | mcpTail
deriving DecidableEq

inductive Access
  | unguarded
  | requires (scope : Scope)
deriving DecidableEq

/-- The scope table, in its order. -/
def requiredAccess (method : Method) (route : Route) : Access :=
  if route ∈ [.healthz, .readyz, .index, .assets, .session, .openapi] then .unguarded
  else if method = .post ∧ route = .automationTrigger then .unguarded
  else if method ∈ [.get, .head] ∧ route ∈ [.metrics, .capabilities, .fleet, .fleetStream, .usage,
      .workspaces, .workspaceAgents, .agent, .agentEvents, .agentStream, .automations,
      .automationRuns] then .requires .read
  else if method = .post ∧ route ∈ [.workspaceAgents, .agentKill, .agentRespawn, .agentInput,
      .agentEndInput, .automationRun] then .requires .operate
  else if method = .delete ∧ route = .agent then .requires .operate
  else if route = .mcp then .requires .operate
  -- the automations and workspaces that the table lists next, and all it does not list
  else .requires .admin

inductive ApiError
  | badRequest (why : String)
  | unauthorized
  | forbidden (why : String)
deriving DecidableEq

section Subject

def maxSubject : Nat := 128

def isControl (c : Char) : Bool :=
  c.toNat < 0x20 || (0x7f ≤ c.toNat && c.toNat ≤ 0x9f)

/-- A control character as `{:?}` shows it. -/
def debugControl (c : Char) : String :=
  if c.toNat = 0 then "'\\0'"
  else if c = '\t' then "'\\t'"
  else if c = '\r' then "'\\r'"
  else if c = '\n' then "'\\n'"
  else "'\\u\x7b" ++ String.ofList (Nat.toDigits 16 c.toNat) ++ "\x7d'"

def validateSubject (subject : String) : Except String String :=
  let trimmed := trim subject.toList
  if trimmed = [] then .error "on-behalf-of must not be blank"
  else if trimmed.length > maxSubject then
    .error s!"on-behalf-of must be at most {maxSubject} characters"
  else match trimmed.find? isControl with
    | some bad =>
      .error s!"on-behalf-of must not contain control characters (found {debugControl bad})"
    | none => .ok (String.ofList trimmed)

/-- The person that a request says it acts for. -/
def subjectHeader (headers : Headers) : Except String (Option String) :=
  match headers.onBehalfOf with
  | none => .ok none
  | some none => .error "on-behalf-of must be valid UTF-8 text"
  | some (some text) => (validateSubject text).map some

end Subject

section Credentials

variable (crypto : Crypto)

def authenticate (tokens : TokenSet) (token : String) : Option TokenEntry :=
  tokens.find? fun e => e.hash = crypto.sha256 (utf8 token)

def byName (tokens : TokenSet) (name : String) : Option TokenEntry :=
  tokens.find? fun e => e.name = name

/-- The first half of the token's hash is signed along with its name. -/
def mac (key : List UInt8) (name : String) (expiresUnix : Int) (hash : List UInt8) : String :=
  crypto.base64Url
    (crypto.hmacSha256 key (utf8 s!"v1\n{name}\n{expiresUnix}\n" ++ hash.take 16))

/-- `str::parse::<i64>` -/
def parseInt64 (text : List Char) : Option Int :=
  match text with
  | '-' :: '+' :: _ => none
  | '-' :: digits => (Decimal.parse (2 ^ 63 + 1) (String.ofList digits)).map fun n => -(n : Int)
  | _ => (Decimal.parse (2 ^ 63) (String.ofList text)).map Int.ofNat

/-- A session cookie, `v1.<name>.<expires>.<mac>`, against the current tokens. -/
def verify (key : List UInt8) (tokens : TokenSet) (value : String) (nowUnix : Int) :
    Option (TokenEntry × Int) :=
  match value.toList.splitOn '.' with
  | version :: name :: expires :: given :: rest => do
    if version ≠ "v1".toList then none
    let expires ← parseInt64 expires
    if expires ≤ nowUnix then none
    let entry ← byName tokens (String.ofList name)
    let expected := mac crypto key (String.ofList name) expires entry.hash
    if expected = String.ofList (['.'].intercalate (given :: rest)) then some (entry, expires)
    else none
  | _ => none

def cookieValue (headers : Headers) : Option String :=
  ((headers.cookies.filterMap id).flatMap fun v => v.toList.splitOn ';').findSome? fun pair =>
    (stripPrefix "prospero_session=".toList (trim pair)).map String.ofList

def bearerToken (headers : Headers) : Option String := do
  let text ← headers.authorization.join
  let token ← stripPrefix "Bearer ".toList text.toList
  return String.ofList (trim token)

def sameOrigin (headers : Headers) : Bool :=
  match headers.secFetchSite.join with
  | some site => site = "same-origin"
  | none =>
    match headers.origin.join, headers.host.join with
    | some origin, some host => (cut "://".toList origin.toList).map Prod.snd = some host.toList
    | _, _ => false

inductive Via
  | bearer
  | cookie
deriving DecidableEq

structure Principal where
  tokenName : String
  scope : Scope
  via : Via
  expiresUnix : Option Int

/-- An invalid bearer token never falls back to the cookie. -/
def resolvePrincipal (auth : AuthState) (headers : Headers) (nowUnix : Int) : Option Principal :=
  auth.tokens.bind fun tokens =>
    match bearerToken headers with
    | some token =>
      (authenticate crypto tokens token).map fun e => ⟨e.name, e.scope, .bearer, none⟩
    | none => do
      let value ← cookieValue headers
      let (e, expires) ← verify crypto auth.sessionKey tokens value nowUnix
      return ⟨e.name, e.scope, .cookie, some expires⟩

end Credentials

/-- The task-locals `ACTOR` and `SUBJECT`. -/
structure Identity where
  actor : Option String
  subject : Option String
deriving DecidableEq

/-- A task that is spawned inherits neither. -/
def Identity.unscoped : Identity := ⟨none, none⟩

structure Request where
  method : Method
  route : Route
  headers : Headers
  nowUnix : Int

/-- The identity that the handler runs under, or the reply if it never runs. -/
def middleware (crypto : Crypto) (auth : AuthState) (r : Request) : Except ApiError Identity :=
  match subjectHeader r.headers with
  | .error why => .error (.badRequest why)
  | .ok subject =>
    if !auth.isEnabled then .ok ⟨none, subject⟩
    else match requiredAccess r.method r.route with
      | .unguarded => .ok ⟨none, subject⟩
      | .requires need =>
        match resolvePrincipal crypto auth r.headers r.nowUnix with
        | none => .error .unauthorized
        | some principal =>
          if principal.scope < need then
            .error (.forbidden s!"requires scope {need.asStr}")
          else if principal.via = .cookie ∧ r.method ∉ [.get, .head] ∧ ¬sameOrigin r.headers then
            .error (.forbidden "cross-origin request")
          else .ok ⟨some principal.tokenName, subject⟩

end Prospero.Auth
