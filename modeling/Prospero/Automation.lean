import Mathlib.Data.List.DropRight
import Prospero.Event
import Prospero.Timestamp

namespace Prospero.Automations

inductive Trigger
  | cron (schedule : String)
  | webhook
deriving DecidableEq

inductive PermissionPosture
  | supervised
  | unattended
deriving DecidableEq

structure SpawnTemplate where
  task : String
  label : Option String
  model : Option String
  toolAllowlist : Option (List String)
  frontmatterPath : Option String
  providerRef : Option String
  timeoutSecs : Option Nat
  isolationWorktree : Bool
  permissionPosture : PermissionPosture
deriving DecidableEq

structure Automation where
  id : String
  workspace : String
  trigger : Trigger
  template : SpawnTemplate
  enabled : Bool
  createdAt : String
  lastFiredAt : Option String
deriving DecidableEq

structure StoredAutomation where
  automation : Automation
  webhookSecret : Option String
deriving DecidableEq

inductive RunSource
  | schedule
  | webhook
  | manual
deriving DecidableEq

structure AutomationRun where
  automationId : String
  firedAt : String
  source : RunSource
  agentId : Option String
  error : Option String
deriving DecidableEq

structure SpawnRequest where
  prompt : String
  label : Option String
  model : Option String
  isolationWorktree : Bool
  toolAllowlist : Option (List String)
  interactive : Bool
  frontmatterPath : Option String
  timeoutSecs : Option Nat
  providerRef : Option String
  permissionPosture : PermissionPosture
deriving DecidableEq

structure TaskSpec where
  workspace : String
  request : SpawnRequest
deriving DecidableEq

inductive CoreError
  | invalidConfig (message : String)
  | automationNotFound (id : String)
  | unauthorized (message : String)
  | conflict (message : String)
  | store (message : String)
  | json (message : String)
deriving DecidableEq

/-- What the engine has from other crates: cron schedules with the tick before an
instant, the reading of RFC 3339, JSON text, hex and the two hashes. -/
structure Crates (σ : Type) where
  scheduleFromStr : String → Except String σ
  before : σ → DateTime → Option DateTime
  includes : σ → DateTime → Bool
  parseFromRfc3339 : String → Option DateTime
  jsonFromSlice : List UInt8 → Except String Value
  jsonToString : Value → String
  hexDecode : String → Option (List UInt8)
  hexEncode : List UInt8 → String
  hmacVerify : String → List UInt8 → List UInt8 → Bool
  sha256 : List UInt8 → List UInt8

section Text

/-- Unicode's White_Space. -/
def isWhitespace (c : Char) : Bool :=
  let n := c.toNat
  (9 ≤ n && n ≤ 13) || n = 0x20 || n = 0x85 || n = 0xa0 || n = 0x1680 ||
    (0x2000 ≤ n && n ≤ 0x200a) || n = 0x2028 || n = 0x2029 || n = 0x202f || n = 0x205f || n = 0x3000

def trim (cs : List Char) : List Char := (cs.dropWhile isWhitespace).rdropWhile isWhitespace

def splitWhitespace (cs : List Char) : List (List Char) :=
  (cs.splitOnP isWhitespace).filter (· ≠ [])

/-- What stands before the first occurrence of a pattern, and what after it. -/
def cut (pat : List Char) : List Char → Option (List Char × List Char)
  | [] => if pat = [] then some ([], []) else none
  | c :: cs =>
    if pat <+: c :: cs then some ([], (c :: cs).drop pat.length)
    else (cut pat cs).map fun (before, after) => (c :: before, after)

theorem cut_length {pat cs before after : List Char} (h : cut pat cs = some (before, after)) :
    pat.length + before.length + after.length = cs.length := by
  induction cs generalizing before with
  | nil =>
    unfold cut at h
    split at h <;> cases h
    simp_all
  | cons c cs ih =>
    unfold cut at h
    split at h
    · rename_i hpre
      cases h
      have hle := hpre.length_le
      simp only [List.length_drop, List.length_nil, List.length_cons] at hle ⊢
      omega
    · obtain ⟨⟨before', after'⟩, hcut, heq⟩ := Option.map_eq_some_iff.mp h
      cases heq
      have hrest := ih hcut
      simp only [List.length_cons]
      omega

end Text

section Rules

variable {σ : Type} (crates : Crates σ)

/-- A 5-field schedule is pinned to the top of its minute. -/
def normalizeSchedule (schedule : String) : String :=
  let trimmed := trim schedule.toList
  if (splitWhitespace trimmed).length = 5 then "0 " ++ String.ofList trimmed
  else String.ofList trimmed

def parseSchedule (schedule : String) : Except String σ :=
  match crates.scheduleFromStr (normalizeSchedule schedule) with
  | .ok parsed => .ok parsed
  | .error e => .error s!"invalid cron schedule '{schedule}': {e}"

/-- The scheduled tick that is owed since the anchor. Missed ticks coalesce. -/
def dueFire (schedule : String) (since now : DateTime) : Option DateTime :=
  match parseSchedule crates schedule with
  | .error _ => none
  | .ok parsed => (crates.before parsed now).filter (since < ·)

def maxSubstitution : Nat := 4096

/-- The longest prefix of at most so many bytes. -/
def takeBytes : Nat → List Char → List Char
  | _, [] => []
  | n, c :: cs => if c.utf8Size ≤ n then c :: takeBytes (n - c.utf8Size) cs else []

def truncate (value : String) : String :=
  if value.utf8ByteSize ≤ maxSubstitution then value
  else String.ofList (takeBytes maxSubstitution value.toList) ++ " […truncated]"

/-- Follows one segment of a path: object keys only. -/
def getField (key : String) : Value → Option Value
  | .object fields => fields.lookup key
  | _ => none

def lookup (payload : Value) (path : String) : Except String String :=
  match (path.toList.splitOn '.').foldlM (fun cursor segment =>
      getField (String.ofList segment) cursor) payload with
  | none => .error s!"task template references '{path}', absent from the payload"
  | some .null => .error s!"task template references '{path}', null in the payload"
  | some (.string s) => .ok (truncate s)
  | some other => .ok (truncate (crates.jsonToString other))

/-- `out` is what has been put out so far. An unclosed slot is copied verbatim. -/
def interpolateFrom (payload : Value) (rest out : List Char) : Except String (List Char) :=
  match _hopen : cut ['{', '{'] rest with
  | none => .ok (out ++ rest)
  | some (before, after) =>
    match _hclose : cut ['}', '}'] after with
    | none => .ok (out ++ rest)
    | some (path, later) => do
      let value ← lookup crates payload (String.ofList (trim path))
      interpolateFrom payload later (out ++ before ++ value.toList)
termination_by rest.length
decreasing_by
  have hopened := cut_length _hopen
  have hclosed := cut_length _hclose
  simp only [List.length_cons, List.length_nil] at hopened hclosed
  omega

def interpolate (template : String) (payload : Value) : Except String String :=
  (interpolateFrom crates payload template.toList []).map String.ofList

def stripPrefix (pre text : List Char) : Option (List Char) :=
  if pre <+: text then some (text.drop pre.length) else none

/-- An absent or malformed header is a rejection. -/
def verifyWebhookSignature (secret : String) (body : List UInt8) (header : Option String) : Bool :=
  match header with
  | none => false
  | some header =>
    match stripPrefix "sha256=".toList (trim header.toList) with
    | none => false
    | some hexDigest =>
      match crates.hexDecode (String.ofList hexDigest) with
      | none => false
      | some provided => crates.hmacVerify secret body provided

def spawnRequestFrom (template : SpawnTemplate) (task : String) : SpawnRequest where
  prompt := task
  label := template.label
  model := template.model
  isolationWorktree := template.isolationWorktree
  toolAllowlist := template.toolAllowlist
  interactive := false
  frontmatterPath := template.frontmatterPath
  timeoutSecs := template.timeoutSecs
  providerRef := template.providerRef
  permissionPosture := template.permissionPosture

def utf8 (s : String) : List UInt8 := s.toUTF8.toList

/-- The name of the CR that backs a spec: a hash of workspace, prompt and label. -/
def taskName (spec : TaskSpec) : String :=
  let digest := crates.sha256 (utf8 spec.workspace ++ [0] ++ utf8 spec.request.prompt ++ [0] ++
    (spec.request.label.map utf8).getD [])
  "ct-" ++ String.ofList ((crates.hexEncode digest).toList.take 16)

/-- The tick that a row owes, as it goes into the claim. -/
def dueTick (stored : StoredAutomation) (now : DateTime) : Option String :=
  let a := stored.automation
  match a.enabled, a.trigger with
  | true, .cron schedule =>
    match crates.parseFromRfc3339 (a.lastFiredAt.getD a.createdAt) with
    | none => none
    | some anchor => (dueFire crates schedule anchor now).map stamp
  | _, _ => none

end Rules

end Prospero.Automations
