import Mathlib.Algebra.Group.Nat.Defs
import Mathlib.Data.Rat.Defs

namespace Prospero

abbrev StreamKey := String

/-- `serde_json` numbers; a float stands for its exact value. -/
inductive Number
  | posInt (n : Nat)
  | negInt (n : Int)
  | float (x : Rat)
deriving DecidableEq

inductive Value
  | null
  | bool (b : Bool)
  | number (n : Number)
  | string (s : String)
  | array (xs : List Value)
  | object (fields : List (String × Value))

inductive OutputStream
  | stdout
  | thinking
deriving DecidableEq

inductive AgentStatus
  | spawning
  | running
  | idle
  | killed
  | done
  | failed
  | crashed
deriving DecidableEq

def AgentStatus.isTerminal : AgentStatus → Bool
  | .killed | .done | .failed | .crashed => true
  | .spawning | .running | .idle => false

inductive WorkspaceHealth
  | healthy
  | unreachable (reason : String)
deriving DecidableEq

inductive EventKind
  | agentSpawned
  | agentDiscovered
  | agentInit (model : String) (tools : List String) (sessionId : String)
  | statusChanged (fromStatus toStatus : AgentStatus)
  | output (stream : OutputStream) (chunk : String)
  | toolStarted (id name : String) (input : Value)
  | toolFinished (id name : String) (ok : Bool) (result : Option String) (truncated : Bool)
  | agentFinished (outcome : String) (costUsd : Rat) (turns : Nat)
  | agentGone
  | storePersistFailed (lostSeq : Nat) (detail : String)
  | deadlineSet (deadline : String)
  | agentTimedOut (deadline : String)
  | repoHealth (state : WorkspaceHealth)

/-- `matches!(kind, EventKind::AgentFinished { .. })` -/
def EventKind.isAgentFinished : EventKind → Bool
  | .agentFinished .. => true
  | _ => false

/-- Agent events key on the agent id, repo events on `repo:<name>`, and the
rest on the singleton `fleet` stream. -/
def streamKeyFor (repo agentId : String) : StreamKey :=
  if agentId ≠ "" then agentId
  else if repo ≠ "" then "repo:" ++ repo
  else "fleet"

structure FleetEvent where
  seq : Nat
  ts : String
  repo : String
  agentId : String
  kind : EventKind
  actor : Option String
  onBehalfOf : Option String

def FleetEvent.streamKey (e : FleetEvent) : StreamKey :=
  streamKeyFor e.repo e.agentId

/-- What `UNIQUE (stream_key, seq)` is about. -/
def FleetEvent.key (e : FleetEvent) : StreamKey × Nat :=
  (e.streamKey, e.seq)

end Prospero
