import Prospero.Event

namespace Prospero

def OutputStream.asStr : OutputStream → String
  | .stdout => "stdout"
  | .thinking => "thinking"

def AgentStatus.asStr : AgentStatus → String
  | .spawning => "spawning"
  | .running => "running"
  | .idle => "idle"
  | .killed => "killed"
  | .done => "done"
  | .failed => "failed"
  | .crashed => "crashed"

def WorkspaceHealth.toJson : WorkspaceHealth → Value
  | .healthy => .object [("state", .string "healthy")]
  | .unreachable reason => .object [("state", .string "unreachable"), ("reason", .string reason)]

namespace EventKind

/-- The tag that serde writes first. -/
def tag : EventKind → String
  | .agentSpawned => "agent_spawned"
  | .agentDiscovered => "agent_discovered"
  | .agentInit .. => "agent_init"
  | .statusChanged .. => "status_changed"
  | .output .. => "output"
  | .toolStarted .. => "tool_started"
  | .toolFinished .. => "tool_finished"
  | .agentFinished .. => "agent_finished"
  | .agentGone => "agent_gone"
  | .storePersistFailed .. => "store_persist_failed"
  | .deadlineSet _ => "deadline_set"
  | .agentTimedOut _ => "agent_timed_out"
  | .repoHealth _ => "repo_health"

/-- An absent result and a `truncated` that is false are not written. -/
def fields : EventKind → List (String × Value)
  | .agentSpawned | .agentDiscovered | .agentGone => []
  | .agentInit model tools sessionId =>
    [("model", .string model), ("tools", .array (tools.map .string)),
      ("session_id", .string sessionId)]
  | .statusChanged fromStatus toStatus =>
    [("from", .string fromStatus.asStr), ("to", .string toStatus.asStr)]
  | .output stream chunk => [("stream", .string stream.asStr), ("chunk", .string chunk)]
  | .toolStarted id name input => [("id", .string id), ("name", .string name), ("input", input)]
  | .toolFinished id name ok result truncated =>
    [("id", .string id), ("name", .string name), ("ok", .bool ok)] ++
      (result.map fun text => ("result", Value.string text)).toList ++
      if truncated then [("truncated", .bool true)] else []
  | .agentFinished outcome costUsd turns =>
    [("outcome", .string outcome), ("cost_usd", .number (.float costUsd)),
      ("turns", .number (.posInt turns))]
  | .storePersistFailed lostSeq detail =>
    [("lost_seq", .number (.posInt lostSeq)), ("detail", .string detail)]
  | .deadlineSet deadline | .agentTimedOut deadline => [("deadline", .string deadline)]
  | .repoHealth state => [("state", state.toJson)]

/-- The object that `serde_json::to_string` writes for a kind. -/
def toJson (kind : EventKind) : Value := .object (("kind", .string kind.tag) :: kind.fields)

end EventKind

section Nul

def hasNul (s : String) : Bool := s.toList.any fun c => c.toNat = 0

mutual

/-- A string in it, key or value, holds U+0000, which JSON text escapes. -/
def Value.hasNul : Value → Bool
  | .null | .bool _ | .number _ => false
  | .string s => Prospero.hasNul s
  | .array xs => hasNulItems xs
  | .object fields => hasNulFields fields

def hasNulItems : List Value → Bool
  | [] => false
  | x :: xs => x.hasNul || hasNulItems xs

def hasNulFields : List (String × Value) → Bool
  | [] => false
  | (key, x) :: fields => Prospero.hasNul key || x.hasNul || hasNulFields fields

end

end Nul

end Prospero
