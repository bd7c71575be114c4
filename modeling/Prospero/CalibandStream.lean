import Prospero.Event

namespace Prospero

namespace Value

/-- An object's fields are in its map's order, each key once. -/
def get : Value → String → Option Value
  | .object fields, key => fields.lookup key
  | _, _ => none

def asStr : Value → Option String
  | .string s => some s
  | _ => none

def asBool : Value → Option Bool
  | .bool b => some b
  | _ => none

def asU64 : Value → Option Nat
  | .number (.posInt n) => some n
  | _ => none

end Value

namespace CalibandStream

structure NormalizeOptions where
  includeThinking : Bool

inductive Normalized
  | event (kind : EventKind)
  | dropped
  | unknown

def toolResultCap : Nat := 8 * 1024

/-- The first `max` chars of `text`, and whether anything was cut. -/
def capChars (text : String) (max : Nat) : String × Bool :=
  if max < text.length then (String.ofList (text.toList.take max), true) else (text, false)

def boolField (frame : Value) (key : String) : Bool :=
  ((frame.get key).bind Value.asBool).getD false

def strField (frame : Value) (key : String) : String :=
  ((frame.get key).bind Value.asStr).getD ""

/-- A unit variant is a JSON string and a variant with data an object with one
key; both yield the variant's name. -/
def stopLabel : Option Value → String
  | some (.string s) => s
  | some (.object ((key, _) :: _)) => key
  | _ => ""

def normalizeFrame (frame : Value) (opts : NormalizeOptions) : Normalized :=
  match (frame.get "type").bind Value.asStr with
  | none => .unknown
  | some "AssistantTextDelta" => .event (.output .stdout (strField frame "text"))
  | some "AssistantThinkingDelta" =>
    if opts.includeThinking then .event (.output .thinking (strField frame "text")) else .dropped
  | some "ToolCallStart" =>
    .event (.toolStarted (strField frame "tool_use_id") (strField frame "name") .null)
  | some "ToolCallEnd" =>
    let (result, capped) :=
      match (frame.get "result_text").bind Value.asStr with
      | some text =>
        let (head, capped) := capChars text toolResultCap
        (some head, capped)
      | none => (none, false)
    .event (.toolFinished (strField frame "tool_use_id") "" (!boolField frame "is_error") result
      (capped || boolField frame "truncated"))
  | some "RunEnd" =>
    -- `as u32` keeps the low 32 bits
    .event (.agentFinished (stopLabel (frame.get "stopped_for")) 0
      (((frame.get "turn_count").bind Value.asU64).getD 0 % 2 ^ 32))
  | some "TurnStart" => .dropped
  | some "ToolCallInputDelta" => .dropped
  | some "TurnEnd" => .dropped
  | some _ => .unknown

end CalibandStream
end Prospero
