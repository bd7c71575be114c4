import Mathlib.Algebra.GroupWithZero.Nat
import Mathlib.Data.List.AList
import Prospero.Auth
import Prospero.Dashboard

namespace Prospero.Timeline
open Prospero.Automations (takeBytes)
open Prospero.Auth (parseInt64)
open Prospero.Dashboard (Entry)

inductive ToolOutcome
  | running
  | ok
  | failed
deriving DecidableEq

/-- A tool call, its start paired with its finish. `seq` is the start's. -/
structure ToolCall where
  seq : Nat
  id : String
  name : String
  input : Value
  outcome : ToolOutcome
  durationMs : Option Int
  result : Option String
  resultTruncated : Bool

inductive Segment
  | init (model : String) (tools : List String) (sessionId : String)
  | output (text : String)
  | thinking (text : String)
  | tool (call : ToolCall)
  | status (fromStatus toStatus : AgentStatus)
  | finished (outcome : String) (costUsd : Rat) (turns : Nat)
  | gap (skipped : Nat)
  | undecodable (why : String)
  | other (label : String)

/-- `if let Segment::Tool(t) = …` -/
def Segment.onTool (f : ToolCall → ToolCall) : Segment → Segment
  | .tool t => .tool (f t)
  | seg => seg

def statusLabel : AgentStatus → String
  | .spawning => "spawning"
  | .running => "running"
  | .idle => "idle"
  | .killed => "killed"
  | .done => "done"
  | .failed => "failed"
  | .crashed => "crashed"

def kindLabel : EventKind → String
  | .agentInit model _ _ => s!"init · {model}"
  | .statusChanged fromStatus toStatus => s!"{statusLabel fromStatus} → {statusLabel toStatus}"
  | .storePersistFailed lostSeq _ => s!"store append failed at seq {lostSeq}"
  | .repoHealth _ => "workspace health"
  | _ => "event"

section Duration

/-- `str::get` on a range of bytes. -/
def slice (a b : Nat) (text : List Char) : Option (List Char) :=
  let before := takeBytes a text
  let found := takeBytes (b - a) (text.drop before.length)
  if (before.map Char.utf8Size).sum = a ∧ (found.map Char.utf8Size).sum = b - a then some found
  else none

def rfc3339ToMillis (ts : String) : Option Int :=
  if ts.utf8ByteSize < 19 then none
  else do
    let num (a b : Nat) := (slice a b ts.toList).bind parseInt64
    let y ← num 0 4
    let mo ← num 5 7
    let d ← num 8 10
    let h ← num 11 13
    let mi ← num 14 16
    let s ← num 17 19
    if 1 ≤ mo ∧ mo ≤ 12 ∧ 1 ≤ d ∧ d ≤ 31 then
      let yAdj := if mo ≤ 2 then y - 1 else y
      let era := (if 0 ≤ yAdj then yAdj else yAdj - 399).tdiv 400
      let yoe := yAdj - era * 400
      let mp := (mo + 9).tmod 12
      let doy := (153 * mp + 2).tdiv 5 + d - 1
      let doe := yoe * 365 + yoe.tdiv 4 - yoe.tdiv 100 + doy
      let days := era * 146097 + doe - 719468
      some ((days * 86400 + h * 3600 + mi * 60 + s) * 1000)
    else none

def durationMs (start finish : String) : Option Int := do
  let a ← rfc3339ToMillis start
  let b ← rfc3339ToMillis finish
  if b - a < 0 then none else some (b - a)

end Duration

/-- What `group` has made of the entries so far. The blocks that still take chunks and
the calls that wait for a finish go by their indices. -/
structure Grouping where
  segs : List Segment
  openOutput : Option Nat
  openThinking : Option Nat
  openTools : List Nat
  startedAt : AList fun _ : Nat => String

namespace Grouping

/-- A segment of its own, which closes the open blocks. -/
def push (g : Grouping) (seg : Segment) : Grouping :=
  { g with segs := g.segs ++ [seg], openOutput := none, openThinking := none }

/-- A chunk of output, which closes a thinking block. -/
def pushStdout (g : Grouping) (chunk : String) : Grouping :=
  match g.openOutput with
  | some i =>
    { g with
      segs := g.segs.modify i fun
        | .output text => .output (text ++ chunk)
        | seg => seg
      openThinking := none }
  | none =>
    { g with
      segs := g.segs ++ [.output chunk]
      openOutput := some g.segs.length
      openThinking := none }

/-- A chunk of thinking, which closes an output block. -/
def pushThinking (g : Grouping) (chunk : String) : Grouping :=
  match g.openThinking with
  | some i =>
    { g with
      segs := g.segs.modify i fun
        | .thinking text => .thinking (text ++ chunk)
        | seg => seg
      openOutput := none }
  | none =>
    { g with
      segs := g.segs ++ [.thinking chunk]
      openThinking := some g.segs.length
      openOutput := none }

def start (g : Grouping) (e : FleetEvent) (id name : String) (input : Value) : Grouping :=
  { g.push (.tool ⟨e.seq, id, name, input, .running, none, none, false⟩) with
    openTools := g.openTools ++ [g.segs.length]
    startedAt := g.startedAt.insert g.segs.length e.ts }

/-- `matches!(&segs[*i], Segment::Tool(t) if t.id == *id)` -/
def isCall (g : Grouping) (id : String) (i : Nat) : Bool :=
  match g.segs[i]? with
  | some (.tool t) => t.id = id
  | _ => false

/-- The open call that a finish is paired with. -/
def found (g : Grouping) (id : String) : Option Nat :=
  if id = "" then g.openTools.head?
  else (g.openTools.find? (g.isCall id)).or g.openTools.head?

/-- A finish never opens a segment. -/
def finish (g : Grouping) (e : FleetEvent) (id : String) (ok : Bool) (result : Option String)
    (truncated : Bool) : Grouping :=
  match g.found id with
  | none => g
  | some i =>
    let duration := (g.startedAt.lookup i).bind fun s => durationMs s e.ts
    { g with
      segs := g.segs.modify i <| Segment.onTool fun t =>
        { t with
          outcome := if ok then .ok else .failed
          durationMs := duration
          result := result
          resultTruncated := truncated }
      openTools := g.openTools.filter (· ≠ i)
      startedAt := g.startedAt.erase i }

def event (g : Grouping) (e : FleetEvent) : Grouping :=
  match e.kind with
  | .output .stdout chunk => g.pushStdout chunk
  | .output .thinking chunk => g.pushThinking chunk
  | .agentInit model tools sessionId => g.push (.init model tools sessionId)
  | .toolStarted id name input => g.start e id name input
  | .toolFinished id _ ok result truncated => g.finish e id ok result truncated
  | .statusChanged fromStatus toStatus => g.push (.status fromStatus toStatus)
  | .agentFinished outcome costUsd turns => g.push (.finished outcome costUsd turns)
  | other => g.push (.other (kindLabel other))

def entry (g : Grouping) : Entry → Grouping
  | .gap skipped => g.push (.gap skipped)
  | .undecodable why => g.push (.undecodable why)
  | .event e => g.event e

end Grouping

def grouping (entries : List Entry) : Grouping :=
  entries.foldl Grouping.entry ⟨[], none, none, [], ∅⟩

def group (entries : List Entry) : List Segment := (grouping entries).segs

end Prospero.Timeline
