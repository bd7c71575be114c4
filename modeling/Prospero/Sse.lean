import Prospero.Automation
import Prospero.Dashboard
import Prospero.FleetStream
import Prospero.JsonlStore
import Prospero.Lib.EventStream

namespace Prospero.Sse
open Automations (stripPrefix trim)
open EventStream (Field Item)
open PostgresStore (CursoredEvent)

/-- What is used of the crate `serde_json`; `ν` is its `Value`. A frame stands for the
`FleetEvent` or the `GapSignal` in it. -/
structure SerdeJson (ν : Type) where
  toString : Frame → Except String String
  toValue : Frame → ν
  valueFromStr : String → Except String ν
  eventFromStr : String → Except String FleetEvent
  gapFromStr : String → Except String (Nat × Nat)

/-- axum's `Event`: the fields that are set on it, in their order. -/
abbrev Event := List (String × String)

section Server

variable {ν : Type} (serde : SerdeJson ν)

def Event.data (e : Event) (text : String) : Event := e ++ [("data", text)]

def Event.jsonData (e : Event) (frame : Frame) : Except String Event :=
  (serde.toString frame).map e.data

def Event.unwrapOr (e : Except String Event) (other : Event) : Event :=
  match e with
  | .ok e => e
  | .error _ => other

def toEvent (e : FleetEvent) : Event :=
  Event.unwrapOr (Event.jsonData serde [] (.event e)) (Event.data [] "\x7b\x7d")

def frameToEvent : Frame → Event
  | .event e => toEvent serde e
  | .gap skipped lastSeq =>
    Event.unwrapOr (Event.jsonData serde [("event", "gap")] (.gap skipped lastSeq))
      (Event.data [("event", "gap")] "\x7b\x7d")

end Server

section Wire

/-- How axum lays out an event: a field a line, with or without a space before its value. -/
def Laid (e : Event) (fields : List Field) : Prop :=
  e = fields.map fun f => (String.ofList f.name, String.ofList f.value)

/-- What goes down a connection: the server's events in their order, and comments among
them that keep it alive. -/
inductive Wire {α : Type} (event : α → Event) : List α → List Item → Prop
  | nil : Wire event [] []
  | keepAlive {xs : List α} {items : List Item} (text : List Char)
      (plain : ∀ c ∈ text, c ≠ '\n' ∧ c ≠ '\r') (more : Wire event xs items) :
      Wire event xs (.comment text :: items)
  | event {x : α} {xs : List α} {fields : List Field} {items : List Item}
      (laid : Laid (event x) fields) (more : Wire event xs items) :
      Wire event (x :: xs) (.block fields :: items)

end Wire

section Cli

variable {ν : Type} (serde : SerdeJson ν)

/-- The body of a reply as it is read: what comes of it, and whether reading then fails. -/
structure Body where
  bytes : List UInt8
  failed : Bool

/-- `BufRead::lines`; the line that cannot be read is absent. -/
def Body.lines (body : Body) : List (Option String) :=
  if body.failed then
    ((Lines.split 10 body.bytes).1.map fun l => (Lines.decode l).map JsonlStore.chomp) ++ [none]
  else JsonlStore.lines body.bytes

/-- The turn of the loop for one line: the name that the next payload goes by, and the
call of `on_event`. -/
def onLine (eventName : String) (line : String) : String × Option (String × ν) :=
  match stripPrefix "event:".toList line.toList with
  | some name => (String.ofList (trim name), none)
  | none =>
    match stripPrefix "data:".toList line.toList with
    | some payload =>
      if trim payload = [] then (eventName, none)
      else match serde.valueFromStr (String.ofList (trim payload)) with
        | .ok value => (eventName, some (eventName, value))
        | .error _ => (eventName, none)
    | none => if line = "" then ("", none) else (eventName, none)

/-- The calls of `on_event` that the loop makes, and how it ends. -/
def readEvents (eventName : String) : List (Option String) →
    List (String × ν) × Except String Unit
  | [] => ([], .ok ())
  | none :: _ => ([], .error "reading SSE stream")
  | some line :: rest =>
    let (eventName, call) := onLine serde eventName line
    let (calls, result) := readEvents eventName rest
    (call.toList ++ calls, result)

end Cli

section Dashboard

open Dashboard (Incoming)

variable {ν : Type} (serde : SerdeJson ν)

/-- The two subscriptions of `follow`: the default channel and `gap`. -/
inductive Merged
  | event (data : String)
  | gap (data : String)

/-- The channel that an `EventSource` puts an event on, if `follow` listens there. -/
def channel (e : EventStream.Event) : Option Merged :=
  if e.name = [] ∨ e.name = "message".toList then some (.event (String.ofList e.data))
  else if e.name = "gap".toList then some (.gap (String.ofList e.data))
  else none

def incoming : Merged → Incoming
  | .event text =>
    match serde.eventFromStr text with
    | .ok parsed => .event parsed
    | .error e => .unparseable s!"event: {e}"
  | .gap text =>
    match serde.gapFromStr text with
    | .ok (skipped, lastSeq) => .gap skipped lastSeq
    | .error e => .unparseable s!"gap: {e}"

/-- What `follow` makes of the part of a stream that has come. -/
def heard (decode : List UInt8 → List Char) (bytes : List UInt8) : List Incoming :=
  ((EventStream.events decode bytes).filterMap channel).map (incoming serde)

end Dashboard

/-- Its documentation: what is written is read back, into a value or into what it was
written from; a struct is written as an object on one line; and what is read of a text
that opens an object is the whole of it. -/
structure SerdeJson.Documented {ν : Type} (serde : SerdeJson ν) : Prop where
  values : ∀ frame text, serde.toString frame = .ok text →
    serde.valueFromStr text = .ok (serde.toValue frame)
  events : ∀ e text, serde.toString (.event e) = .ok text → serde.eventFromStr text = .ok e
  gaps : ∀ skipped lastSeq text, serde.toString (.gap skipped lastSeq) = .ok text →
    serde.gapFromStr text = .ok (skipped, lastSeq)
  written : ∀ frame text, serde.toString frame = .ok text →
    ∃ body, text = "\x7b" ++ body ++ "\x7d" ∧ ∀ c ∈ body.toList, c ≠ '\n' ∧ c ≠ '\r'
  whole : ∀ text v, serde.valueFromStr text = .ok v → text.toList.head? = some '{' →
    JsonText.Whole text.toList

end Prospero.Sse
