import Prospero.Attach
import Prospero.Lib.JsonText
import Prospero.PostgresStore

namespace Prospero.JsonlStore

/-- What is used of the crate `serde_json`, for a line of `events.jsonl`. -/
structure SerdeJson where
  toString : FleetEvent → Except String String
  fromStr : String → Except String FleetEvent

/-- A failed call; both kinds go through with the text they came with. -/
inductive Error
  | json (message : String)
  | io (message : String)

section Read

/-- `BufRead::lines`: a line feed goes, and a carriage return before it. -/
def chomp (line : String) : String :=
  if line.toList.getLast? = some '\r' then String.ofList line.toList.dropLast else line

/-- The lines of a file, absent where they are not UTF-8. The last may be unterminated. -/
def lines (file : List UInt8) : List (Option String) :=
  match Lines.split 10 file with
  | (terminated, rest) => (terminated.map fun bytes => (Lines.decode bytes).map chomp) ++
      if rest = [] then [] else [Lines.decode rest]

variable (serde : SerdeJson)

/-- Blank lines and lines that do not parse are passed over. -/
def parseLine (line : String) : Option FleetEvent :=
  if line.toList.all Attach.isWhitespace then none
  else match serde.fromStr line with
    | .ok event => some event
    | .error _ => none

/-- The loop of `read_all`, which a line that is not UTF-8 fails. -/
def collect : List (Option String) → Except Error (List FleetEvent)
  | [] => .ok []
  | none :: _ => .error (.io "stream did not contain valid UTF-8")
  | some line :: rest =>
    match collect rest with
    | .error e => .error e
    | .ok events => .ok ((parseLine serde line).toList ++ events)

/-- A file that is not there reads as an empty one. -/
def readAll (file : List UInt8) : Except Error (List FleetEvent) :=
  collect serde (lines file)

def replay (file : List UInt8) (streamKey : StreamKey) (fromSeq : Nat) :
    Except Error (List FleetEvent) :=
  match readAll serde file with
  | .error e => .error e
  | .ok events => .ok (Store.replay events streamKey fromSeq)

/-- The cursor of an event is its place among the events of the file, from 1. -/
def replayFleet (file : List UInt8) (afterCursor limit : Nat) :
    Except Error (List PostgresStore.CursoredEvent) :=
  match readAll serde file with
  | .error e => .error e
  | .ok events => .ok (((events.zipIdx.map fun x => ⟨x.2 + 1, x.1⟩).filter
      fun c : PostgresStore.CursoredEvent => afterCursor < c.cursor).take limit)

def latestFleetCursor (file : List UInt8) : Except Error Nat :=
  match readAll serde file with
  | .error e => .error e
  | .ok events => .ok events.length

end Read

section Write

variable (serde : SerdeJson)

/-- The line of an event, with its line feed. -/
def line (event : FleetEvent) : Except Error (List UInt8) :=
  match serde.toString event with
  | .error message => .error (.json message)
  | .ok text => .ok (Lines.encode text ++ [10])

/-- Whatever the file ends in, the line goes after it. -/
def append (event : FleetEvent) (file : List UInt8) : Except Error (List UInt8) :=
  match line serde event with
  | .error e => .error e
  | .ok bytes => .ok (file ++ bytes)

/-- `prune`: the file it leaves, and how many events are gone. -/
def prune (beforeTs : String) (file : List UInt8) : Except Error (List UInt8 × Nat) :=
  match readAll serde file with
  | .error e => .error e
  | .ok all =>
    let kept := all.filter fun e => beforeTs ≤ e.ts
    -- with nothing to remove the file is not written
    if all.length - kept.length = 0 then .ok (file, 0)
    else match kept.mapM (line serde) with
      | .error e => .error e
      | .ok body => .ok (body.flatten, all.length - kept.length)

end Write

/-- Its documentation: what is written is read back, an event is written as an object on
one line with its fields in order, and only a whole JSON text is read. -/
structure SerdeJson.Documented (serde : SerdeJson) : Prop where
  reads : ∀ event text, serde.toString event = .ok text → serde.fromStr text = .ok event
  written : ∀ event text, serde.toString event = .ok text →
    ∃ fields, text = "\x7b\"seq\":" ++ fields ++ "\x7d" ∧ '\n' ∉ fields.toList
  whole : ∀ text event, serde.fromStr text = .ok event → JsonText.Whole text.toList

end Prospero.JsonlStore
