import Mathlib.Data.List.DropRight
import Prospero.CalibandStream
import Prospero.Lib.Lines

namespace Prospero.Attach

open CalibandStream

/-- What one run of `attach_loop` is about. `stream` is the agent's output so
far, which caliband replays from its start on every connection; `fromStr` is
`serde_json::from_str`. -/
structure Target where
  stream : List UInt8
  fromStr : String → Option Value
  normalize : NormalizeOptions
  maxRetries : Nat

/-- How the reading of a connection comes to an end. -/
inductive Ending
  | eof
  | readError
  | shutdown
deriving DecidableEq

/-- When a shutdown is signalled, if not while the connection is read. -/
inductive Signal
  | quiet
  | afterRead
  | inBackoff
deriving DecidableEq

/-- `served` is absent when the endpoint does not resolve or cannot be dialled;
otherwise it tells how many bytes arrive before the ending. -/
structure Connection where
  served : Option (Nat × Ending)
  signal : Signal
deriving DecidableEq

/-- The `White_Space` property. -/
def isWhitespace (c : Char) : Bool :=
  let n := c.toNat
  (9 ≤ n ∧ n ≤ 13) ∨ n = 32 ∨ n = 0x85 ∨ n = 0xA0 ∨ n = 0x1680 ∨ (0x2000 ≤ n ∧ n ≤ 0x200A) ∨
    n = 0x2028 ∨ n = 0x2029 ∨ n = 0x202F ∨ n = 0x205F ∨ n = 0x3000

def trimEnd (s : String) : String :=
  String.ofList (s.toList.rdropWhile isWhitespace)

/-- One line as `read_line` and `trim_end` present it. -/
inductive Line
  | blank
  | undecodable
  | frame (trimmed : String)
deriving DecidableEq

def Line.ofBytes (bytes : List UInt8) : Line :=
  match Lines.decode bytes with
  | none => .undecodable
  | some line =>
    let trimmed := trimEnd line
    if trimmed = "" then .blank else .frame trimmed

/-- The successive reads of `read_line`: only an end of file turns an
unterminated rest into a line. -/
def readLines (bytes : List UInt8) (ending : Ending) : List Line :=
  let lines := if ending = .eof then Lines.all 10 bytes else (Lines.split 10 bytes).1
  lines.map Line.ofBytes

/-- `framesSeen` outlives a connection, `idx` and `sawTerminal` do not.
`emitted` is what the emitter was handed, with the line each event is from. -/
structure Reader where
  idx : Nat
  framesSeen : Nat
  sawTerminal : Bool
  emitted : List (Nat × EventKind)

namespace Reader

/-- A non-blank line past the prefix already processed. -/
def process (t : Target) (r : Reader) (trimmed : String) : Reader :=
  match t.fromStr trimmed with
  | none => r
  | some frame =>
    match normalizeFrame frame t.normalize with
    | .event kind =>
      { r with
        sawTerminal := r.sawTerminal || kind.isAgentFinished
        emitted := r.emitted ++ [(r.idx, kind)] }
    | .dropped => r
    | .unknown => r

/-- The flag is false when `read_line` fails on a line that is not UTF-8. -/
def readAll (t : Target) (r : Reader) : List Line → Reader × Bool
  | [] => (r, true)
  | .blank :: lines => readAll t r lines
  | .undecodable :: _ => (r, false)
  | .frame trimmed :: lines =>
    let idx := r.idx + 1
    if idx ≤ r.framesSeen then readAll t { r with idx := idx } lines
    else readAll t (process t { r with idx := idx, framesSeen := idx } trimmed) lines

end Reader

/-- `drained` is the `Finished` that a shutdown while reading returns. -/
inductive StreamOutcome
  | finished
  | drained
  | disconnected
  | error
deriving DecidableEq

/-- Why `attach_loop` returned. -/
inductive Outcome
  | finished
  | shutdown
  | exhausted
  | error
deriving DecidableEq

structure Loop where
  framesSeen : Nat
  attempt : Nat
  emitted : List (Nat × EventKind)
  outcome : Option Outcome

def attachOnce (t : Target) (l : Loop) (c : Connection) : Reader × StreamOutcome :=
  let r : Reader := ⟨0, l.framesSeen, false, l.emitted⟩
  match c.served with
  | none => (r, .error)
  | some (n, ending) =>
    match r.readAll t (readLines (t.stream.take n) ending) with
    | (r, false) => (r, .error)
    | (r, true) =>
      match ending with
      | .eof => (r, if r.sawTerminal then .finished else .disconnected)
      | .readError => (r, .error)
      | .shutdown => (r, .drained)

/-- One turn of `attach_loop`. -/
def step (t : Target) (l : Loop) (c : Connection) : Option Loop :=
  match l.outcome with
  | some _ => none
  | none =>
    let (r, streamOutcome) := attachOnce t l c
    let l' : Loop := { l with framesSeen := r.framesSeen, emitted := r.emitted }
    let drop (err : Outcome) : Loop :=
      if c.signal = .afterRead then { l' with outcome := some .shutdown }
      else
        let attempt := if l.framesSeen < r.framesSeen then 0 else l.attempt
        if t.maxRetries ≤ attempt then { l' with attempt := attempt, outcome := some err }
        else if c.signal = .inBackoff then
          { l' with attempt := attempt, outcome := some .shutdown }
        else { l' with attempt := attempt + 1 }
    match streamOutcome with
    | .finished => some { l' with outcome := some .finished }
    | .drained => some { l' with outcome := some .shutdown }
    | .disconnected => some (drop .exhausted)
    | .error => some (drop .error)

def Loop.start : Loop := ⟨0, 0, [], none⟩

end Prospero.Attach
