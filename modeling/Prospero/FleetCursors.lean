import Mathlib.Logic.Function.Basic
import Prospero.JsonlStore

namespace Prospero.FleetCursors
open JsonlStore

variable {ρ : Type} [DecidableEq ρ] (serde : SerdeJson)

/-- A stored event, with its number among all that were appended. -/
structure Entry where
  id : Nat
  event : FleetEvent

/-- A client that resumes from the last cursor it received. `since` is how many events
had been appended when it got its first, and `got` are the numbers of those it was given. -/
structure Reader where
  cursor : Nat
  since : Nat
  got : List Nat

/-- The file of a `JsonlStore` and its readers. The rest is history: what is on the lines of
the file, how many events were appended, and the cursors issued, each with the number of
its event. -/
structure World (ρ : Type) where
  file : List UInt8
  log : List Entry
  appended : Nat
  issued : List (Nat × Nat)
  readers : ρ → Reader

inductive Action (ρ : Type)
  | append (event : FleetEvent)
  | prune (beforeTs : String)
  /-- `from=now`: the reader starts over, from the newest cursor. -/
  | latest (reader : ρ)
  | read (reader : ρ) (limit : Nat)

namespace World

/-- The cursor as issued now, if an event has it. -/
def issue (w : World ρ) (cursor : Nat) : Option (Nat × Nat) :=
  (w.log[cursor - 1]?).map fun x => (cursor, x.id)

def take (w : World ρ) (reader : ρ) (batch : List PostgresStore.CursoredEvent) : World ρ :=
  let r := w.readers reader
  let given := batch.filterMap fun c => w.issue c.cursor
  { w with
    issued := w.issued ++ given
    readers := Function.update w.readers reader
      { r with
        cursor := (batch.getLast?.map PostgresStore.CursoredEvent.cursor).getD r.cursor
        got := r.got ++ given.map Prod.snd } }

/-- A call that fails changes nothing. -/
def step (w : World ρ) : Action ρ → Option (World ρ)
  | .append event =>
    match append serde event w.file with
    | .error _ => some w
    | .ok file => some { w with
        file := file
        log := w.log ++ [⟨w.appended, event⟩]
        appended := w.appended + 1 }
  | .prune beforeTs =>
    match prune serde beforeTs w.file with
    | .error _ => some w
    | .ok (file, _) => some { w with
        file := file
        log := w.log.filter fun x => beforeTs ≤ x.event.ts }
  | .latest reader =>
    match latestFleetCursor serde w.file with
    | .error _ => some w
    | .ok cursor => some { w with
        issued := w.issued ++ (w.issue cursor).toList
        readers := Function.update w.readers reader ⟨cursor, w.appended, []⟩ }
  | .read reader limit =>
    match replayFleet serde w.file (w.readers reader).cursor limit with
    | .error _ => some w
    | .ok batch => some (w.take reader batch)

def empty : World ρ := ⟨[], [], 0, [], fun _ => ⟨0, 0, []⟩⟩

end World

end Prospero.FleetCursors
