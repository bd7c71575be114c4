import Mathlib.Logic.Function.Basic
import Prospero.Store

namespace Prospero.Emitter

/-- A task inside `emit` writes its event and, when that fails, a gap marker. -/
inductive WriteId
  | event (task : Nat)
  | marker (task : Nat)
deriving DecidableEq

/-- Where a write stands. Nothing is locked from one phase to the next. -/
inductive Phase
  | nextSeq
  | highWater
  | seeded (seeded : Nat)
  | append
  | reseed
  | publish (err : Option CoreError)
  | done
deriving DecidableEq

/-- `appends` is a history variable: the `store.append` calls made so far. -/
structure Write (π : Type) where
  process : π
  event : FleetEvent
  attempts : Nat
  appends : Nat
  phase : Phase

/-- `writer` is a history variable: the write whose `INSERT` this row is, if
it happened during the run. -/
structure Row where
  event : FleetEvent
  writer : Option WriteId

structure Publication (π : Type) where
  writer : WriteId
  process : π
  event : FleetEvent
  err : Option CoreError

/-- One shared log and any number of processes, each with its own `seqs`. -/
structure World (π : Type) where
  log : List Row
  seqs : π → StreamKey → Option Nat
  writes : WriteId → Option (Write π)
  published : List (Publication π)

/-- How an `INSERT` ends for its caller. One that reports an error may still
have been applied, as when the connection drops before the reply. -/
inductive Reply
  | ran
  | failed (message : String) (applied : Bool)

inductive Action (π : Type)
  | emit (task : Nat) (process : π) (draft : FleetEvent)
  | nextSeq (id : WriteId)
  | highWater (id : WriteId) (ok : Bool)
  | seed (id : WriteId)
  | append (id : WriteId) (reply : Reply)
  | reseed (id : WriteId)
  | publish (id : WriteId) (markerTs : String)

def seqConflictRetries : Nat := 8

variable {π : Type} [DecidableEq π]

namespace Write

/-- A write about to allocate its first seq. -/
def begin (process : π) (draft : FleetEvent) : Write π :=
  ⟨process, { draft with seq := 0 }, 0, 0, .nextSeq⟩

def streamKey (x : Write π) : StreamKey := x.event.streamKey

/-- The `match` on the reply to `store.append`. -/
def appended (x : Write π) : Except CoreError Unit → Write π
  | .ok () => { x with appends := x.appends + 1, phase := .publish none }
  | .error .seqConflict =>
    if x.attempts < seqConflictRetries then
      { x with attempts := x.attempts + 1, appends := x.appends + 1, phase := .reseed }
    else { x with appends := x.appends + 1, phase := .publish (some .seqConflict) }
  | .error e => { x with appends := x.appends + 1, phase := .publish (some e) }

/-- The event `emit_persist_gap` records for a write that failed. -/
def gapMarker (x : Write π) (err : CoreError) (ts : String) : FleetEvent :=
  { x.event with
    seq := 0
    ts := ts
    kind := .storePersistFailed x.event.seq err.toString }

end Write

namespace World

def events (w : World π) : List FleetEvent := w.log.map Row.event

def setWrite (w : World π) (id : WriteId) (x : Write π) : World π :=
  { w with writes := Function.update w.writes id (some x) }

def setSeq (w : World π) (process : π) (key : StreamKey) (n : Option Nat) : World π :=
  { w with seqs := Function.update w.seqs process (Function.update (w.seqs process) key n) }

/-- Insert `next` into `seqs` and carry on with the event that bears it. -/
def allocate (w : World π) (id : WriteId) (x : Write π) (next : Nat) : World π :=
  (w.setSeq x.process x.streamKey (some next)).setWrite id
    { x with event := { x.event with seq := next }, phase := .append }

/-- The fast path of `next_seq`, under the lock. -/
def nextSeq (w : World π) (id : WriteId) (x : Write π) : World π :=
  match w.seqs x.process x.streamKey with
  | some n => w.allocate id x (n + 1)
  | none => w.setWrite id { x with phase := .highWater }

/-- The slow path's unlocked read; a failed one starts the stream at 0. -/
def highWater (w : World π) (id : WriteId) (x : Write π) (ok : Bool) : World π :=
  w.setWrite id { x with phase := .seeded (if ok then Store.highWater w.events x.streamKey else 0) }

/-- The slow path's end: the counter may have been seeded meanwhile. -/
def seed (w : World π) (id : WriteId) (x : Write π) (seeded : Nat) : World π :=
  match w.seqs x.process x.streamKey with
  | some n => w.allocate id x (n + 1)
  | none => w.allocate id x (seeded + 1)

def insert (w : World π) (id : WriteId) (x : Write π) : World π :=
  { w with log := w.log ++ [⟨x.event, some id⟩] }

def append (w : World π) (id : WriteId) (x : Write π) : Reply → World π
  | .ran =>
    match Store.append x.event w.events with
    | .ok _ => (w.insert id x).setWrite id (x.appended (.ok ()))
    | .error e => w.setWrite id (x.appended (.error e))
  | .failed message applied =>
    let x' := x.appended (.error (Store.mapAppendError (.other message)))
    match applied, Store.append x.event w.events with
    | true, .ok _ => (w.insert id x).setWrite id x'
    | _, _ => w.setWrite id x'

def reseed (w : World π) (id : WriteId) (x : Write π) : World π :=
  (w.setSeq x.process x.streamKey none).setWrite id { x with phase := .nextSeq }

/-- The end of `emit`. Only the event's own failure leads to a marker. -/
def publish (w : World π) (id : WriteId) (x : Write π) (err : Option CoreError)
    (markerTs : String) : World π :=
  let w' := { w.setWrite id { x with phase := .done } with
    published := w.published ++ [⟨id, x.process, x.event, err⟩] }
  match id, err with
  | .event task, some e => w'.setWrite (.marker task) (.begin x.process (x.gapMarker e markerTs))
  | _, _ => w'

def step (w : World π) : Action π → Option (World π)
  | .emit task process draft =>
    match w.writes (.event task) with
    | none => some (w.setWrite (.event task) (.begin process draft))
    | some _ => none
  | .nextSeq id => (w.writes id).bind fun x =>
    match x.phase with
    | .nextSeq => some (w.nextSeq id x)
    | _ => none
  | .highWater id ok => (w.writes id).bind fun x =>
    match x.phase with
    | .highWater => some (w.highWater id x ok)
    | _ => none
  | .seed id => (w.writes id).bind fun x =>
    match x.phase with
    | .seeded seeded => some (w.seed id x seeded)
    | _ => none
  | .append id reply => (w.writes id).bind fun x =>
    match x.phase with
    | .append => some (w.append id x reply)
    | _ => none
  | .reseed id => (w.writes id).bind fun x =>
    match x.phase with
    | .reseed => some (w.reseed id x)
    | _ => none
  | .publish id markerTs => (w.writes id).bind fun x =>
    match x.phase with
    | .publish err => some (w.publish id x err markerTs)
    | _ => none

end World

/-- Every process has just started over the given log. -/
def World.start (log : List FleetEvent) : World π :=
  ⟨log.map fun e => ⟨e, none⟩, fun _ _ => none, fun _ => none, []⟩

end Prospero.Emitter
