import Prospero.EventJson
import Prospero.Lib.Words
import Prospero.PostgresStore

namespace Prospero.SqlStore

inductive Backend
  | sqlite
  | postgres
deriving DecidableEq

/-- What is used of the crate `serde_json`, for the `kind` column. -/
structure SerdeJson where
  toString : EventKind → Except String String
  fromStr : String → Except String EventKind

/-- A failed call; an error of `serde_json` goes through with its own text. -/
inductive Error
  | core (e : CoreError)
  | json (message : String)

/-- A row of `events`. -/
structure EventRow where
  globalOrdinal : Int64
  streamKey : String
  seq : Int64
  ts : String
  repo : String
  agentId : String
  kind : String
  actor : Option String
  onBehalfOf : Option String

/-- The table, with the last ordinal that `AUTOINCREMENT` or `BIGSERIAL` gave out;
a `DELETE` does not take it back. -/
structure Table where
  rows : List EventRow
  sequence : Nat

section Append

/-- What `append` binds, at an ordinal. -/
def EventRow.of (ordinal : Nat) (kind : String) (event : FleetEvent) : EventRow where
  globalOrdinal := Int64.ofNat ordinal
  streamKey := event.streamKey
  seq := (UInt64.ofNat event.seq).toInt64
  ts := event.ts
  repo := event.repo
  agentId := event.agentId
  kind := kind
  actor := event.actor
  onBehalfOf := event.onBehalfOf

/-- No text of Postgres holds U+0000. -/
def Backend.refuses (texts : List String) : Backend → Bool
  | .sqlite => false
  | .postgres => texts.any hasNul

def invalidBytes : String := "invalid byte sequence for encoding \"UTF8\": 0x00"

def EventRow.texts (r : EventRow) : List String :=
  [r.streamKey, r.ts, r.repo, r.agentId, r.kind] ++ r.actor.toList ++ r.onBehalfOf.toList

/-- `INSERT INTO events` -/
def insertRow (backend : Backend) (row : EventRow) (t : Table) : Except Store.SqlError Table :=
  if backend.refuses row.texts then .error (.other invalidBytes)
  else if 2 ^ 63 ≤ t.sequence + 1 then .error (.other "no ordinal is left")
  else if t.rows.any fun r => r.streamKey = row.streamKey ∧ r.seq = row.seq then
    .error .uniqueViolation
  else .ok ⟨t.rows ++ [row], t.sequence + 1⟩

def append (serde : SerdeJson) (backend : Backend) (event : FleetEvent) (t : Table) :
    Except Error Table :=
  match serde.toString event.kind with
  | .error message => .error (.json message)
  | .ok kind =>
    match insertRow backend (.of (t.sequence + 1) kind event) t with
    | .error e => .error (.core (Store.mapAppendError e))
    | .ok t' => .ok t'

end Append

section Replay

def EventRow.decode (serde : SerdeJson) (r : EventRow) : Except Error FleetEvent :=
  match serde.fromStr r.kind with
  | .error message => .error (.json message)
  | .ok kind => .ok {
      seq := r.seq.toUInt64.toNat
      ts := r.ts
      repo := r.repo
      agentId := r.agentId
      kind := kind
      actor := r.actor
      onBehalfOf := r.onBehalfOf }

/-- `WHERE stream_key = ? AND seq >= ? ORDER BY seq` -/
def replay (serde : SerdeJson) (backend : Backend) (t : Table) (streamKey : StreamKey)
    (fromSeq : UInt64) : Except Error (List FleetEvent) :=
  if backend.refuses [streamKey] then .error (.core (.store ("replay: " ++ invalidBytes)))
  else ((t.rows.filter fun r => r.streamKey = streamKey ∧ fromSeq.toInt64 ≤ r.seq).insertionSort
    fun a b => a.seq ≤ b.seq).mapM (EventRow.decode serde)

def EventRow.decodeCursored (serde : SerdeJson) (r : EventRow) :
    Except Error PostgresStore.CursoredEvent :=
  match r.decode serde with
  | .error e => .error e
  | .ok event => .ok ⟨r.globalOrdinal.toUInt64.toNat, event⟩

/-- `WHERE global_ordinal > ? ORDER BY global_ordinal LIMIT ?`; Postgres takes no
negative limit, for SQLite it is none. -/
def replayFleet (serde : SerdeJson) (backend : Backend) (t : Table) (afterCursor limit : UInt64) :
    Except Error (List PostgresStore.CursoredEvent) :=
  if backend = .postgres ∧ limit.toInt64 < 0 then
    .error (.core (.store "replay_fleet: LIMIT must not be negative"))
  else (Words.limit limit.toInt64 ((t.rows.filter fun r =>
    afterCursor.toInt64 < r.globalOrdinal).insertionSort fun a b =>
      a.globalOrdinal ≤ b.globalOrdinal)).mapM (EventRow.decodeCursored serde)

end Replay

/-- `DELETE FROM events WHERE ts < ?` -/
def prune (backend : Backend) (beforeTs : String) (t : Table) : Except Error (Table × Nat) :=
  if backend.refuses [beforeTs] then .error (.core (.store ("prune: " ++ invalidBytes)))
  else
    let kept := t.rows.filter fun r => !decide (r.ts < beforeTs)
    .ok ({ t with rows := kept }, t.rows.length - kept.length)

/-- An event; its `seq` is a `u64`. -/
structure Draft where
  event : FleetEvent
  seq_lt : event.seq < 2 ^ 64

/-- A store in use. `log` is a history variable: the events appended and not pruned,
in the order of the appends, each with its ordinal. -/
structure World where
  table : Table
  log : List PostgresStore.CursoredEvent

inductive Action
  | append (d : Draft)
  | prune (beforeTs : String)
  /-- An `INSERT` that comes to nothing keeps the ordinal it took, on Postgres. -/
  | nextval

def step (serde : SerdeJson) (backend : Backend) (w : World) : Action → Option World
  | .append d =>
    match append serde backend d.event w.table with
    | .error _ => some w
    | .ok t => some ⟨t, w.log ++ [⟨t.sequence, d.event⟩]⟩
  | .prune beforeTs =>
    match prune backend beforeTs w.table with
    | .error _ => some w
    | .ok (t, _) => some ⟨t, w.log.filter fun c => Store.survives beforeTs c.event⟩
  | .nextval =>
    if backend = .postgres then
      some { w with table := { w.table with sequence := w.table.sequence + 1 } }
    else none

def World.empty : World := ⟨⟨[], 0⟩, []⟩

end Prospero.SqlStore
