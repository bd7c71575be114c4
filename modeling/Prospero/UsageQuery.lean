import Mathlib.Data.Prod.Lex
import Mathlib.Data.String.Basic
import Prospero.CalibandStream
import Prospero.EventJson
import Prospero.Lib.Grouping
import Prospero.Lib.KeyedLog
import Prospero.Store
import Prospero.Usage

namespace Prospero.UsageQuery
open Usage

/-- What an expression comes to; an array or object stands for its JSON text. -/
inductive Sql
  | null
  | integer (n : Int)
  | real (x : Rat)
  | text (s : String)
  | json (v : Value)

section Expressions

/-- `=` with a text; unknown for NULL. -/
def equals : Sql → String → Option Bool
  | .null, _ => none
  | .text s, t => some (s = t)
  | _, _ => some false

def and3 : Option Bool → Option Bool → Option Bool
  | some false, _ | _, some false => some false
  | some true, some true => some true
  | _, _ => none

def or3 : Option Bool → Option Bool → Option Bool
  | some true, _ | _, some true => some true
  | some false, some false => some false
  | _, _ => none

def isIn (v : Sql) (texts : List String) : Option Bool :=
  texts.foldr (fun t rest => or3 (equals v t) rest) (some false)

/-- `CASE WHEN condition THEN value END` -/
def caseWhen (condition : Option Bool) (value : Sql) : Sql :=
  if condition = some true then value else .null

/-- `SUM` passes over NULL, and is NULL where nothing else is left. Text counts for
nothing. -/
def sum : List Sql → Sql
  | [] => .null
  | v :: vs =>
    match v, sum vs with
    | .null, rest => rest
    | .integer n, .null => .integer n
    | .integer n, .integer m => .integer (n + m)
    | .integer n, .real y => .real (n + y)
    | .real x, .null => .real x
    | .real x, .integer m => .real (x + m)
    | .real x, .real y => .real (x + y)
    | _, .null => .real 0
    | _, rest => rest

def coalesce : Sql → Sql → Sql
  | .null, v => v
  | v, _ => v

end Expressions

/-- A row of `events`, with its `kind` column read as JSON. -/
structure EventRow where
  ts : String
  repo : String
  kind : Value

def EventRow.of (e : FleetEvent) : EventRow := ⟨e.ts, e.repo, e.kind.toJson⟩

/-- How a database reads a field of the `kind` column: as it is, and cast for the
two figures. -/
structure Dialect where
  field : Value → String → Sql
  costUsd : Value → Sql
  turns : Value → Sql

/-- `json_extract(kind, '$.name')` -/
def jsonExtract (kind : Value) (name : String) : Sql :=
  match kind.get name with
  | none | some .null => .null
  | some (.bool b) => .integer (if b then 1 else 0)
  | some (.number (.posInt n)) => .integer n
  | some (.number (.negInt n)) => .integer n
  | some (.number (.float x)) => .real x
  | some (.string s) => .text s
  | some v => .json v

def sqlite : Dialect where
  field := jsonExtract
  costUsd kind := jsonExtract kind "cost_usd"
  turns kind := jsonExtract kind "turns"

/-- `kind::jsonb->>'name'`: what is no string becomes its JSON text. -/
def jsonbText (kind : Value) (name : String) : Sql :=
  match kind.get name with
  | none | some .null => .null
  | some (.string s) => .text s
  | some v => .json v

/-- `::double precision` of a number's text. -/
def castDouble : Sql → Sql
  | .json (.number (.posInt n)) => .real n
  | .json (.number (.negInt n)) => .real n
  | .json (.number (.float x)) => .real x
  | _ => .null

/-- `::bigint` of a number's text. -/
def castBigint : Sql → Sql
  | .json (.number (.posInt n)) => .integer n
  | .json (.number (.negInt n)) => .integer n
  | _ => .null

def postgres : Dialect where
  field := jsonbText
  costUsd kind := castDouble (jsonbText kind "cost_usd")
  turns kind := castBigint (jsonbText kind "turns")

/-- `substr(ts, 1, 10)` -/
def substr10 (ts : String) : String := String.ofList (ts.toList.take 10)

/-- `ts >= since AND ts < until`, compared as text. -/
def inWindow (since till ts : String) : Bool := !decide (ts < since) && decide (ts < till)

section Query

variable (d : Dialect)

/-- The `WHERE` clause after the window. -/
def counted (kind : Value) : Option Bool :=
  or3 (or3 (equals (d.field kind "kind") "agent_finished")
      (and3 (equals (d.field kind "kind") "status_changed")
        (isIn (d.field kind "to") ["done", "failed", "killed", "crashed"])))
    (equals (d.field kind "kind") "agent_timed_out")

/-- The selected columns of one group. -/
structure SqlRow where
  workspace : String
  day : String
  costUsd : Sql
  turns : Sql
  done : Sql
  failed : Sql
  killed : Sql
  crashed : Sql
  timedOut : Sql

def countTo (group : List EventRow) (status : String) : Sql :=
  coalesce (sum (group.map fun r => caseWhen (equals (d.field r.kind "to") status) (.integer 1)))
    (.integer 0)

def select (key : String ×ₗ String) (group : List EventRow) : SqlRow where
  workspace := (ofLex key).1
  day := (ofLex key).2
  costUsd := coalesce (sum (group.map fun r =>
    caseWhen (equals (d.field r.kind "kind") "agent_finished") (d.costUsd r.kind))) (.real 0)
  turns := coalesce (sum (group.map fun r =>
    caseWhen (equals (d.field r.kind "kind") "agent_finished") (d.turns r.kind))) (.integer 0)
  done := countTo d group "done"
  failed := countTo d group "failed"
  killed := countTo d group "killed"
  crashed := countTo d group "crashed"
  timedOut := coalesce (sum (group.map fun r =>
    caseWhen (equals (d.field r.kind "kind") "agent_timed_out") (.integer 1))) (.integer 0)

def query (rows : List EventRow) (since till : String) : List SqlRow :=
  Grouping.groupBy (fun r => toLex (r.repo, substr10 r.ts)) (select d)
    (rows.filter fun r => inWindow since till r.ts && counted d r.kind = some true)

end Query

section Decode

def usageDecode (column : String) : CoreError := .store ("usage decode: " ++ column)

def asF64 (column : String) : Sql → Except CoreError Rat
  | .real x => .ok x
  | _ => .error (usageDecode column)

/-- `as u64` -/
def asU64 (column : String) : Sql → Except CoreError Nat
  | .integer n => .ok n.toNat
  | _ => .error (usageDecode column)

def SqlRow.decode (r : SqlRow) : Except CoreError UsageRow := do
  return {
    workspace := r.workspace
    day := r.day
    costUsd := ← asF64 "cost_usd" r.costUsd
    turns := ← asU64 "turns" r.turns
    done := ← asU64 "done" r.done
    failed := ← asU64 "failed" r.failed
    killed := ← asU64 "killed" r.killed
    crashed := ← asU64 "crashed" r.crashed
    timedOut := ← asU64 "timed_out" r.timedOut }

end Decode

/-- `SqliteStore::usage` -/
def sqliteUsage (rows : List EventRow) (since till : String) : Except CoreError (List UsageRow) :=
  (query sqlite rows since till).mapM SqlRow.decode

/-- `PostgresStore::usage`. Each row of the window has its `kind` cast to `jsonb`,
which no escaped U+0000 survives. -/
def postgresUsage (rows : List EventRow) (since till : String) :
    Except CoreError (List UsageRow) :=
  if rows.any fun r => inWindow since till r.ts && r.kind.hasNul then
    .error (.store "usage: unsupported Unicode escape sequence")
  else (query postgres rows since till).mapM SqlRow.decode

/-- `PostgresStore::append`. No text column takes U+0000; in the `kind` column it is
escaped. -/
def postgresAppend (event : FleetEvent) (log : List FleetEvent) :
    Except CoreError (List FleetEvent) :=
  if hasNul event.streamKey || hasNul event.ts || hasNul event.repo || hasNul event.agentId ||
      event.actor.any hasNul || event.onBehalfOf.any hasNul then
    .error (.store "append: invalid byte sequence for encoding \"UTF8\": 0x00")
  else Store.append event log

end Prospero.UsageQuery
