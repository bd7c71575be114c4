import Mathlib.Data.List.Perm.Basic
import Prospero.Event
import Prospero.Lib.FencedLease
import Prospero.Lib.Machine

namespace Prospero

abbrev ReplicaId := String

namespace Leases

/-- A claim on a stream's single-writer role, as handed to the caller. -/
structure Lease where
  streamKey : StreamKey
  epoch : Nat
deriving DecidableEq

/-- One row of the `leases` table. Instants are microseconds of the one
database clock, so a row is expired by comparison with `now()` alone. -/
abbrev LeaseRow := FencedLease.Row ReplicaId Int

/-- `stream_key` is the primary key: at most one row each. -/
abbrev Table := StreamKey → Option LeaseRow

/-- `INSERT … ON CONFLICT (stream_key) DO UPDATE … WHERE … RETURNING epoch`:
claim a free key, reap an expired one, or confirm our own. No row comes back
when the `WHERE` refuses the update. -/
def tryAcquireSql (now ttl : Int) (me : ReplicaId) (key : StreamKey) (t : Table) :
    Table × Option Nat :=
  match t key with
  | none => (Function.update t key (some ⟨me, 1, now + ttl⟩), some 1)
  | some row =>
    if row.expiresAt < now ∨ row.owner = me then
      let epoch := if row.owner = me then row.epoch else row.epoch + 1
      (Function.update t key (some ⟨me, epoch, now + ttl⟩), some epoch)
    else (t, none)

/-- `UPDATE leases SET expires_at … WHERE stream_key, owner, epoch`; the flag
is `rows_affected != 0`. Expiry is not consulted. -/
def renewSql (now ttl : Int) (me : ReplicaId) (lease : Lease) (t : Table) : Table × Bool :=
  match t lease.streamKey with
  | none => (t, false)
  | some row =>
    if row.owner = me ∧ row.epoch = lease.epoch then
      (Function.update t lease.streamKey (some { row with expiresAt := now + ttl }), true)
    else (t, false)

/-- `DELETE FROM leases WHERE stream_key AND owner_replica_id`. -/
def releaseSql (me : ReplicaId) (key : StreamKey) (t : Table) : Table :=
  match t key with
  | none => t
  | some row => if row.owner = me then Function.update t key none else t

/-- What is left of an `Ownership` call or a heartbeat after its last completed
step; every constructor sits at an await point or a lock of its own. -/
inductive Call
  | acquired (lease : Lease)
  | released (key : StreamKey)
  | renewing (rest : List Lease)
  | lost (lease : Lease) (rest : List Lease)
deriving DecidableEq

/-- The lease table, its clock, and every replica's `LeasedOwnership`.
`issued` is a history variable: each stream's leases in the order they were
handed out, newest first. -/
structure World where
  now : Int
  table : Table
  ttl : ReplicaId → Int
  held : ReplicaId → List Lease
  calls : Nat → Option (ReplicaId × Call)
  issued : StreamKey → List (ReplicaId × Nat)

def insertHeld (held : List Lease) (lease : Lease) : List Lease :=
  lease :: held.filter (fun l => l.streamKey != lease.streamKey)

def removeHeld (held : List Lease) (key : StreamKey) : List Lease :=
  held.filter (fun l => l.streamKey != key)

/-- `ok` on a database step is false when the call fails; a failed call has no
effect on the table. -/
inductive Action
  | tick (elapsed : Nat)
  | tryAcquire (call : Nat) (me : ReplicaId) (key : StreamKey) (ok : Bool)
  | recordHeld (call : Nat)
  | renew (me : ReplicaId) (lease : Lease) (ok : Bool)
  | forgetHeld (call : Nat) (me : ReplicaId) (key : StreamKey)
  | release (call : Nat) (ok : Bool)
  | heartbeat (call : Nat) (me : ReplicaId) (leases : List Lease)
  | heartbeatRenew (call : Nat) (ok : Bool)
  | dropLost (call : Nat)
deriving DecidableEq

namespace World

def setCall (w : World) (call : Nat) (c : Option (ReplicaId × Call)) : World :=
  { w with calls := Function.update w.calls call c }

/-- `owns` answers from the mirror alone. -/
def owns (w : World) (me : ReplicaId) (key : StreamKey) : Bool :=
  (w.held me).any fun l => l.streamKey = key

/-- `try_acquire` up to the statement's reply. -/
def tryAcquire (w : World) (call : Nat) (me : ReplicaId) (key : StreamKey) (ok : Bool) :
    Option World :=
  match w.calls call with
  | some _ => none
  | none =>
    if ok then
      match tryAcquireSql w.now (w.ttl me) me key w.table with
      | (table, some epoch) =>
        some { w with
          table := table
          issued := Function.update w.issued key ((me, epoch) :: w.issued key)
          calls := Function.update w.calls call (some (me, .acquired ⟨key, epoch⟩)) }
      | (_, none) => some w
    else some w

def renew (w : World) (me : ReplicaId) (lease : Lease) (ok : Bool) : World × Bool :=
  if ok then
    match renewSql w.now (w.ttl me) me lease w.table with
    | (table, affected) => ({ w with table := table }, affected)
  else (w, false)

def step (w : World) : Action → Option World
  | .tick elapsed => some { w with now := w.now + elapsed }
  | .tryAcquire call me key ok => w.tryAcquire call me key ok
  | .recordHeld call =>
    match w.calls call with
    | some (me, .acquired lease) =>
      some { w.setCall call none with
        held := Function.update w.held me (insertHeld (w.held me) lease) }
    | _ => none
  | .renew me lease ok => some (w.renew me lease ok).1
  | .forgetHeld call me key =>
    match w.calls call with
    | none =>
      some { w.setCall call (some (me, .released key)) with
        held := Function.update w.held me (removeHeld (w.held me) key) }
    | some _ => none
  | .release call ok =>
    match w.calls call with
    | some (me, .released key) =>
      some { w.setCall call none with
        table := if ok then releaseSql me key w.table else w.table }
    | _ => none
  | .heartbeat call me leases =>
    -- a `HashMap` is iterated in no particular order
    match w.calls call with
    | none => if leases.Perm (w.held me) then some (w.setCall call (some (me, .renewing leases)))
      else none
    | some _ => none
  | .heartbeatRenew call ok =>
    match w.calls call with
    | some (me, .renewing (lease :: rest)) =>
      match w.renew me lease ok with
      | (w', true) => some (w'.setCall call (some (me, .renewing rest)))
      | (w', false) => some (w'.setCall call (some (me, .lost lease rest)))
    | some (_, .renewing []) => some (w.setCall call none)
    | _ => none
  | .dropLost call =>
    match w.calls call with
    | some (me, .lost lease rest) =>
      some { w.setCall call (some (me, .renewing rest)) with
        held := Function.update w.held me (removeHeld (w.held me) lease.streamKey) }
    | _ => none

end World

/-- Every replica has just connected; the table may hold any rows. -/
def World.start (now : Int) (table : Table) (ttl : ReplicaId → Int) : World :=
  ⟨now, table, ttl, fun _ => [], fun _ => none, fun _ => []⟩

end Leases
end Prospero
