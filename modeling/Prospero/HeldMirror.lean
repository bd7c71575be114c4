import Prospero.Leases

namespace Prospero.HeldMirror
open Prospero.Leases

/-- The stream's lease row is another replica's. -/
def foreign (t : Table) (me : ReplicaId) (key : StreamKey) : Bool :=
  match t key with
  | some row => row.owner ≠ me
  | none => false

/-- The leases with three history variables. `acquired`: the last acquire or
release that a replica completed on a stream acquired it, and nobody else has
acquired it since. The other two are about the time since the row became
another's: `begun` has the heartbeats the replica has begun, and `noticed` is
true once it has completed one of them or failed to acquire the stream. -/
structure World where
  leases : Leases.World
  acquired : ReplicaId → StreamKey → Bool
  begun : ReplicaId → StreamKey → List Nat
  noticed : ReplicaId → StreamKey → Bool

namespace World

/-- A database call that fails is not completed. -/
def nowAcquired (w : World) (l : Leases.World) : Action → ReplicaId → StreamKey → Bool
  | .tryAcquire call me key true => fun r k =>
    if k = key then
      if (l.calls call).isSome then r = me else r ≠ me && w.acquired r k
    else w.acquired r k
  | .release call true => fun r k =>
    w.acquired r k && w.leases.calls call ≠ some (r, .released k)
  | _ => w.acquired

def nowBegun (w : World) (a : Action) (r : ReplicaId) (k : StreamKey) : List Nat :=
  match a with
  | .heartbeat call me _ => if r = me then call :: w.begun r k else w.begun r k
  | _ => w.begun r k

/-- The end of a heartbeat of the replica's that was begun in time, or an
acquire of its own that comes back empty-handed. -/
def notices (w : World) (l : Leases.World) (a : Action) (r : ReplicaId) (k : StreamKey) : Bool :=
  match a with
  | .tryAcquire call me key _ => r = me && k = key && (l.calls call).isNone
  | .heartbeatRenew call _ =>
    w.leases.calls call = some (r, .renewing []) && (w.begun r k).contains call
  | _ => false

def observe (w : World) (a : Action) (l : Leases.World) : World where
  leases := l
  acquired := w.nowAcquired l a
  begun := fun r k => if foreign l.table r k then w.nowBegun a r k else []
  noticed := fun r k => foreign l.table r k && (w.noticed r k || w.notices l a r k)

def step (w : World) (a : Action) : Option World :=
  (w.leases.step a).map (w.observe a)

end World

def World.start (now : Int) (table : Table) (ttl : ReplicaId → Int) : World :=
  ⟨Leases.World.start now table ttl, fun _ _ => false, fun _ _ => [], fun _ _ => false⟩

end Prospero.HeldMirror
