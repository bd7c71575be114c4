import Prospero.Reconcile

namespace Prospero.Spawning
open Prospero.Reconcile (Entry Roster register)

/-- How far a `spawn_agent_with_socket` has got. caliband lists the agent from
`registered` on; the process learns of it with `replied`. -/
inductive Stage
  | requested
  | registered (id : String)
  | replied (id : String)
  | announced (id : String)

/-- `timed` is whether `deadline_from` makes a deadline of the request. -/
structure Spawn (π : Type) where
  process : π
  timed : Bool
  stage : Stage

/-- What is left of a run of `start_attach` calls. `leasing` is true when the
first of them has found its agent not attached and awaits the agent's lease. -/
structure Starting (π : Type) where
  process : π
  ids : List String
  leasing : Bool

/-- The reconciles of every process, with its spawns and attach tasks step by
step. `attachedNow` is the copy that a reconcile makes of the attached set;
`emitted` is a history variable: every event, and which process emitted it. -/
structure World (π : Type) where
  fleet : Reconcile.World π
  attachedNow : Nat → List String
  spawns : Nat → Option (Spawn π)
  starts : Nat → Option (Starting π)
  emitted : List (π × Entry)

/-- `fail` is a `Spawn` request that caliband refuses, or whose reply is lost. -/
inductive Action (π : Type)
  | fleet (a : Reconcile.Action π)
  | spawn (call : Nat) (process : π) (timed : Bool)
  | register (call : Nat) (id : String)
  | fail (call : Nat)
  | reply (call : Nat)
  | announce (call : Nat)
  | setDeadline (call : Nat) (deadline : String)
  | check (call : Nat)
  | lease (call : Nat) (ok : Bool)
  | ended (process : π) (id : String)

/-- The agents that a reconcile attaches once its snapshot is written. -/
def toAttach (records : Roster) (attachedNow : List String) : List String :=
  (records.filter fun rec => !rec.2.isTerminal && !attachedNow.contains rec.1).map Prod.fst

/-- The event that a reconcile or a removal emits, and its process. -/
def spoken {π : Type} (f : Reconcile.World π) : Reconcile.Action π → Option (π × Entry)
  | .emit call => (f.calls call).bind fun x =>
    match x.phase with
    | .reporting _ _ (e :: _) => some (x.process, e)
    | .last e => some (x.process, e)
    | _ => none
  | _ => none

variable {π : Type} [DecidableEq π]

namespace World

def setSpawn (w : World π) (call : Nat) (x : Option (Spawn π)) : World π :=
  { w with spawns := Function.update w.spawns call x }

def setStart (w : World π) (call : Nat) (x : Option (Starting π)) : World π :=
  { w with starts := Function.update w.starts call x }

def setAttached (w : World π) (process : π) (ids : List String) : World π :=
  { w with fleet := { w.fleet with attached := Function.update w.fleet.attached process ids } }

def emit (w : World π) (process : π) (e : Entry) : World π :=
  { w with fleet := w.fleet.append e, emitted := w.emitted ++ [(process, e)] }

/-- The spawns and attach tasks have their own steps here, and no process
starts over. -/
def admits (w : World π) : Reconcile.Action π → Bool
  | .attach _ _ | .spawn _ _ _ | .restart _ => false
  | .replace call => (w.starts call).isNone
  | _ => true

def nowAttached (w : World π) : Reconcile.Action π → Nat → List String
  | .diff call =>
    match w.fleet.calls call with
    | some x => Function.update w.attachedNow call (w.fleet.attached x.process)
    | none => w.attachedNow
  | _ => w.attachedNow

def nowStarts (w : World π) : Reconcile.Action π → Nat → Option (Starting π)
  | .replace call =>
    match w.fleet.calls call with
    | some ⟨process, .reporting _ records _⟩ =>
      Function.update w.starts call (some ⟨process, toAttach records (w.attachedNow call), false⟩)
    | _ => w.starts
  | _ => w.starts

/-- The spawn has nothing left to do but `start_attach`. -/
def attach (w : World π) (call : Nat) (process : π) (id : String) : World π :=
  (w.setSpawn call none).setStart call (some ⟨process, [id], false⟩)

def step (w : World π) : Action π → Option (World π)
  | .fleet a =>
    if w.admits a then
      (w.fleet.step a).map fun f =>
        { w with
          fleet := f
          attachedNow := w.nowAttached a
          starts := w.nowStarts a
          emitted := w.emitted ++ (spoken w.fleet a).toList }
    else none
  | .spawn call process timed =>
    match w.spawns call, w.starts call with
    | none, none => some (w.setSpawn call (some ⟨process, timed, .requested⟩))
    | _, _ => none
  | .register call id => (w.spawns call).bind fun x =>
    match x.stage with
    | .requested =>
      some { w.setSpawn call (some { x with stage := .registered id }) with
        fleet := { w.fleet with registry := register w.fleet.registry id (some .spawning) } }
    | _ => none
  | .fail call => (w.spawns call).bind fun x =>
    match x.stage with
    | .requested | .registered _ => some (w.setSpawn call none)
    | _ => none
  | .reply call => (w.spawns call).bind fun x =>
    match x.stage with
    | .registered id =>
      some { w.setSpawn call (some { x with stage := .replied id }) with
        fleet := { w.fleet with
          recentSpawns := Function.update w.fleet.recentSpawns x.process
            (id :: w.fleet.recentSpawns x.process) } }
    | _ => none
  | .announce call => (w.spawns call).bind fun x =>
    match x.stage with
    | .replied id =>
      let w' := w.emit x.process ⟨id, .agentSpawned⟩
      if x.timed then some (w'.setSpawn call (some { x with stage := .announced id }))
      else some (w'.attach call x.process id)
    | _ => none
  | .setDeadline call deadline => (w.spawns call).bind fun x =>
    match x.stage with
    | .announced id =>
      some ((w.emit x.process ⟨id, .deadlineSet deadline⟩).attach call x.process id)
    | _ => none
  | .check call => (w.starts call).bind fun x =>
    match x.ids, x.leasing with
    | [], false => some (w.setStart call none)
    | id :: ids, false =>
      if id ∈ w.fleet.attached x.process then some (w.setStart call (some { x with ids := ids }))
      else some (w.setStart call (some { x with leasing := true }))
    | _, true => none
  | .lease call ok => (w.starts call).bind fun x =>
    match x.ids, x.leasing with
    | id :: ids, true =>
      let w' := w.setStart call (some ⟨x.process, ids, false⟩)
      -- where another `start_attach` has come first, its task keeps the lease
      if ok ∧ id ∉ w.fleet.attached x.process then
        some (w'.setAttached x.process (id :: w.fleet.attached x.process))
      else some w'
    | _, _ => none
  | .ended process id =>
    if id ∈ w.fleet.attached process then
      some (w.setAttached process ((w.fleet.attached process).filter (· ≠ id)))
    else none

end World

/-- The processes have just started, over the given log and registry. -/
def World.start (registry : Roster) (log : List Entry) : World π :=
  ⟨Reconcile.World.start registry log, fun _ => [], fun _ => none, fun _ => none, []⟩

end Prospero.Spawning
