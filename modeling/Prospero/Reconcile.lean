import Mathlib.Logic.Function.Basic
import Prospero.Event

namespace Prospero.Reconcile

/-- An agent id with its status, as caliband lists them and a snapshot keeps them. -/
abbrev Roster := List (String × AgentStatus)

/-- One event of the workspace; those of the workspace itself bear no agent id. -/
structure Entry where
  agentId : String
  kind : EventKind

/-- Where a `poll_repo_once`, an `rm_agent` or a `spawn_agent` stands. -/
inductive Phase
  | acquired (ownLifecycle : Bool)
  | listed (ownLifecycle : Bool) (records : Roster)
  | compared (ownLifecycle : Bool) (records prior : Roster)
  | reporting (ownLifecycle : Bool) (records : Roster) (pending : List Entry)
  | resolved (id : String)
  | removed (id : String)
  | pruned (id : String)
  | last (entry : Entry)

structure Call (π : Type) where
  process : π
  phase : Phase

/-- One workspace: its caliband, its lifecycle lease, and what each process has
in memory. `registry` is what caliband would list. An `emit` is one step here. -/
structure World (π : Type) where
  registry : Roster
  lease : Option π
  snapshot : π → Roster
  health : π → WorkspaceHealth
  attached : π → List String
  recentSpawns : π → List String
  calls : Nat → Option (Call π)
  log : List Entry

/-- The first four are the surroundings: what caliband's agents do, the lease
running out or being released, attach tasks that come and go, and a process
that dies and comes back. -/
inductive Action (π : Type)
  | caliband (id : String) (status : Option AgentStatus)
  | expire
  | attach (process : π) (ids : List String)
  | restart (process : π)
  | poll (call : Nat) (process : π)
  | unreachable (call : Nat) (reason : String)
  | list (call : Nat)
  | readPrior (call : Nat)
  | diff (call : Nat)
  | emit (call : Nat)
  | replace (call : Nat)
  | spawn (call : Nat) (process : π) (id : String)
  | rm (call : Nat) (process : π) (id : String)
  | remove (call : Nat) (ok : Bool)
  | prune (call : Nat)
  | acquireGone (call : Nat)

/-- The record loop of `reconcile`: new to the snapshot, or in another status. -/
def diffRecord (ownLifecycle : Bool) (prior : Roster) (attachedNow : List String)
    (rec : String × AgentStatus) : Option Entry :=
  match prior.lookup rec.1 with
  | none =>
    if ownLifecycle ∧ rec.1 ∉ attachedNow then some ⟨rec.1, .agentDiscovered⟩ else none
  | some old =>
    if ownLifecycle ∧ old ≠ rec.2 then some ⟨rec.1, .statusChanged old rec.2⟩ else none

/-- The loop over `prior.keys()`, which come in no order of note. -/
def diffGone (ownLifecycle : Bool) (records : Roster) (old : String × AgentStatus) :
    Option Entry :=
  if ownLifecycle ∧ records.lookup old.1 = none then some ⟨old.1, .agentGone⟩ else none

/-- Every event of a reconcile, in the order it awaits them. -/
def diff (ownLifecycle : Bool) (prior : Roster) (attachedNow : List String) (records : Roster) :
    List Entry :=
  records.filterMap (diffRecord ownLifecycle prior attachedNow) ++
    prior.filterMap (diffGone ownLifecycle records)

/-- caliband registers an agent, moves it to another status or drops it. -/
def register (registry : Roster) (id : String) (status : Option AgentStatus) : Roster :=
  registry.filter (fun a => a.1 ≠ id) ++ status.toList.map fun s => (id, s)

variable {π : Type} [DecidableEq π]

namespace World

/-- A lease that has run out goes to whoever asks next. -/
def tryAcquire (w : World π) (process : π) : World π × Bool :=
  match w.lease with
  | none => ({ w with lease := some process }, true)
  | some owner => (w, owner = process)

def setCall (w : World π) (call : Nat) (x : Option (Call π)) : World π :=
  { w with calls := Function.update w.calls call x }

def goTo (w : World π) (call : Nat) (process : π) (phase : Phase) : World π :=
  w.setCall call (some ⟨process, phase⟩)

/-- One event is left to emit, or none. -/
def finish (w : World π) (call : Nat) (process : π) (last : Option Entry) : World π :=
  w.setCall call (last.map fun e => ⟨process, .last e⟩)

def restart (w : World π) (process : π) : World π :=
  { w with
    snapshot := Function.update w.snapshot process []
    health := Function.update w.health process .healthy
    attached := Function.update w.attached process []
    recentSpawns := Function.update w.recentSpawns process []
    calls := fun call => (w.calls call).filter fun x => x.process ≠ process }

def markUnreachable (w : World π) (call : Nat) (process : π) (own : Bool) (reason : String) :
    World π :=
  if w.health process ≠ .unreachable reason then
    { w.finish call process
        (if own then some ⟨"", .repoHealth (.unreachable reason)⟩ else none) with
      health := Function.update w.health process (.unreachable reason) }
  else w.finish call process none

/-- The end of a reconcile: one critical section, then at most one more event. -/
def replace (w : World π) (call : Nat) (process : π) (own : Bool) (records : Roster) : World π :=
  { w.finish call process
      (if w.health process ≠ .healthy ∧ own then some ⟨"", .repoHealth .healthy⟩ else none) with
    snapshot := Function.update w.snapshot process records
    health := Function.update w.health process .healthy
    recentSpawns := Function.update w.recentSpawns process
      ((w.recentSpawns process).filter fun id => records.lookup id = none) }

def append (w : World π) (e : Entry) : World π := { w with log := w.log ++ [e] }

/-- `repo_of`: the snapshot, or else the spawns it has yet to show. -/
def knows (w : World π) (process : π) (id : String) : Bool :=
  (w.snapshot process).any (fun a => a.1 = id) || (w.recentSpawns process).contains id

def prune (w : World π) (call : Nat) (process : π) (id : String) : World π :=
  let w' := { w with
    snapshot := Function.update w.snapshot process
      ((w.snapshot process).filter fun a => a.1 ≠ id)
    recentSpawns := Function.update w.recentSpawns process
      ((w.recentSpawns process).filter fun s => s ≠ id) }
  if (w.snapshot process).any fun a => a.1 = id then w'.goTo call process (.pruned id)
  else w'.setCall call none

def acquireGone (w : World π) (call : Nat) (process : π) (id : String) : World π :=
  let (w', own) := w.tryAcquire process
  w'.finish call process (if own then some ⟨id, .agentGone⟩ else none)

def begin (w : World π) (call : Nat) : Option Unit :=
  match w.calls call with
  | none => some ()
  | some _ => none

def step (w : World π) : Action π → Option (World π)
  | .caliband id status => some { w with registry := register w.registry id status }
  | .expire => some { w with lease := none }
  | .attach process ids => some { w with attached := Function.update w.attached process ids }
  | .restart process => some (w.restart process)
  | .poll call process => (w.begin call).map fun _ =>
    let (w', own) := w.tryAcquire process
    w'.goTo call process (.acquired own)
  | .unreachable call reason => (w.calls call).bind fun x =>
    match x.phase with
    | .acquired own => some (w.markUnreachable call x.process own reason)
    | _ => none
  | .list call => (w.calls call).bind fun x =>
    match x.phase with
    | .acquired own => some (w.goTo call x.process (.listed own w.registry))
    | _ => none
  | .readPrior call => (w.calls call).bind fun x =>
    match x.phase with
    | .listed own records =>
      some (w.goTo call x.process (.compared own records (w.snapshot x.process)))
    | _ => none
  | .diff call => (w.calls call).bind fun x =>
    match x.phase with
    | .compared own records prior =>
      some (w.goTo call x.process
        (.reporting own records (diff own prior (w.attached x.process) records)))
    | _ => none
  | .emit call => (w.calls call).bind fun x =>
    match x.phase with
    | .reporting own records (e :: pending) =>
      some ((w.append e).goTo call x.process (.reporting own records pending))
    | .last e => some ((w.append e).setCall call none)
    | _ => none
  | .replace call => (w.calls call).bind fun x =>
    match x.phase with
    | .reporting own records [] => some (w.replace call x.process own records)
    | _ => none
  | .spawn call process id => (w.begin call).map fun _ =>
    { w.goTo call process (.last ⟨id, .agentSpawned⟩) with
      registry := register w.registry id (some .spawning)
      recentSpawns := Function.update w.recentSpawns process (id :: w.recentSpawns process) }
  | .rm call process id => (w.begin call).bind fun _ =>
    if w.knows process id then some (w.goTo call process (.resolved id)) else none
  | .remove call ok => (w.calls call).bind fun x =>
    match x.phase with
    | .resolved id =>
      if ok then
        some { w.goTo call x.process (.removed id) with registry := register w.registry id none }
      else some (w.setCall call none)
    | _ => none
  | .prune call => (w.calls call).bind fun x =>
    match x.phase with
    | .removed id => some (w.prune call x.process id)
    | _ => none
  | .acquireGone call => (w.calls call).bind fun x =>
    match x.phase with
    | .pruned id => some (w.acquireGone call x.process id)
    | _ => none

end World

/-- Every process has just started, over the given log and registry. -/
def World.start (registry : Roster) (log : List Entry) : World π :=
  ⟨registry, none, fun _ => [], fun _ => .healthy, fun _ => [], fun _ => [], fun _ => none, log⟩

end Prospero.Reconcile
