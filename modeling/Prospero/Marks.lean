import Prospero.KubeFleet

namespace Prospero.Marks
open Prospero.SessionPlane (AgentRecord Endpoint Phase Proc ensurePodAgent)
open Prospero.KubeFleet (recreatedNames)

/-- A replica's watch loop: the uids it listed last, and in the middle of a
pass the names whose mark the pass is to drop. -/
structure Loop where
  lastUids : HashMap String String
  clearing : Option (List String)

/-- The session planes over the CRs, with each replica's watch loop. `crs` has
the uid of each CR. The last three are history variables: the uids that were
ever given out, the CR that each attach call was made for, and the CRs whose
pods an attach task has found terminal. -/
structure World where
  plane : SessionPlane.World
  crs : HashMap String String
  loops : ReplicaId → Loop
  used : List String
  incarnation : Nat → String
  observed : List String

/-- `reply` is a pod's `List` as it reaches an attach task, however late, with
the uid of the CR whose pod has sent it. -/
inductive Action
  | plane (a : SessionPlane.Action)
  | attach (id : Nat) (me : ReplicaId) (agent : String) (endpoint : Endpoint) (hasSpec : Bool)
      (uid : String)
  | reply (id : Nat) (records : List AgentRecord) (uid : String)
  | create (name uid : String)
  | delete (name : String)
  | list (me : ReplicaId)
  | clear (me : ReplicaId)
  | restart (me : ReplicaId)

/-- The names whose uid has changed, and those that were listed and no longer are. -/
def toClear (lastUids current : HashMap String String) : List String :=
  lastUids.keys.filter (fun name => (current.lookup name).isNone) ++ recreatedNames lastUids current

namespace World

def admits : SessionPlane.Action → Bool
  | .attach .. | .forgetGone .. | .restart _ => false
  | .list _ ok => !ok
  | _ => true

/-- The task goes on with the given reply, whatever its pod has become since. -/
def reply (w : World) (id : Nat) (records : List AgentRecord) (uid : String) : Option World :=
  (w.plane.procs id).bind fun p =>
    let pod := w.plane.pods p.agent p.addr
    ((w.plane.setPod p.agent p.addr { pod with registry := records }).step (.list id true)).map
      fun plane => { w with
        plane := { plane with pods := w.plane.pods }
        observed := match ensurePodAgent records p.hasSpec with
          | .terminal => uid :: w.observed
          | _ => w.observed }

def setLoop (w : World) (me : ReplicaId) (l : Loop) : World :=
  { w with loops := Function.update w.loops me l }

/-- `forget_terminal`, for each of the names. -/
def forget (w : World) (me : ReplicaId) (names : List String) : World :=
  { w with plane := { w.plane with
      terminal := Function.update w.plane.terminal me
        ((w.plane.terminal me).filter fun name => name ∉ names) } }

def step (w : World) : Action → Option World
  | .plane a => if admits a then (w.plane.step a).map fun p => { w with plane := p } else none
  | .attach id me agent endpoint hasSpec uid =>
    (w.plane.step (.attach id me agent endpoint hasSpec)).map fun p =>
      { w with plane := p, incarnation := Function.update w.incarnation id uid }
  | .reply id records uid => w.reply id records uid
  | .create name uid =>
    if w.crs.lookup name = none ∧ uid ∉ w.used then
      some { w with crs := w.crs.insert name uid, used := uid :: w.used }
    else none
  | .delete name => some { w with crs := w.crs.erase name }
  | .list me =>
    match (w.loops me).clearing with
    | none => some (w.setLoop me ⟨w.crs, some (toClear (w.loops me).lastUids w.crs)⟩)
    | some _ => none
  | .clear me =>
    match (w.loops me).clearing with
    | some names => some ((w.forget me names).setLoop me ⟨(w.loops me).lastUids, none⟩)
    | none => none
  | .restart me => (w.plane.step (.restart me)).map fun p =>
      { w with plane := p }.setLoop me ⟨∅, none⟩

end World

/-- No CR has been created yet. -/
def World.start (plane : SessionPlane.World) : World :=
  ⟨plane, ∅, fun _ => ⟨∅, none⟩, [], fun _ => "", []⟩

end Prospero.Marks
