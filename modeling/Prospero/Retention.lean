import Prospero.Emitter
import Prospero.Lib.Machine

namespace Prospero.Retention

variable {π : Type} [DecidableEq π]

/-- The emitters over a log that retention prunes. `stored` is a history
variable: every event that was ever in the log, in the order of the `INSERT`s. -/
structure World (π : Type) where
  emitter : Emitter.World π
  stored : List FleetEvent

inductive Action (π : Type)
  | emitter (a : Emitter.Action π)
  | prune (beforeTs : String)
  | restart (process : π)

namespace World

/-- The process dies in the middle of whatever it was writing, and comes back
with no counter. -/
def restart (w : Emitter.World π) (process : π) : Emitter.World π :=
  { w with
    seqs := Function.update w.seqs process fun _ => none
    writes := fun id => (w.writes id).map fun x =>
      if x.process = process then { x with phase := .done } else x }

def prune (w : Emitter.World π) (beforeTs : String) : Emitter.World π :=
  { w with log := w.log.filter fun r => Store.survives beforeTs r.event }

def step (w : World π) : Action π → Option (World π)
  | .emitter a => (w.emitter.step a).map fun e =>
      ⟨e, w.stored ++ (e.log.drop w.emitter.log.length).map Emitter.Row.event⟩
  | .prune beforeTs => some { w with emitter := prune w.emitter beforeTs }
  | .restart process => some { w with emitter := restart w.emitter process }

end World

def World.start (log : List FleetEvent) : World π :=
  ⟨Emitter.World.start log, log⟩

end Prospero.Retention
