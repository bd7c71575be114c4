import Prospero.Proofs.Attach
import Prospero.Proofs.FleetManager
import Prospero.Reattach

namespace Prospero.Proofs.Reattach
open Prospero.Reattach
open Prospero.Proofs.Attach (step_spec arrived image)
open Numbered

/-- No frame has two events in the agent's durable history. -/
def FramesOnce (w : World) : Prop :=
  (w.history.map Prod.snd).Nodup

/-- What a task records was not recorded by another task of the agent. -/
def FreshFrame (w : World) : Action → Prop
  | .record id true => ∀ frame rest, w.pending id = frame :: rest →
      ∀ other, (other, frame.1) ∈ w.history → other = id
  | _ => True

def recordedBy (history : List (Nat × Nat)) (id : Nat) : List Nat :=
  (history.filter (·.1 = id)).map Prod.snd

/-- Frames a task recorded, then those it has at hand: in stream order, each
once, and none past its mark. -/
structure TaskOk (recorded pending : List Nat) (framesSeen : Nat) : Prop where
  increasing : (recorded ++ pending).Pairwise (· < ·)
  seen : ∀ n ∈ recorded ++ pending, n ≤ framesSeen

structure Inv (w : World) : Prop where
  once : FramesOnce w
  tasks : ∀ id, TaskOk (recordedBy w.history id) ((w.pending id).map Prod.fst)
    (w.loops id).framesSeen

section Task

variable {recorded pending : List Nat} {framesSeen : Nat}

theorem TaskOk.drop {n : Nat} (h : TaskOk recorded (n :: pending) framesSeen) :
    TaskOk recorded pending framesSeen := by
  have hsub : (recorded ++ pending).Sublist (recorded ++ n :: pending) :=
    (List.sublist_cons_self n pending).append_left recorded
  exact ⟨h.increasing.sublist hsub, fun m hm => h.seen m (hsub.subset hm)⟩

theorem TaskOk.record {n : Nat} (h : TaskOk recorded (n :: pending) framesSeen) :
    TaskOk (recorded ++ [n]) pending framesSeen := by
  have heq : recorded ++ [n] ++ pending = recorded ++ n :: pending := by simp
  exact ⟨heq ▸ h.increasing, heq ▸ h.seen⟩

theorem TaskOk.fresh {n : Nat} (h : TaskOk recorded (n :: pending) framesSeen) :
    n ∉ recorded := by
  intro hm
  have hlt := (List.pairwise_append.mp h.increasing).2.2 n hm n List.mem_cons_self
  omega

/-- A connection brings frames past the mark, in order, and raises the mark. -/
theorem TaskOk.connect {α β : Type*} {f : α → Option β} {lines : List α}
    (h : TaskOk recorded [] framesSeen) :
    TaskOk recorded ((images f framesSeen (lines.drop framesSeen)).map Prod.fst)
      (max framesSeen lines.length) := by
  have hplace : ∀ n ∈ (images f framesSeen (lines.drop framesSeen)).map Prod.fst,
      framesSeen < n ∧ n ≤ max framesSeen lines.length := by
    intro n hn
    obtain ⟨p, hp, rfl⟩ := List.mem_map.mp hn
    have hb := place_of_mem hp
    simp only [List.length_drop] at hb
    omega
  have hold : ∀ n ∈ recorded, n ≤ framesSeen := fun n hn => h.seen n (by simpa using hn)
  constructor
  · apply List.pairwise_append.mpr
    refine ⟨by simpa using h.increasing, places_increase _, ?_⟩
    intro m hm n hn
    exact Nat.lt_of_le_of_lt (hold m hm) (hplace n hn).1
  · intro n hn
    rcases List.mem_append.mp hn with hn | hn
    · exact Nat.le_trans (hold n hn) (Nat.le_max_left ..)
    · exact (hplace n hn).2

end Task

section Step

variable {w w' : World}

theorem recordedBy_append (history : List (Nat × Nat)) (id other n : Nat) :
    recordedBy (history ++ [(id, n)]) other =
      recordedBy history other ++ if id = other then [n] else [] := by
  unfold recordedBy
  rw [List.filter_append, List.map_append]
  by_cases h : id = other <;> simp [h]

theorem Inv.step (h : Inv w) {a : Action} (hok : FreshFrame w a) (hs : w.step a = some w') :
    Inv w' := by
  cases a with
  | fleet a =>
    simp only [World.step] at hs
    split at hs
    · obtain ⟨f, _, rfl⟩ := Option.map_eq_some_iff.mp hs
      exact ⟨h.once, h.tasks⟩
    · cases hs
  | connect id c =>
    simp only [World.step] at hs
    split at hs
    · rename_i hrun
      obtain ⟨l, hl, rfl⟩ := Option.map_eq_some_iff.mp hs
      obtain ⟨hseen, hem⟩ := step_spec hl
      refine ⟨h.once, ?_⟩
      intro other
      by_cases he : other = id
      · subst he
        have htask := h.tasks other
        rw [List.isEmpty_iff.mp hrun.2] at htask
        simp only [Function.update_self, hseen, hem, List.nil_append]
        exact htask.connect
      · simp only [Function.update_of_ne he]
        exact h.tasks other
    · cases hs
  | record id ok =>
    simp only [World.step] at hs
    split at hs
    · split at hs
      · cases hs
      · rename_i frame rest hpending
        cases hs
        have htask := h.tasks id
        rw [hpending, List.map_cons] at htask
        cases ok with
        | false =>
          refine ⟨h.once, ?_⟩
          intro other
          by_cases he : other = id
          · subst he
            simp only [Function.update_self]
            exact htask.drop
          · simp only [Function.update_of_ne he]
            exact h.tasks other
        | true =>
          constructor
          · have hnew : frame.1 ∉ w.history.map Prod.snd := by
              intro hm
              obtain ⟨⟨other, n⟩, hin, rfl⟩ := List.mem_map.mp hm
              have hown := hok frame rest hpending other hin
              subst hown
              apply htask.fresh
              exact List.mem_map.mpr ⟨_, List.mem_filter.mpr ⟨hin, by simp⟩, rfl⟩
            simp only [FramesOnce, if_true, List.map_append, List.map_cons, List.map_nil]
            refine List.nodup_append.mpr ⟨h.once, by simp, ?_⟩
            intro a ha b hb he
            rw [List.mem_singleton.mp hb] at he
            exact hnew (he ▸ ha)
          · intro other
            simp only [if_true, recordedBy_append]
            by_cases he : other = id
            · subst he
              simp only [Function.update_self, if_true]
              exact htask.record
            · simp only [Function.update_of_ne he, Ne.symm he, if_false, List.append_nil]
              exact h.tasks other
    · cases hs

end Step

theorem Inv.start (fleet : FleetManager.World) (agent : String) (target : Attach.Target) :
    Inv (World.start fleet agent target) := by
  refine ⟨List.nodup_nil, ?_⟩
  intro id
  exact ⟨List.Pairwise.nil, by simp [World.start, recordedBy]⟩

def attachOn (id : Nat) (me : ReplicaId) : List Action :=
  [.fleet (.startAttach id me "x"), .fleet (.tryAcquire id true), .fleet (.recordHeld id),
    .fleet (.reserve id)]

def detach (id : Nat) : List Action :=
  [.fleet (.exit id), .fleet (.forgetHeld id), .fleet (.release id true)]

/-- The first connection drops after the answer, the second brings the rest. -/
def reconnected : List Action :=
  attachOn 0 "a" ++ [.connect 0 ⟨some (50, .readError), .quiet⟩, .record 0 true,
    .connect 0 ⟨some (200, .eof), .quiet⟩, .record 0 true] ++ detach 0

end Prospero.Proofs.Reattach
