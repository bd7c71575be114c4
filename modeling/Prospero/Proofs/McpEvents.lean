import Mathlib.Algebra.GroupWithZero.Nat
import Prospero.Lib.Machine
import Prospero.McpEvents
import Prospero.Proofs.JsonlStore

namespace Prospero.Proofs.McpEvents
open Prospero.McpEvents
open Proofs.Store (append_eq_ok append_nodup eq_of_seq mem_replay replay_sorted)

section Replay

variable {log : List FleetEvent} {key : StreamKey} {place place' : Nat}

theorem replay_perm (log : List FleetEvent) (key : StreamKey) (place : Nat) :
    (Store.replay log key place).Perm
      (log.filter fun e => e.streamKey = key ∧ place ≤ e.seq) :=
  List.perm_insertionSort _ _

/-- A replay from a later place is the rest of one from an earlier place. -/
theorem replay_later (h : (log.map FleetEvent.key).Nodup) (hle : place ≤ place') :
    Store.replay log key place' = (Store.replay log key place).filter (place' ≤ ·.seq) := by
  have hperm : (Store.replay log key place').Perm
      ((Store.replay log key place).filter (place' ≤ ·.seq)) := by
    refine (replay_perm log key place').trans ?_
    refine .trans ?_ ((replay_perm log key place).filter _).symm
    rw [List.filter_filter]
    apply List.Perm.of_eq
    apply List.filter_congr
    intro e _
    rw [← Bool.decide_and]
    apply decide_eq_decide.mpr
    constructor
    · rintro ⟨hkey, hseq⟩
      exact ⟨hseq, hkey, hle.trans hseq⟩
    · rintro ⟨hseq, hkey, -⟩
      exact ⟨hkey, hseq⟩
  exact hperm.eq_of_pairwise (fun a b _ _ hab hba => absurd (hab.trans hba) (Nat.lt_irrefl _))
    (replay_sorted h key place') ((replay_sorted h key place).filter _)

/-- The next page begins with what this one left. -/
theorem replay_next (h : (log.map FleetEvent.key).Nodup) (n : Nat) :
    Store.replay log key
        (Paging.next FleetEvent.seq place ((Store.replay log key place).take n)) =
      (Store.replay log key place).drop n := by
  have hplace : ∀ e ∈ Store.replay log key place, place ≤ e.seq :=
    fun e he => (mem_replay.mp he).2.2
  rw [replay_later h (Paging.le_next fun e he => hplace e (List.mem_of_mem_take he))]
  exact Paging.filter_next (replay_sorted h key place) hplace n

theorem replay_snoc (e : FleetEvent) : (Store.replay (log ++ [e]) key place).Perm
    (Store.replay log key place ++ if e.streamKey = key ∧ place ≤ e.seq then [e] else []) := by
  refine (replay_perm _ _ _).trans ?_
  rw [List.filter_append]
  refine ((replay_perm log key place).symm.append_right _).trans (List.Perm.of_eq ?_)
  congr 1
  by_cases he : e.streamKey = key ∧ place ≤ e.seq
  · simp [he]
  · simp [he]

theorem replay_filter (p : FleetEvent → Bool) :
    (Store.replay (log.filter p) key place).Perm ((Store.replay log key place).filter p) := by
  refine (replay_perm _ _ _).trans (.trans ?_ ((replay_perm log key place).filter p).symm)
  rw [List.filter_filter, List.filter_filter]
  apply List.Perm.of_eq
  apply List.filter_congr
  intro e _
  exact Bool.and_comm _ _

end Replay

section Runs

/-- What the agent's history has had is what the client was told of, in order, what it was
too far on for, what was pruned before it, and what is yet to come. -/
structure Accounted (w : World) : Prop where
  counted : w.ever.Perm
    (w.told ++ w.late ++ w.gone ++ Store.replay w.log w.agent w.cursor)
  ordered : w.told.Pairwise fun a b => a.seq < b.seq
  below : ∀ e ∈ w.told, e.seq < w.cursor

structure Inv (w : World) : Prop where
  keys : (w.log.map FleetEvent.key).Nodup
  origin : w.origin ≤ w.cursor
  accounted : Accounted w

variable {w w' : World}

theorem Inv.start {agent : String} {log : List FleetEvent}
    (h : (log.map FleetEvent.key).Nodup) (origin : Nat) : Inv (World.start agent log origin) :=
  ⟨h, Nat.le_refl _, List.Perm.refl _, List.Pairwise.nil, List.forall_mem_nil _⟩

/-- What a call on the store as it stands comes to. -/
theorem call_eq (w : World) (limit : Option Nat) :
    w.call limit (fun key fromSeq => .ok (Store.replay w.log key fromSeq)) =
      { w with
        last := some (.ok ⟨(Store.replay w.log w.agent w.cursor).take (width limit),
          decide (width limit < (Store.replay w.log w.agent w.cursor).length),
          ((Store.replay w.log w.agent w.cursor).take (width limit)).getLast?.map (·.seq + 1)⟩)
        cursor := Paging.next FleetEvent.seq w.cursor
          ((Store.replay w.log w.agent w.cursor).take (width limit))
        told := w.told ++ (Store.replay w.log w.agent w.cursor).take (width limit) } := rfl

theorem Inv.call (h : Inv w) (limit : Option Nat) :
    Inv (w.call limit fun key fromSeq => .ok (Store.replay w.log key fromSeq)) := by
  have hsorted := replay_sorted h.keys w.agent w.cursor
  have hplace : ∀ e ∈ Store.replay w.log w.agent w.cursor, w.cursor ≤ e.seq :=
    fun e he => (mem_replay.mp he).2.2
  have hle : w.cursor ≤ Paging.next FleetEvent.seq w.cursor
      ((Store.replay w.log w.agent w.cursor).take (width limit)) :=
    Paging.le_next fun e he => hplace e (List.mem_of_mem_take he)
  rw [call_eq]
  refine ⟨h.keys, h.origin.trans hle, ?_, ?_, ?_⟩
  · refine h.accounted.counted.trans ?_
    simp only [replay_next h.keys]
    nth_rewrite 1 [← List.take_append_drop (width limit)
      (Store.replay w.log w.agent w.cursor)]
    rw [← List.append_assoc]
    refine List.Perm.append_right _ ?_
    simp only [List.append_assoc]
    refine List.Perm.append_left _ ?_
    rw [← List.append_assoc, ← List.append_assoc]
    refine List.perm_append_comm.trans ?_
    rw [List.append_assoc]
  · apply List.pairwise_append.mpr
    refine ⟨h.accounted.ordered, hsorted.sublist (List.take_sublist _ _), ?_⟩
    intro a ha b hb
    exact (h.accounted.below a ha).trans_le (hplace b (List.mem_of_mem_take hb))
  · intro e he
    rcases List.mem_append.mp he with he | he
    · exact (h.accounted.below e he).trans_le hle
    · exact Paging.lt_next (hsorted.sublist (List.take_sublist _ _)) e he

theorem Inv.fail (h : Inv w) (limit : Option Nat) (e : CoreError) :
    Inv (w.call limit fun _ _ => .error e) :=
  ⟨h.keys, h.origin, h.accounted.counted, h.accounted.ordered, h.accounted.below⟩

theorem Inv.append (h : Inv w) (e : FleetEvent) : Inv (w.append e) := by
  unfold World.append
  cases hlog : Store.append e w.log with
  | error _ => exact h
  | ok log =>
    have hkeys := append_nodup h.keys hlog
    obtain ⟨-, rfl⟩ := append_eq_ok.mp hlog
    have hreplay : (Store.replay (w.log ++ [e]) w.agent w.cursor).Perm
        (Store.replay w.log w.agent w.cursor ++
          if e.streamKey = w.agent ∧ w.cursor ≤ e.seq then [e] else []) := replay_snoc e
    dsimp only
    split
    · rename_i he
      refine ⟨hkeys, h.origin, ?_, h.accounted.ordered, h.accounted.below⟩
      have hcounted := h.accounted.counted.append_right [e]
      dsimp only
      split
      · rename_i hlate
        rw [if_neg fun hahead => absurd hahead.2 (Nat.not_le.mpr hlate), List.append_nil] at hreplay
        refine hcounted.trans (.trans ?_ (hreplay.symm.append_left _))
        simp only [List.append_assoc]
        refine List.Perm.append_left _ (List.Perm.append_left _ ?_)
        rw [← List.append_assoc]
        exact List.perm_append_comm
      · rename_i hahead
        rw [if_pos ⟨he.1, Nat.not_lt.mp hahead⟩] at hreplay
        refine hcounted.trans (.trans ?_ (hreplay.symm.append_left _))
        rw [List.append_assoc]
    · rename_i he
      rw [if_neg fun hahead => he ⟨hahead.1, h.origin.trans hahead.2⟩, List.append_nil] at hreplay
      exact ⟨hkeys, h.origin, h.accounted.counted.trans (hreplay.symm.append_left _),
        h.accounted.ordered, h.accounted.below⟩

theorem Inv.prune (h : Inv w) (beforeTs : String) : Inv (w.prune beforeTs) := by
  refine ⟨h.keys.sublist (List.filter_sublist.map _), h.origin, ?_, h.accounted.ordered,
    h.accounted.below⟩
  refine h.accounted.counted.trans ?_
  rw [World.prune]
  dsimp only
  rw [← List.append_assoc (w.told ++ w.late), List.append_assoc (w.told ++ w.late ++ w.gone)]
  refine List.Perm.append_left _ ?_
  refine .trans ?_ ((replay_filter _).symm.append_left _)
  exact (List.perm_append_comm.trans (List.filter_append_perm _ _)).symm

theorem Inv.step (h : Inv w) {a : Action} (hs : w.step a = some w') : Inv w' := by
  cases a with
  | call limit =>
    cases hs
    exact h.call limit
  | fail limit e =>
    cases hs
    exact h.fail limit e
  | append e =>
    cases hs
    exact h.append e
  | prune beforeTs =>
    cases hs
    exact h.prune beforeTs

end Runs

section Quiet

/-- So many events, or as many as there were, have been read between two states. -/
structure Read (n : Nat) (w w' : World) : Prop where
  inv : Inv w'
  told : w'.told = w.told ++ (Store.replay w.log w.agent w.cursor).take n
  ahead : Store.replay w'.log w'.agent w'.cursor =
    (Store.replay w.log w.agent w.cursor).drop n

variable {w w' : World}

theorem Read.call {n : Nat} (h : Read n w w') (limit : Option Nat) :
    Read (n + width limit) w
      (w'.call limit fun key fromSeq => .ok (Store.replay w'.log key fromSeq)) := by
  refine ⟨h.inv.call limit, ?_, ?_⟩
  · rw [call_eq, h.told, h.ahead, List.append_assoc, List.take_add]
  · rw [call_eq]
    simp only [replay_next h.inv.keys]
    rw [h.ahead, List.drop_drop]

end Quiet

end Prospero.Proofs.McpEvents
