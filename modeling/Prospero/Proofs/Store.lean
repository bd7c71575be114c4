import Prospero.Store

namespace Prospero.Proofs.Store

theorem append_eq_ok {e : FleetEvent} {log log' : List FleetEvent} :
    Store.append e log = .ok log' ↔
      e.key ∉ log.map FleetEvent.key ∧ log' = log ++ [e] := by
  rw [← KeyedLog.insert?_eq_some]
  unfold Store.append
  cases KeyedLog.insert? FleetEvent.key e log <;> simp [eq_comm]

theorem append_nodup {e : FleetEvent} {log log' : List FleetEvent}
    (hl : (log.map FleetEvent.key).Nodup) (h : Store.append e log = .ok log') :
    (log'.map FleetEvent.key).Nodup :=
  KeyedLog.nodup_insert? hl (KeyedLog.insert?_eq_some.mpr (append_eq_ok.mp h))

theorem mem_replay {log : List FleetEvent} {key : StreamKey} {fromSeq : Nat} {e : FleetEvent} :
    e ∈ Store.replay log key fromSeq ↔ e ∈ log ∧ e.streamKey = key ∧ fromSeq ≤ e.seq := by
  simp [Store.replay, List.mem_insertionSort]

/-- On a log with unique keys the order of a replay is strict. -/
theorem replay_sorted {log : List FleetEvent} (h : (log.map FleetEvent.key).Nodup)
    (key : StreamKey) (fromSeq : Nat) :
    (Store.replay log key fromSeq).Pairwise fun a b => a.seq < b.seq := by
  have hle : (Store.replay log key fromSeq).Pairwise fun a b => a.seq ≤ b.seq :=
    List.pairwise_insertionSort _ _
  have hne : (Store.replay log key fromSeq).Pairwise fun a b => a.key ≠ b.key := by
    have hperm := List.perm_insertionSort (fun a b : FleetEvent => a.seq ≤ b.seq)
      (log.filter fun e => e.streamKey = key ∧ fromSeq ≤ e.seq)
    apply List.pairwise_map.mp
    apply (hperm.map FleetEvent.key).nodup_iff.mpr
    exact h.sublist (List.filter_sublist.map _)
  apply (hle.and hne).imp_of_mem
  intro a b ha hb hab
  apply lt_of_le_of_ne hab.1
  intro hs
  apply hab.2
  exact Prod.ext ((mem_replay.mp ha).2.1.trans (mem_replay.mp hb).2.1.symm) hs

/-- Two events of one stream with one seq are one event. -/
theorem eq_of_seq {log : List FleetEvent} (h : (log.map FleetEvent.key).Nodup) {a b : FleetEvent}
    (ha : a ∈ log) (hb : b ∈ log) (hk : a.streamKey = b.streamKey) (hs : a.seq = b.seq) : a = b :=
  List.inj_on_of_nodup_map h ha hb (Prod.ext hk hs)

end Prospero.Proofs.Store
