import Prospero.Lib.Checks
import Prospero.Lib.Machine
import Prospero.Proofs.Store
import Prospero.SqlStore

namespace Prospero.Proofs.SqlStore
open Prospero.SqlStore
open PostgresStore (CursoredEvent)

section Filters

variable {α : Type*} {p q : α → Bool} {xs : List α}

/-- A narrower filter that leaves as many leaves the same. -/
theorem filter_eq_of_length (h : ∀ x ∈ xs, p x = true → q x = true)
    (hl : (xs.filter p).length = (xs.filter q).length) : xs.filter p = xs.filter q := by
  have hboth : (xs.filter q).filter p = xs.filter p := by
    rw [List.filter_filter]
    apply List.filter_congr
    intro x hx
    cases hp : p x with
    | false => rfl
    | true => rw [h x hx hp]; rfl
  rw [← hboth] at hl ⊢
  exact List.filter_sublist.eq_of_length hl

end Filters

section Rows

variable (serde : SerdeJson)

/-- The `kind` column of an event that was written. -/
def kindText (kind : EventKind) : String := (serde.toString kind).toOption.getD ""

def rowOf (c : CursoredEvent) : EventRow := .of c.cursor (kindText serde c.event.kind) c.event

/-- A kind comes back as it was written. -/
def ReadsBack (kind : EventKind) : Prop :=
  ∃ text, serde.toString kind = .ok text ∧ serde.fromStr text = .ok kind

variable {serde}

theorem readsBack_iff {kind : EventKind} (h : serde.toString kind = .ok (kindText serde kind)) :
    ReadsBack serde kind ↔ serde.fromStr (kindText serde kind) = .ok kind := by
  constructor
  · rintro ⟨text, hw, hr⟩
    obtain rfl := Except.ok.inj (h.symm.trans hw)
    exact hr
  · exact fun hr => ⟨_, h, hr⟩

theorem decode_rowOf {c : CursoredEvent} (hseq : c.event.seq < 2 ^ 64)
    (hw : serde.toString c.event.kind = .ok (kindText serde c.event.kind)) :
    (rowOf serde c).decode serde = .ok c.event ↔ ReadsBack serde c.event.kind := by
  rw [readsBack_iff hw]
  unfold EventRow.decode
  have hkind : (rowOf serde c).kind = kindText serde c.event.kind := rfl
  have hs : (rowOf serde c).seq.toUInt64.toNat = c.event.seq := UInt64.toNat_ofNat_of_lt' hseq
  rw [hkind, hs]
  cases hr : serde.fromStr (kindText serde c.event.kind) with
  | error message => exact ⟨nofun, nofun⟩
  | ok kind =>
    constructor
    · intro h
      exact congrArg Except.ok (congrArg FleetEvent.kind (Except.ok.inj h))
    · intro h
      obtain rfl := Except.ok.inj h
      rfl

theorem decodeCursored_rowOf {c : CursoredEvent} (hseq : c.event.seq < 2 ^ 64)
    (hcursor : c.cursor < 2 ^ 63)
    (hw : serde.toString c.event.kind = .ok (kindText serde c.event.kind)) :
    (rowOf serde c).decodeCursored serde = .ok c ↔ ReadsBack serde c.event.kind := by
  rw [← decode_rowOf hseq hw]
  unfold EventRow.decodeCursored
  have hc : (rowOf serde c).globalOrdinal.toUInt64.toNat = c.cursor :=
    UInt64.toNat_ofNat_of_lt' (Nat.lt_trans hcursor (by decide))
  rw [hc]
  cases (rowOf serde c).decode serde with
  | error e => exact ⟨nofun, nofun⟩
  | ok event =>
    constructor
    · intro h
      exact congrArg Except.ok (congrArg CursoredEvent.event (Except.ok.inj h))
    · intro h
      obtain rfl := Except.ok.inj h
      rfl

end Rows

/-- The rows are the history, as `append` bound it. -/
structure Consistent (serde : SerdeJson) (w : World) : Prop where
  rows : w.table.rows = w.log.map (rowOf serde)
  written : ∀ c ∈ w.log, serde.toString c.event.kind = .ok (kindText serde c.event.kind)
  seq_lt : ∀ c ∈ w.log, c.event.seq < 2 ^ 64
  cursor_lt : ∀ c ∈ w.log, c.cursor < 2 ^ 63
  cursor_le : ∀ c ∈ w.log, c.cursor ≤ w.table.sequence
  increasing : w.log.Pairwise fun a b => a.cursor < b.cursor
  length_le : w.log.length ≤ w.table.sequence
  length_lt : w.log.length < 2 ^ 63

section Steps

variable {serde : SerdeJson} {backend : Backend}

theorem append_eq_ok {event : FleetEvent} {t t' : Table}
    (h : append serde backend event t = .ok t') :
    serde.toString event.kind = .ok (kindText serde event.kind) ∧ t.sequence + 1 < 2 ^ 63 ∧
      t' = ⟨t.rows ++ [rowOf serde ⟨t.sequence + 1, event⟩], t.sequence + 1⟩ := by
  unfold append at h
  cases hw : serde.toString event.kind with
  | error message =>
    rw [hw] at h
    cases h
  | ok kind =>
    have htext : kindText serde event.kind = kind := by rw [kindText, hw]; rfl
    rw [hw] at h
    simp only [insertRow] at h
    split at h
    · cases h
    · rename_i hi
      split at hi
      · cases hi
      · split at hi
        · cases hi
        · rename_i hroom
          split at hi
          · cases hi
          · cases h
            cases hi
            rw [rowOf, htext]
            exact ⟨rfl, Nat.lt_of_not_le hroom, rfl⟩

theorem consistent_empty : Consistent serde World.empty where
  rows := rfl
  written := List.forall_mem_nil _
  seq_lt := List.forall_mem_nil _
  cursor_lt := List.forall_mem_nil _
  cursor_le := List.forall_mem_nil _
  increasing := List.Pairwise.nil
  length_le := Nat.le_refl _
  length_lt := by decide

theorem consistent_append {w : World} {t : Table} {d : Draft} (h : Consistent serde w)
    (ha : append serde backend d.event w.table = .ok t) :
    Consistent serde ⟨t, w.log ++ [⟨t.sequence, d.event⟩]⟩ := by
  obtain ⟨hw, hroom, rfl⟩ := append_eq_ok ha
  constructor
  · rw [List.map_append, ← h.rows]
    rfl
  · exact List.forall_mem_append.mpr ⟨h.written, List.forall_mem_singleton.mpr hw⟩
  · exact List.forall_mem_append.mpr ⟨h.seq_lt, List.forall_mem_singleton.mpr d.seq_lt⟩
  · exact List.forall_mem_append.mpr ⟨h.cursor_lt, List.forall_mem_singleton.mpr hroom⟩
  · refine List.forall_mem_append.mpr ⟨?_, List.forall_mem_singleton.mpr (Nat.le_refl _)⟩
    exact fun c hc => Nat.le_succ_of_le (h.cursor_le c hc)
  · refine List.pairwise_append.mpr ⟨h.increasing, List.pairwise_singleton _ _, ?_⟩
    intro a ha b hb
    rw [List.mem_singleton.mp hb]
    exact Nat.lt_succ_of_le (h.cursor_le a ha)
  · rw [List.length_append]
    exact Nat.succ_le_succ h.length_le
  · rw [List.length_append]
    exact Nat.lt_of_le_of_lt (Nat.succ_le_succ h.length_le) hroom

theorem consistent_prune {w : World} {t : Table} {n : Nat} {beforeTs : String}
    (h : Consistent serde w) (hp : prune backend beforeTs w.table = .ok (t, n)) :
    Consistent serde ⟨t, w.log.filter fun c => Store.survives beforeTs c.event⟩ := by
  unfold prune at hp
  split at hp
  · cases hp
  · cases hp
    have hsub : (w.log.filter fun c => Store.survives beforeTs c.event).Sublist w.log :=
      List.filter_sublist
    constructor
    · simp only [h.rows, List.filter_map]
      rfl
    · exact fun c hc => h.written c (hsub.subset hc)
    · exact fun c hc => h.seq_lt c (hsub.subset hc)
    · exact fun c hc => h.cursor_lt c (hsub.subset hc)
    · exact fun c hc => h.cursor_le c (hsub.subset hc)
    · exact h.increasing.sublist hsub
    · exact hsub.length_le.trans h.length_le
    · exact Nat.lt_of_le_of_lt hsub.length_le h.length_lt

theorem step_consistent (w : World) (a : Action) (w' : World) (h : Consistent serde w)
    (hs : step serde backend w a = some w') : Consistent serde w' := by
  cases a with
  | append d =>
    simp only [step] at hs
    split at hs
    · cases hs
      exact h
    · rename_i t ha
      cases hs
      exact consistent_append h ha
  | prune beforeTs =>
    simp only [step] at hs
    split at hs
    · cases hs
      exact h
    · rename_i t n hp
      cases hs
      exact consistent_prune h hp
  | nextval =>
    simp only [step] at hs
    split at hs
    · cases hs
      exact { h with
        cursor_le := fun c hc => Nat.le_succ_of_le (h.cursor_le c hc)
        length_le := Nat.le_succ_of_le h.length_le }
    · cases hs

end Steps

section Replay

variable {serde : SerdeJson} {backend : Backend} {w : World}

def signedFrom (key : StreamKey) (fromSeq : UInt64) (c : CursoredEvent) : Bool :=
  decide (c.event.streamKey = key ∧ fromSeq.toInt64 ≤ (UInt64.ofNat c.event.seq).toInt64)

def unsignedFrom (key : StreamKey) (fromSeq : UInt64) (c : CursoredEvent) : Bool :=
  decide (c.event.streamKey = key ∧ fromSeq.toNat ≤ c.event.seq)

/-- No event of the stream is across the sign bit from where the replay starts. -/
def OneSided (w : World) (key : StreamKey) (fromSeq : UInt64) : Prop :=
  ∀ c ∈ w.log, c.event.streamKey = key → (c.event.seq < 2 ^ 63 ↔ fromSeq.toNat < 2 ^ 63)

theorem signed_le_iff {m : UInt64} {n : Nat} (hn : n < 2 ^ 64) :
    m.toInt64 ≤ (UInt64.ofNat n).toInt64 ↔
      if m.toNat < 2 ^ 63 then n < 2 ^ 63 ∧ m.toNat ≤ n else n < 2 ^ 63 ∨ m.toNat ≤ n := by
  have hm := m.toNat_lt
  rw [Int64.le_iff_toInt_le, Words.toInt64_toInt, Words.toInt64_toInt,
    UInt64.toNat_ofNat_of_lt' hn]
  split <;> split <;> omega

theorem signedFrom_iff (h : Consistent serde w) {key : StreamKey} {fromSeq : UInt64}
    {c : CursoredEvent} (hc : c ∈ w.log) : signedFrom key fromSeq c = true ↔
      c.event.streamKey = key ∧ if fromSeq.toNat < 2 ^ 63
        then c.event.seq < 2 ^ 63 ∧ fromSeq.toNat ≤ c.event.seq
        else c.event.seq < 2 ^ 63 ∨ fromSeq.toNat ≤ c.event.seq := by
  rw [signedFrom, decide_eq_true_eq, signed_le_iff (h.seq_lt c hc)]

theorem selected_same (h : Consistent serde w) {key : StreamKey} {fromSeq : UInt64}
    (hside : OneSided w key fromSeq) :
    w.log.filter (signedFrom key fromSeq) = w.log.filter (unsignedFrom key fromSeq) := by
  apply List.filter_congr
  intro c hc
  apply Bool.eq_iff_iff.mpr
  rw [signedFrom_iff h hc, unsignedFrom, decide_eq_true_eq]
  apply and_congr_right
  intro hk
  have hs := hside c hc hk
  split <;> omega

/-- The query selects as many rows as it should only where it selects the same ones. -/
theorem selected_iff (h : Consistent serde w) (key : StreamKey) (fromSeq : UInt64) :
    (w.log.filter (signedFrom key fromSeq)).length =
      (w.log.filter (unsignedFrom key fromSeq)).length ↔ OneSided w key fromSeq := by
  constructor
  · intro hl
    have hsame : w.log.filter (signedFrom key fromSeq) =
        w.log.filter (unsignedFrom key fromSeq) := by
      by_cases hfrom : fromSeq.toNat < 2 ^ 63
      · refine filter_eq_of_length ?_ hl
        intro c hc hs
        rw [signedFrom_iff h hc, if_pos hfrom] at hs
        exact decide_eq_true ⟨hs.1, hs.2.2⟩
      · refine (filter_eq_of_length ?_ hl.symm).symm
        intro c hc hu
        rw [signedFrom_iff h hc, if_neg hfrom]
        exact ⟨(of_decide_eq_true hu).1, Or.inr (of_decide_eq_true hu).2⟩
    intro c hc hk
    have hiff : signedFrom key fromSeq c = true ↔ fromSeq.toNat ≤ c.event.seq := by
      have hmem := congrArg (c ∈ ·) hsame
      simpa [List.mem_filter, hc, unsignedFrom, hk] using hmem
    rw [signedFrom_iff h hc] at hiff
    simp only [hk, true_and] at hiff
    split at hiff <;> omega
  · exact fun hside => congrArg List.length (selected_same h hside)

def signedOrder (a b : CursoredEvent) : Prop :=
  (UInt64.ofNat a.event.seq).toInt64 ≤ (UInt64.ofNat b.event.seq).toInt64

instance : DecidableRel signedOrder := fun _ _ => inferInstanceAs (Decidable (_ ≤ _))

def unsignedOrder (a b : CursoredEvent) : Prop := a.event.seq ≤ b.event.seq

instance : DecidableRel unsignedOrder := fun _ _ => inferInstanceAs (Decidable (_ ≤ _))

theorem selected_rows (h : Consistent serde w) (key : StreamKey) (fromSeq : UInt64) :
    ((w.table.rows.filter fun r => r.streamKey = key ∧ fromSeq.toInt64 ≤ r.seq).insertionSort
        fun a b => a.seq ≤ b.seq) =
      ((w.log.filter (signedFrom key fromSeq)).insertionSort signedOrder).map (rowOf serde) := by
  rw [h.rows, List.filter_map]
  exact (List.map_insertionSort signedOrder _ (rowOf serde) _ fun _ _ _ _ => Iff.rfl).symm

theorem contract_replay (w : World) (key : StreamKey) (fromSeq : UInt64) :
    Store.replay (w.log.map CursoredEvent.event) key fromSeq.toNat =
      ((w.log.filter (unsignedFrom key fromSeq)).insertionSort unsignedOrder).map
        CursoredEvent.event := by
  rw [Store.replay, List.filter_map]
  exact (List.map_insertionSort unsignedOrder _ CursoredEvent.event _ fun _ _ _ _ => Iff.rfl).symm

/-- On one side of the sign bit the column sorts as the seqs do. -/
theorem sorted_same (h : Consistent serde w) {key : StreamKey} {fromSeq : UInt64}
    (hside : OneSided w key fromSeq) :
    (w.log.filter (signedFrom key fromSeq)).insertionSort signedOrder =
      (w.log.filter (unsignedFrom key fromSeq)).insertionSort unsignedOrder := by
  rw [selected_same h hside]
  have hid := List.map_insertionSort signedOrder unsignedOrder id
    (w.log.filter (unsignedFrom key fromSeq)) ?_
  · rwa [List.map_id, List.map_id] at hid
  intro a ha b hb
  obtain ⟨ha, hka⟩ := List.mem_filter.mp ha
  obtain ⟨hb, hkb⟩ := List.mem_filter.mp hb
  have hsa := hside a ha (of_decide_eq_true hka).1
  have hsb := hside b hb (of_decide_eq_true hkb).1
  have hlt := h.seq_lt a ha
  rw [signedOrder, signed_le_iff (h.seq_lt b hb), UInt64.toNat_ofNat_of_lt' hlt]
  change _ ↔ a.event.seq ≤ b.event.seq
  split <;> omega

/-- A query that returns rows returns them decoded. -/
theorem replay_eq_ok (h : Consistent serde w) {key : StreamKey} {fromSeq : UInt64}
    {events : List FleetEvent} : replay serde backend w.table key fromSeq = .ok events ↔
      backend.refuses [key] = false ∧
        List.Forall₂ (fun c e => (rowOf serde c).decode serde = .ok e)
          ((w.log.filter (signedFrom key fromSeq)).insertionSort signedOrder) events := by
  rw [replay, selected_rows h]
  cases backend.refuses [key] with
  | true => exact ⟨nofun, nofun⟩
  | false =>
    simp only [Bool.false_eq_true, if_false, true_and]
    rw [Checks.mapM_ok, List.forall₂_map_left_iff]

theorem replay_iff (h : Consistent serde w) (key : StreamKey) (fromSeq : UInt64) :
    replay serde backend w.table key fromSeq =
        .ok (Store.replay (w.log.map CursoredEvent.event) key fromSeq.toNat) ↔
      backend.refuses [key] = false ∧ OneSided w key fromSeq ∧
        ∀ c ∈ w.log, c.event.streamKey = key → fromSeq.toNat ≤ c.event.seq →
          ReadsBack serde c.event.kind := by
  rw [replay_eq_ok h, contract_replay]
  apply and_congr_right
  intro _
  have hreads (hside : OneSided w key fromSeq) :
      List.Forall₂ (fun c e => (rowOf serde c).decode serde = .ok e)
          ((w.log.filter (signedFrom key fromSeq)).insertionSort signedOrder)
          (((w.log.filter (unsignedFrom key fromSeq)).insertionSort unsignedOrder).map
            CursoredEvent.event) ↔
        ∀ c ∈ w.log, c.event.streamKey = key → fromSeq.toNat ≤ c.event.seq →
          ReadsBack serde c.event.kind := by
    rw [sorted_same h hside, List.forall₂_map_right_iff, List.forall₂_same]
    simp only [List.mem_insertionSort, List.mem_filter, unsignedFrom, decide_eq_true_eq, and_imp]
    refine forall₄_congr fun c hc _ _ => ?_
    exact decode_rowOf (h.seq_lt c hc) (h.written c hc)
  constructor
  · intro hall
    have hlen := hall.length_eq
    rw [List.length_map, List.length_insertionSort, List.length_insertionSort] at hlen
    have hside := (selected_iff h key fromSeq).mp hlen
    exact ⟨hside, (hreads hside).mp hall⟩
  · exact fun ⟨hside, hread⟩ => (hreads hside).mpr hread

end Replay

section Fleet

variable {serde : SerdeJson} {backend : Backend} {w : World}

/-- The first of the events left whose cursor is past another, as the trait has it. -/
def firstAfter (log : List CursoredEvent) (afterCursor limit : Nat) : List CursoredEvent :=
  (log.filter fun c => afterCursor < c.cursor).take limit

def signedAfter (afterCursor : UInt64) (c : CursoredEvent) : Bool :=
  decide (afterCursor.toInt64 < Int64.ofNat c.cursor)

theorem signedAfter_iff (h : Consistent serde w) {afterCursor : UInt64} {c : CursoredEvent}
    (hc : c ∈ w.log) : signedAfter afterCursor c = true ↔
      (afterCursor.toNat < 2 ^ 63 → afterCursor.toNat < c.cursor) := by
  have hlt := afterCursor.toNat_lt
  rw [signedAfter, decide_eq_true_eq, Int64.lt_iff_toInt_lt, Words.toInt64_toInt,
    Int64.toInt_ofNat_of_lt (h.cursor_lt c hc)]
  split <;> omega

/-- Ordinals are given out in the order of the rows, and no limit that is lost in the
cast would have cut anything off. -/
theorem fleet_rows (h : Consistent serde w) (afterCursor limit : UInt64) :
    Words.limit limit.toInt64 ((w.table.rows.filter fun r =>
        afterCursor.toInt64 < r.globalOrdinal).insertionSort fun a b =>
          a.globalOrdinal ≤ b.globalOrdinal) =
      ((w.log.filter (signedAfter afterCursor)).take limit.toNat).map (rowOf serde) := by
  have hrows : (w.table.rows.filter fun r => afterCursor.toInt64 < r.globalOrdinal) =
      (w.log.filter (signedAfter afterCursor)).map (rowOf serde) := by
    rw [h.rows, List.filter_map]
    rfl
  have hsub : (w.log.filter (signedAfter afterCursor)).Sublist w.log := List.filter_sublist
  have hsorted : ((w.log.filter (signedAfter afterCursor)).map (rowOf serde)).Pairwise
      fun a b => a.globalOrdinal ≤ b.globalOrdinal := by
    rw [List.pairwise_map]
    apply (h.increasing.sublist hsub).imp_of_mem
    intro a b ha hb hab
    change Int64.ofNat a.cursor ≤ Int64.ofNat b.cursor
    rw [Int64.le_iff_toInt_le, Int64.toInt_ofNat_of_lt (h.cursor_lt a (hsub.subset ha)),
      Int64.toInt_ofNat_of_lt (h.cursor_lt b (hsub.subset hb))]
    exact Int.ofNat_le.mpr (Nat.le_of_lt hab)
  have hlen : ((w.log.filter (signedAfter afterCursor)).map (rowOf serde)).length < 2 ^ 63 := by
    rw [List.length_map]
    exact Nat.lt_of_le_of_lt hsub.length_le h.length_lt
  rw [hrows, hsorted.insertionSort_eq, Words.limit_cast hlen, List.map_take]

theorem negative_limit_iff (limit : UInt64) : limit.toInt64 < 0 ↔ 2 ^ 63 ≤ limit.toNat := by
  have hlt := limit.toNat_lt
  rw [Int64.lt_iff_toInt_lt, Words.toInt64_toInt, Int64.toInt_zero]
  split <;> omega

theorem firstAfter_across (h : Consistent serde w) {afterCursor : Nat}
    (hafter : 2 ^ 63 ≤ afterCursor) (limit : Nat) : firstAfter w.log afterCursor limit = [] := by
  have hnone : (w.log.filter fun c => afterCursor < c.cursor) = [] := by
    apply List.filter_eq_nil_iff.mpr
    intro c hc
    have hlt := h.cursor_lt c hc
    rw [decide_eq_true_eq]
    omega
  rw [firstAfter, hnone, List.take_nil]

/-- A cursor across the sign bit is before every row, where it should be past them all. -/
theorem selected_after (h : Consistent serde w) (afterCursor : UInt64) (limit : Nat) :
    (w.log.filter (signedAfter afterCursor)).take limit =
        firstAfter w.log afterCursor.toNat limit ↔
      afterCursor.toNat < 2 ^ 63 ∨ w.log = [] ∨ limit = 0 := by
  by_cases hafter : afterCursor.toNat < 2 ^ 63
  · have hsame : w.log.filter (signedAfter afterCursor) =
        w.log.filter fun c => afterCursor.toNat < c.cursor := by
      apply List.filter_congr
      intro c hc
      apply Bool.eq_iff_iff.mpr
      rw [signedAfter_iff h hc, decide_eq_true_eq]
      exact forall_prop_of_true hafter
    exact ⟨fun _ => Or.inl hafter, fun _ => congrArg (List.take limit) hsame⟩
  · have hall : w.log.filter (signedAfter afterCursor) = w.log :=
      List.filter_eq_self.mpr fun c hc => (signedAfter_iff h hc).mpr fun hn => absurd hn hafter
    rw [hall, firstAfter_across h (Nat.le_of_not_lt hafter), List.take_eq_nil_iff, or_comm]
    exact (or_iff_right hafter).symm

theorem replayFleet_eq_ok (h : Consistent serde w) {afterCursor limit : UInt64}
    {events : List CursoredEvent} :
    replayFleet serde backend w.table afterCursor limit = .ok events ↔
      (backend = .postgres → limit.toNat < 2 ^ 63) ∧
        List.Forall₂ (fun c e => (rowOf serde c).decodeCursored serde = .ok e)
          ((w.log.filter (signedAfter afterCursor)).take limit.toNat) events := by
  rw [replayFleet, fleet_rows h]
  simp only [negative_limit_iff]
  split
  · rename_i hn
    exact ⟨nofun, fun hp => absurd (hp.1 hn.1) (Nat.not_lt.mpr hn.2)⟩
  · rename_i hn
    rw [Checks.mapM_ok, List.forall₂_map_left_iff]
    exact (and_iff_right fun hb => Nat.lt_of_not_le fun hl => hn ⟨hb, hl⟩).symm

theorem replayFleet_iff (h : Consistent serde w) (afterCursor limit : UInt64) :
    replayFleet serde backend w.table afterCursor limit =
        .ok (firstAfter w.log afterCursor.toNat limit.toNat) ↔
      (backend = .postgres → limit.toNat < 2 ^ 63) ∧
        (afterCursor.toNat < 2 ^ 63 ∨ w.log = [] ∨ limit.toNat = 0) ∧
        ∀ c ∈ firstAfter w.log afterCursor.toNat limit.toNat,
          ReadsBack serde c.event.kind := by
  rw [replayFleet_eq_ok h, ← selected_after h]
  apply and_congr_right
  intro _
  have hreads : List.Forall₂ (fun c e => (rowOf serde c).decodeCursored serde = .ok e)
        (firstAfter w.log afterCursor.toNat limit.toNat)
        (firstAfter w.log afterCursor.toNat limit.toNat) ↔
      ∀ c ∈ firstAfter w.log afterCursor.toNat limit.toNat, ReadsBack serde c.event.kind := by
    rw [List.forall₂_same]
    refine forall₂_congr fun c hc => ?_
    have hmem := List.mem_of_mem_filter (List.mem_of_mem_take hc)
    exact decodeCursored_rowOf (h.seq_lt c hmem) (h.cursor_lt c hmem) (h.written c hmem)
  constructor
  · intro hall
    have hsel : (w.log.filter (signedAfter afterCursor)).take limit.toNat =
        firstAfter w.log afterCursor.toNat limit.toNat := by
      by_cases hafter : afterCursor.toNat < 2 ^ 63
      · exact (selected_after h afterCursor limit.toNat).mpr (Or.inl hafter)
      · have hnone := firstAfter_across h (Nat.le_of_not_lt hafter) limit.toNat
        rw [hnone] at hall ⊢
        exact List.forall₂_nil_right_iff.mp hall
    rw [hsel] at hall
    exact ⟨hsel, hreads.mp hall⟩
  · rintro ⟨hsel, hread⟩
    rw [hsel]
    exact hreads.mpr hread

end Fleet

/-- In every state a store can come to, a replay is what the trait promises just where
no event of the stream lies across the sign bit from its start, and a fleet replay just
where its cursor is below it, or there is nothing to return anyway. The kinds have to
read back, and Postgres takes neither a NUL in a key nor a limit that turns negative. -/
theorem contract_met_iff (serde : SerdeJson) (backend : Backend) (as : List Action) :
    Machine.Always (step serde backend) (fun w =>
      (∀ (key : StreamKey) (fromSeq : UInt64),
        replay serde backend w.table key fromSeq =
            .ok (Store.replay (w.log.map CursoredEvent.event) key fromSeq.toNat) ↔
          backend.refuses [key] = false ∧ OneSided w key fromSeq ∧
            ∀ c ∈ w.log, c.event.streamKey = key → fromSeq.toNat ≤ c.event.seq →
              ReadsBack serde c.event.kind) ∧
      (∀ afterCursor limit : UInt64,
        replayFleet serde backend w.table afterCursor limit =
            .ok (firstAfter w.log afterCursor.toNat limit.toNat) ↔
          (backend = .postgres → limit.toNat < 2 ^ 63) ∧
            (afterCursor.toNat < 2 ^ 63 ∨ w.log = [] ∨ limit.toNat = 0) ∧
            ∀ c ∈ firstAfter w.log afterCursor.toNat limit.toNat,
              ReadsBack serde c.event.kind)) World.empty as := by
  have hempty : Consistent serde World.empty := consistent_empty
  have keep : ∀ w a w', Consistent serde w → step serde backend w a = some w' →
      Consistent serde w' := step_consistent
  apply Machine.always_mono _ (Machine.always_of_invariant keep hempty as)
  intro w h
  exact ⟨replay_iff h, replayFleet_iff h⟩

/-- A kind without fields, as `serde_json` writes it. -/
def spawnedJson : SerdeJson where
  toString _ := .ok "\x7b\"kind\":\"agent_spawned\"\x7d"
  fromStr _ := .ok .agentSpawned

def spawned : Draft where
  event := ⟨1, "2026-01-01T00:00:00+00:00", "acme", "a1", .agentSpawned, none, none⟩
  seq_lt := by decide

/-- From 2 ^ 63 on there is nothing, and the whole log is returned. -/
theorem replay_across_sign_bit :
    (∃ w, Machine.run (step spawnedJson .sqlite) World.empty [.append spawned] = some w ∧
      replay spawnedJson .sqlite w.table "a1" 9223372036854775808 = .ok [spawned.event] ∧
      Store.replay (w.log.map CursoredEvent.event) "a1" (2 ^ 63) = [] ∧
      replayFleet spawnedJson .sqlite w.table 9223372036854775808 10 = .ok [⟨1, spawned.event⟩] ∧
      firstAfter w.log (2 ^ 63) 10 = []) ∧
    ∃ w, Machine.run (step spawnedJson .postgres) World.empty [.append spawned] = some w ∧
      replay spawnedJson .postgres w.table "a1" 9223372036854775808 = .ok [spawned.event] ∧
      Store.replay (w.log.map CursoredEvent.event) "a1" (2 ^ 63) = [] ∧
      replayFleet spawnedJson .postgres w.table 9223372036854775808 10 = .ok [⟨1, spawned.event⟩] ∧
      firstAfter w.log (2 ^ 63) 10 = [] := by
  constructor
  · exact ⟨_, rfl, rfl, rfl, rfl, rfl⟩
  · exact ⟨_, rfl, rfl, rfl, rfl, rfl⟩

end Prospero.Proofs.SqlStore
