import Prospero.FleetStream
import Prospero.Lib.Machine
import Prospero.Lib.Tail

namespace Prospero.Proofs.FleetStream
open Prospero.PostgresStore Prospero.FleetStream

theorem asI64_small {n : Nat} (h : n < 2 ^ 63) : asI64 n = n := by
  have hmod : n % 2 ^ 64 = n := by omega
  rw [asI64, hmod, if_pos h]

/-- A cursor the stream issued is read back as itself. -/
theorem startCursor_toString {n : Nat} (h : n < 2 ^ 64) (latest : Option Nat) :
    startCursor (some (toString n)) latest = n := by
  have hnow : toString n ≠ "now" := by
    intro he
    have hm : 'n' ∈ (toString n).toList := by
      rw [he]
      decide
    exact Decimal.not_mem_toString (by decide) n hm
  unfold startCursor
  split
  · exact absurd (Option.some.inj ‹_›) hnow
  · rename_i m hm
    rw [← Option.some.inj hm, Decimal.parse_toString h]
    rfl
  · contradiction

theorem mem_replayFleet {rows : List EventRow} {cursor limit : Nat} {c : CursoredEvent}
    (h : c ∈ replayFleet rows cursor limit) :
    c ∈ rows.map EventRow.cursored ∧ asI64 cursor < c.cursor := by
  obtain ⟨r, hr, rfl⟩ := List.mem_map.mp h
  have hm := List.mem_of_mem_take hr
  rw [List.mem_insertionSort] at hm
  obtain ⟨hrow, hlt⟩ := List.mem_filter.mp hm
  exact ⟨List.mem_map_of_mem hrow, of_decide_eq_true hlt⟩

theorem replayFleet_sorted {rows : List EventRow}
    (h : (rows.map EventRow.globalOrdinal).Nodup) (cursor limit : Nat) :
    (replayFleet rows cursor limit).Pairwise fun a b => a.cursor < b.cursor := by
  have hfilter := h.sublist
    ((List.filter_sublist (p := fun r : EventRow => asI64 cursor < r.globalOrdinal)).map
      EventRow.globalOrdinal)
  have hperm := List.perm_insertionSort (fun a b : EventRow => a.globalOrdinal ≤ b.globalOrdinal)
    (rows.filter fun r => asI64 cursor < r.globalOrdinal)
  have hne := List.pairwise_map.mp ((hperm.map EventRow.globalOrdinal).nodup_iff.mpr hfilter)
  have hle := List.pairwise_insertionSort
    (fun a b : EventRow => a.globalOrdinal ≤ b.globalOrdinal)
    (rows.filter fun r => asI64 cursor < r.globalOrdinal)
  apply List.pairwise_map.mpr
  apply List.Pairwise.sublist (List.take_sublist _ _)
  exact (hle.and hne).imp fun hab => lt_of_le_of_ne hab.1 hab.2

/-- Nothing is left to read once a read comes back empty. -/
theorem replayFleet_nil {rows : List EventRow} {cursor : Nat} (hc : cursor < 2 ^ 63)
    (h : replayFleet rows cursor fleetBatch = []) : ∀ r ∈ rows, r.globalOrdinal ≤ cursor := by
  intro r hr
  by_contra hlt
  have hm : r ∈ (rows.filter fun r => asI64 cursor < r.globalOrdinal).insertionSort
      fun a b => a.globalOrdinal ≤ b.globalOrdinal := by
    rw [List.mem_insertionSort, asI64_small hc]
    exact List.mem_filter.mpr ⟨hr, by simp; omega⟩
  have hnil := List.map_eq_nil_iff.mp h
  rcases List.take_eq_nil_iff.mp hnil with hb | hb
  · cases hb
  · rw [hb] at hm
    cases hm

/-- The last cursor issued to the consumer. -/
def issued (w : World) : Nat := (w.received.getLast?.map CursoredEvent.cursor).getD 0

/-- What is left of the batch being sent. -/
def unsent (w : World) : List CursoredEvent :=
  match w.connection with
  | some ⟨_, .sending cs⟩ => cs
  | _ => []

def tailOf (w : World) : Tail.State CursoredEvent Nat := ⟨issued w, unsent w, w.received⟩

structure Base (w : World) : Prop where
  bound : w.ordinal < 2 ^ 63
  drawn : ∀ n e, w.inserts n = some e → n ≤ w.ordinal ∧ ∀ r ∈ w.rows, r.globalOrdinal ≠ n
  rows : ∀ r ∈ w.rows, r.globalOrdinal ≤ w.ordinal
  unique : (w.rows.map EventRow.globalOrdinal).Nodup
  ordered : Tail.Ordered CursoredEvent.cursor (tailOf w)
  batch : ∀ c ∈ unsent w, c ∈ w.rows.map EventRow.cursored
  received : ∀ c ∈ w.received, c ∈ w.rows.map EventRow.cursored
  cursor : ∀ conn, w.connection = some conn → conn.cursor = issued w

theorem Base.start : Base World.start where
  bound := by decide
  drawn := by simp [World.start]
  rows := by simp [World.start]
  unique := by simp [World.start]
  ordered := .start 0
  batch := by simp [World.start, unsent]
  received := by simp [World.start]
  cursor := by simp [World.start]

theorem Base.issued_lt {w : World} (h : Base w) : issued w < 2 ^ 63 := by
  unfold issued
  cases hl : w.received.getLast? with
  | none => simp
  | some c =>
    obtain ⟨r, hr, rfl⟩ := List.mem_map.mp (h.received c (List.mem_of_getLast? hl))
    exact Nat.lt_of_le_of_lt (h.rows r hr) h.bound

/-- The cursor a reconnecting consumer starts from is the last one issued. -/
theorem Base.resume {w : World} (h : Base w) (latest : Option Nat) :
    startCursor w.resumeFrom latest = issued w := by
  have hlt := h.issued_lt
  unfold World.resumeFrom issued at *
  cases hl : w.received.getLast? with
  | none => rfl
  | some c =>
    simp only [hl, Option.map_some, Option.getD_some] at hlt ⊢
    exact startCursor_toString (by omega) latest

/-- A row commits, and a cursor is issued, in ordinal order: nothing becomes
visible at or below the last cursor issued, and the cursor passes over nothing
that is visible. -/
def InCursorOrder (w : World) : Action → Prop
  | .commit n => issued w < n
  | .send => ∀ c rest, unsent w = c :: rest →
      ∀ r ∈ w.rows, issued w < r.globalOrdinal → c.cursor ≤ r.globalOrdinal
  | _ => True

/-- The steps of the writers and of the stream. A `turn` of the stream sends
nothing: it keeps its batch, drops it, or has just read one. -/
inductive Effect (w w' : World) : Action → Prop
  | beginInsert (e : FleetEvent) (room : w.ordinal + 1 < 2 ^ 63)
      (eq : w' = { w with
        ordinal := w.ordinal + 1
        inserts := Function.update w.inserts (w.ordinal + 1) (some e) }) :
      Effect w w' (.beginInsert e)
  | commit (n : Nat) (e : FleetEvent) (slot : w.inserts n = some e)
      (eq : w' = { w with
        inserts := Function.update w.inserts n none
        rows := w.rows ++ [⟨n, e⟩] }) : Effect w w' (.commit n)
  | abort (n : Nat) (eq : w' = { w with inserts := Function.update w.inserts n none }) :
      Effect w w' (.abort n)
  | turn {a : Action} (connection : Option Connection) (eq : w' = { w with connection := connection })
      (quiet : InCursorOrder w a)
      (cursor : ∀ conn, connection = some conn → conn.cursor = issued w)
      (sending : unsent w' = unsent w ∨ unsent w' = [] ∨
        unsent w = [] ∧ unsent w' = replayFleet w.rows (issued w) fleetBatch) : Effect w w' a
  | send (cursor : Nat) (c : CursoredEvent) (rest : List CursoredEvent)
      (head : w.connection = some ⟨cursor, .sending (c :: rest)⟩)
      (eq : w' = { w with
        connection := some ⟨c.cursor, .sending rest⟩
        received := w.received ++ [c] }) : Effect w w' .send

theorem step_effect {w w' : World} {a : Action} (h : Base w) (hs : w.step a = some w') :
    Effect w w' a := by
  cases a with
  | beginInsert e =>
    simp only [World.step] at hs
    split at hs <;> cases hs
    exact .beginInsert e ‹_› rfl
  | commit n =>
    obtain ⟨e, hslot, hs⟩ := Option.bind_eq_some_iff.mp hs
    unfold World.commit at hs
    split at hs <;> cases hs
    exact .commit n e hslot rfl
  | abort n =>
    cases hs
    exact .abort n rfl
  | connect =>
    simp only [World.step] at hs
    split at hs <;> cases hs
    refine .turn _ rfl trivial ?_ (Or.inr (Or.inl rfl))
    intro conn hconn
    cases hconn
    exact h.resume _
  | read ok =>
    simp only [World.step] at hs
    split at hs
    · rename_i cursor hc
      have hcursor : cursor = issued w := h.cursor _ hc
      have hidle : unsent w = [] := by simp [unsent, hc]
      subst hcursor
      cases hs
      unfold World.read
      split
      · refine .turn _ rfl trivial ?_ (Or.inr (Or.inl rfl))
        intro conn hconn
        cases hconn
        rfl
      · rename_i c rest hread
        have hok : ok = true := by
          by_contra hn
          simp [hn] at hread
        refine .turn _ rfl trivial ?_ (Or.inr (Or.inr ⟨hidle, ?_⟩))
        · intro conn hconn
          cases hconn
          rfl
        · simpa [unsent, hok] using hread.symm
    · cases hs
  | send =>
    simp only [World.step] at hs
    split at hs
    · rename_i cursor c rest hc
      cases hs
      exact .send cursor c rest hc rfl
    · rename_i cursor hc
      have hcursor := h.cursor _ hc
      cases hs
      refine .turn _ rfl (by simp [InCursorOrder, unsent, hc]) ?_ (Or.inr (Or.inl rfl))
      intro conn hconn
      cases hconn
      exact hcursor
    · cases hs
  | doorbell =>
    simp only [World.step] at hs
    split at hs
    · rename_i cursor hc
      have hcursor := h.cursor _ hc
      cases hs
      refine .turn _ rfl trivial ?_ (Or.inr (Or.inl rfl))
      intro conn hconn
      cases hconn
      exact hcursor
    · cases hs
  | disconnect =>
    cases hs
    exact .turn none rfl trivial (by simp) (Or.inr (Or.inl rfl))

/-- The stream is a tail reader of the committed rows. -/
theorem Base.move {w w' : World} {a : Action} (h : Base w) (he : Effect w w' a) :
    Tail.Move CursoredEvent.cursor (tailOf w) (tailOf w') := by
  cases he with
  | beginInsert e room eq =>
    subst eq
    exact .stay
  | commit n e slot eq =>
    subst eq
    exact .stay
  | abort n eq =>
    subst eq
    exact .stay
  | turn connection eq quiet cursor sending =>
    have hsame : tailOf w' = { tailOf w with batch := unsent w' } := by
      subst eq
      rfl
    rw [hsame]
    rcases sending with hb | hb | ⟨hidle, hb⟩
    · rw [hb]
      exact .stay
    · rw [hb]
      exact .drop
    · rw [hb]
      refine .read _ hidle ?_ (replayFleet_sorted h.unique _ _)
      intro c hc
      have hlt := (mem_replayFleet hc).2
      rw [asI64_small h.issued_lt] at hlt
      exact Int.ofNat_lt.mp hlt
  | send cursor c rest head eq =>
    subst eq
    have hissued : issued { w with
        connection := some ⟨c.cursor, .sending rest⟩
        received := w.received ++ [c] } = c.cursor := by
      simp [issued]
    have hpass : Tail.Move CursoredEvent.cursor (tailOf w) ⟨c.cursor, rest, w.received ++ [c]⟩ :=
      .pass c rest (by simp [tailOf, unsent, head])
    exact hissued ▸ hpass

section Preserve

variable {w : World}

/-- An ordinal that is drawn is above every row and every other insert's. -/
theorem Base.beginInsert (h : Base w) (e : FleetEvent) (room : w.ordinal + 1 < 2 ^ 63) :
    Base { w with
      ordinal := w.ordinal + 1
      inserts := Function.update w.inserts (w.ordinal + 1) (some e) } := by
  refine ⟨room, ?_, ?_, h.unique, h.ordered, h.batch, h.received, h.cursor⟩
  · intro n x hn
    by_cases hd : n = w.ordinal + 1
    · subst hd
      refine ⟨Nat.le_refl _, ?_⟩
      intro r hr he
      have hle := h.rows r hr
      omega
    · obtain ⟨hle, hr⟩ := h.drawn n x (by simpa [hd] using hn)
      exact ⟨Nat.le_succ_of_le hle, hr⟩
  · intro r hr
    exact Nat.le_succ_of_le (h.rows r hr)

/-- An insert that is over leaves its ordinal unused. -/
theorem Base.abort (h : Base w) (n : Nat) :
    Base { w with inserts := Function.update w.inserts n none } := by
  refine ⟨h.bound, ?_, h.rows, h.unique, h.ordered, h.batch, h.received, h.cursor⟩
  intro m x hm
  by_cases hd : m = n
  · simp [hd] at hm
  · exact h.drawn m x (by simpa [hd] using hm)

/-- A row that appears under an ordinal no row has and no insert still holds. -/
theorem Base.append (h : Base w) {n : Nat} (e : FleetEvent) (hn : n ≤ w.ordinal)
    (hfresh : ∀ r ∈ w.rows, r.globalOrdinal ≠ n) (hover : w.inserts n = none) :
    Base { w with rows := w.rows ++ [⟨n, e⟩] } := by
  refine ⟨h.bound, ?_, ?_, ?_, h.ordered, ?_, ?_, h.cursor⟩
  · intro m x hm
    obtain ⟨hle, hr⟩ := h.drawn m x hm
    refine ⟨hle, ?_⟩
    intro r hmem
    rcases List.mem_append.mp hmem with hmem | hmem
    · exact hr r hmem
    · rw [List.mem_singleton.mp hmem]
      intro hd
      cases hover.symm.trans ((congrArg w.inserts hd).trans hm)
  · intro r hr
    rcases List.mem_append.mp hr with hr | hr
    · exact h.rows r hr
    · rw [List.mem_singleton.mp hr]
      exact hn
  · rw [List.map_append]
    apply List.Nodup.append h.unique (List.nodup_singleton _)
    simpa using hfresh
  · intro c hc
    rw [List.map_append]
    exact List.mem_append_left _ (h.batch c hc)
  · intro c hc
    rw [List.map_append]
    exact List.mem_append_left _ (h.received c hc)

/-- What the consumer is sent is a committed row, and its cursor follows. -/
theorem Base.send (h : Base w) {cursor : Nat} {c : CursoredEvent} {rest : List CursoredEvent}
    (head : w.connection = some ⟨cursor, .sending (c :: rest)⟩)
    (hordered : Tail.Ordered CursoredEvent.cursor (tailOf { w with
      connection := some ⟨c.cursor, .sending rest⟩
      received := w.received ++ [c] })) :
    Base { w with
      connection := some ⟨c.cursor, .sending rest⟩
      received := w.received ++ [c] } := by
  have hc : ∀ x ∈ c :: rest, x ∈ w.rows.map EventRow.cursored := by
    intro x hx
    exact h.batch x (by simpa [unsent, head] using hx)
  refine ⟨h.bound, h.drawn, h.rows, h.unique, hordered, ?_, ?_, ?_⟩
  · intro x hx
    exact hc x (List.mem_cons_of_mem _ hx)
  · intro x hx
    rcases List.mem_append.mp hx with hx | hx
    · exact h.received x hx
    · rw [List.mem_singleton.mp hx]
      exact hc c List.mem_cons_self
  · intro conn hconn
    cases hconn
    simp [issued]

end Preserve

theorem Base.effect {w w' : World} {a : Action} (h : Base w) (he : Effect w w' a) : Base w' := by
  have hordered := h.ordered.move (h.move he)
  cases he with
  | beginInsert e room eq => exact eq ▸ h.beginInsert e room
  | commit n e slot eq =>
    obtain ⟨hn, hfresh⟩ := h.drawn n e slot
    exact eq ▸ (h.abort n).append e hn hfresh (Function.update_self ..)
  | abort n eq => exact eq ▸ h.abort n
  | turn connection eq quiet cursor sending =>
    have hbatch : ∀ c ∈ unsent w', c ∈ w.rows.map EventRow.cursored := by
      rcases sending with hb | hb | ⟨-, hb⟩
      · rw [hb]
        exact h.batch
      · simp [hb]
      · rw [hb]
        exact fun c hc => (mem_replayFleet hc).1
    subst eq
    exact ⟨h.bound, h.drawn, h.rows, h.unique, hordered, hbatch, h.received, cursor⟩
  | send cursor c rest head eq =>
    subst eq
    exact h.send head hordered

/-- The consumer is connected and waiting, with nothing left to read. -/
def Settled (w : World) : Prop :=
  ∃ cursor, w.connection = some ⟨cursor, .waiting⟩ ∧ replayFleet w.rows cursor fleetBatch = []

/-- Every committed event has been received, each once and in cursor order. -/
def Delivered (w : World) : Prop :=
  (w.received.Pairwise fun a b => a.cursor < b.cursor) ∧ ∀ r ∈ w.rows, r.cursored ∈ w.received

def Complete (w : World) : Prop :=
  Base w ∧ ∀ r ∈ w.rows, r.cursored ∈ w.received ∨ issued w < r.globalOrdinal

def Skipped (w : World) : Prop :=
  Base w ∧ ∃ r ∈ w.rows, Tail.Lost CursoredEvent.cursor (tailOf w) r.cursored

theorem Effect.rows_grow {w w' : World} {a : Action} (he : Effect w w' a) :
    ∃ more, w'.rows = w.rows ++ more := by
  cases he with
  | beginInsert e room eq => exact ⟨[], by simp [eq]⟩
  | commit n e slot eq => exact ⟨[⟨n, e⟩], by rw [eq]⟩
  | abort n eq => exact ⟨[], by simp [eq]⟩
  | turn connection eq quiet cursor sending => exact ⟨[], by simp [eq]⟩
  | send cursor c rest head eq => exact ⟨[], by simp [eq]⟩

theorem Complete.step {w w' : World} {a : Action} (h : Complete w) (hok : InCursorOrder w a)
    (hs : w.step a = some w') : Complete w' := by
  have he := step_effect h.1 hs
  refine ⟨h.1.effect he, ?_⟩
  intro r hr
  cases he with
  | commit n e slot eq =>
    subst eq
    rcases List.mem_append.mp hr with hr | hr
    · exact h.2 r hr
    · obtain rfl := List.mem_singleton.mp hr
      exact Or.inr hok
  | beginInsert e room eq | abort n eq | turn connection eq quiet cursor sending =>
    subst eq
    exact h.2 r hr
  | send cursor c rest head eq =>
    subst eq
    rcases h.2 r hr with hin | hlt
    · exact Or.inl (List.mem_append_left _ hin)
    · have hbatch : unsent w = c :: rest := by simp [unsent, head]
      have hle := hok c rest hbatch r hr hlt
      rcases Nat.eq_or_lt_of_le hle with heq | hlt'
      · obtain ⟨q, hq, hqc⟩ := List.mem_map.mp (h.1.batch c (by simp [hbatch]))
        have hsame : q = r := by
          apply List.inj_on_of_nodup_map h.1.unique hq hr
          rw [← heq, ← hqc]
          rfl
        subst hsame
        exact Or.inl (by simp [hqc])
      · right
        simpa [issued] using hlt'

theorem Complete.skip {w w' : World} {a : Action} (h : Complete w) (hok : ¬InCursorOrder w a)
    (hs : w.step a = some w') : Skipped w' := by
  have he := step_effect h.1 hs
  have hbase := h.1.effect he
  cases he with
  | beginInsert | abort => exact absurd trivial hok
  | commit n e slot eq =>
    refine ⟨hbase, ⟨n, e⟩, by simp [eq], ?_⟩
    subst eq
    refine ⟨Nat.not_lt.mp hok, ?_⟩
    intro hm
    obtain ⟨r, hr, hrc⟩ := List.mem_map.mp (h.1.received _ hm)
    exact (h.1.drawn n e slot).2 r hr (congrArg CursoredEvent.cursor hrc)
  | turn connection eq quiet cursor sending =>
    exact absurd quiet hok
  | send cursor c rest head eq =>
    have hbatch : unsent w = c :: rest := by simp [unsent, head]
    simp only [InCursorOrder, not_forall, Nat.not_le] at hok
    obtain ⟨c', rest', hb, r, hr, hlt, hlt'⟩ := hok
    obtain ⟨rfl, rfl⟩ := List.cons.inj (hbatch.symm.trans hb)
    refine ⟨hbase, r, by simpa [eq] using hr, ?_⟩
    subst eq
    refine ⟨?_, ?_⟩
    · have hmark : issued { w with
          connection := some ⟨c.cursor, .sending rest⟩
          received := w.received ++ [c] } = c.cursor := by
        simp [issued]
      exact (Nat.le_of_lt hlt').trans_eq hmark.symm
    · intro hm
      rcases List.mem_append.mp hm with hm | hm
      · exact absurd (h.1.ordered.below _ hm) (Nat.not_le.mpr hlt)
      · have hc := congrArg CursoredEvent.cursor (List.mem_singleton.mp hm)
        exact absurd hc (Nat.ne_of_lt hlt')

theorem Skipped.step {w w' : World} {a : Action} (h : Skipped w) (hs : w.step a = some w') :
    Skipped w' := by
  obtain ⟨hbase, r, hr, hlost⟩ := h
  have he := step_effect hbase hs
  obtain ⟨more, hrows⟩ := he.rows_grow
  refine ⟨hbase.effect he, r, ?_, hlost.move hbase.ordered (hbase.move he)⟩
  rw [hrows]
  exact List.mem_append_left _ hr

/-- A settled consumer has received the whole table in order exactly when rows
became visible, and cursors were issued, in ordinal order throughout. -/
theorem fleet_stream_delivers_iff (as : List Action) (w : World)
    (h : Machine.run World.step World.start as = some w) (hs : Settled w) :
    Delivered w ↔ Machine.Steps World.step InCursorOrder World.start as := by
  have hstart : Complete World.start := ⟨.start, by simp [World.start]⟩
  obtain ⟨cursor, hconn, hread⟩ := hs
  rcases Machine.run_verdict (fun _ _ _ => Complete.step) (fun _ _ _ => Complete.skip)
    (fun _ _ _ => Skipped.step) hstart h with ⟨⟨hbase, hall⟩, hsteps⟩ | ⟨⟨hbase, r, hr, hlost⟩, hsteps⟩
  · refine iff_of_true ⟨hbase.ordered.passed, ?_⟩ hsteps
    intro r hr
    have hcursor : cursor = issued w := hbase.cursor _ hconn
    have hle := replayFleet_nil (hcursor ▸ hbase.issued_lt) hread r hr
    apply (hall r hr).resolve_right
    omega
  · refine iff_of_false ?_ hsteps
    intro hd
    exact hlost.2 (hd.2 r hr)

def eventOf (agentId : String) : FleetEvent := ⟨1, "t", "r", agentId, .agentGone, none, none⟩

/-- Two inserts draw ordinals 1 and 2; each is drained as soon as it commits,
the second time after a reconnect. -/
def commitsInTurn (first second : Nat) : List Action :=
  [.beginInsert (eventOf "a"), .beginInsert (eventOf "b"), .connect, .read true,
    .commit first, .doorbell, .read true, .send, .send, .read true, .disconnect,
    .commit second, .connect, .read true]

theorem fleet_stream_delivers_in_turn :
    ∃ w, Machine.run World.step World.start
        (commitsInTurn 1 2 ++ [.send, .send, .read true]) = some w ∧
      (Delivered w ↔ Machine.Steps World.step InCursorOrder World.start
        (commitsInTurn 1 2 ++ [.send, .send, .read true])) :=
  ⟨_, rfl, fleet_stream_delivers_iff (commitsInTurn 1 2 ++ [.send, .send, .read true]) _ rfl
    ⟨2, rfl, rfl⟩⟩

/-- Ordinal 2 commits and is issued first; ordinal 1 then lies behind every
cursor. -/
theorem fleet_stream_skips_late_commit :
    ¬∀ (as : List Action) (w : World),
      Machine.run World.step World.start as = some w → Settled w → Delivered w := by
  intro h
  have hd := h (commitsInTurn 2 1) _ rfl ⟨2, rfl, rfl⟩
  have hm : (⟨1, eventOf "a"⟩ : CursoredEvent) ∈ [⟨2, eventOf "b"⟩] :=
    hd.2 ⟨1, eventOf "a"⟩ (.tail _ (.head _))
  have hc := congrArg CursoredEvent.cursor (List.mem_singleton.mp hm)
  cases hc

end Prospero.Proofs.FleetStream
