import Prospero.Proofs.Usage
import Prospero.UsageQuery

namespace Prospero.Proofs.UsageQuery
open Prospero.Usage Prospero.UsageQuery Proofs.Usage

section Fold

/-- What one group of events comes to, counted one by one. -/
def tally (key : String ×ₗ String) (events : List FleetEvent) : UsageRow :=
  events.foldl (fun row e => row.count e.kind) (UsageRow.new (ofLex key).1 (ofLex key).2)

theorem rowKey_count (row : UsageRow) (kind : EventKind) : rowKey (row.count kind) = rowKey row := by
  cases kind with
  | statusChanged fromStatus toStatus => cases toStatus <;> rfl
  | _ => rfl

theorem rowKey_tally (key : String ×ₗ String) (events : List FleetEvent) :
    rowKey (tally key events) = key := by
  have hf : ∀ (row : UsageRow) (e : FleetEvent), rowKey (row.count e.kind) = rowKey row :=
    fun row e => rowKey_count row e.kind
  exact Grouping.keyOf_foldl hf events _

theorem day_tally (key : String ×ₗ String) (events : List FleetEvent) :
    (tally key events).day = (ofLex key).2 :=
  congrArg (fun k => (ofLex k).2) (rowKey_tally key events)

/-- The events that the fold counts. -/
def folded (e : FleetEvent) : Bool := (dayOf e.ts).isSome && interesting e.kind

/-- One turn of the loop. -/
def fold (rows : List UsageRow) (e : FleetEvent) : List UsageRow :=
  Grouping.put rowKey (toLex (e.repo, (dayOf e.ts).getD ""))
    (UsageRow.new e.repo ((dayOf e.ts).getD "")) (fun row => row.count e.kind) rows

theorem countEvent_eq (rows : List UsageRow) (e : FleetEvent) :
    countEvent rows e = if folded e then fold rows e else rows := by
  unfold countEvent folded fold
  cases hday : dayOf e.ts with
  | none => simp
  | some day => simp [entry_eq_put]

theorem foldl_countEvent (events : List FleetEvent) (rows : List UsageRow) :
    events.foldl countEvent rows = (events.filter folded).foldl fold rows := by
  induction events generalizing rows with
  | nil => rfl
  | cons e events ih =>
    rw [List.foldl_cons, countEvent_eq, ih]
    cases he : folded e with
    | true => simp [he]
    | false => simp [he]

theorem aggregateUsage_eq (events : List FleetEvent) :
    aggregateUsage events = Grouping.groupBy
      (fun e => toLex (e.repo, (dayOf e.ts).getD "")) tally (events.filter folded) := by
  have hnew : ∀ k : String ×ₗ String, rowKey (UsageRow.new (ofLex k).1 (ofLex k).2) = k :=
    fun _ => rfl
  have hf : ∀ (row : UsageRow) (e : FleetEvent), rowKey (row.count e.kind) = rowKey row :=
    fun row e => rowKey_count row e.kind
  rw [aggregateUsage, foldl_countEvent]
  exact Grouping.foldl_put _ hnew hf _

end Fold

section Columns

variable {N : Type} [AddMonoid N]

theorem sum_null (vs : List Sql) : sum (.null :: vs) = sum vs := by
  cases hv : sum vs <;> simp [sum, hv]

/-- Numbers that `SUM` adds up. -/
structure Adds (lift : N → Sql) : Prop where
  zero : coalesce .null (lift 0) = lift 0
  some : ∀ n, coalesce (lift n) (lift 0) = lift n
  null : ∀ n vs, sum vs = .null → sum (lift n :: vs) = lift n
  add : ∀ n m vs, sum vs = lift m → sum (lift n :: vs) = lift (n + m)

theorem adds_integer : Adds fun n : Nat => Sql.integer n where
  zero := rfl
  some _ := rfl
  null n vs h := by simp [sum, h]
  add n m vs h := by simp [sum, h]

theorem adds_real : Adds Sql.real where
  zero := rfl
  some _ := rfl
  null n vs h := by simp [sum, h]
  add n m vs h := by simp [sum, h]

/-- A figure of the report, with what one event adds to it, and the column that is to come
to the same. -/
structure Column (figure : UsageRow → N) (lift : N → Sql) (value : Value → Sql)
    (adds : EventKind → Option N) : Prop where
  new : ∀ workspace day, figure (UsageRow.new workspace day) = 0
  count : ∀ row kind, figure (row.count kind) = figure row + (adds kind).getD 0
  value : ∀ kind : EventKind, value kind.toJson = (adds kind).elim .null lift

namespace Column

variable {figure : UsageRow → N} {lift : N → Sql} {value : Value → Sql}
  {adds : EventKind → Option N}

theorem foldl (h : Column figure lift value adds) (events : List FleetEvent) (row : UsageRow) :
    figure (events.foldl (fun row e => row.count e.kind) row) =
      figure row + (events.map fun e => (adds e.kind).getD 0).sum := by
  induction events generalizing row with
  | nil => simp
  | cons e events ih =>
    rw [List.foldl_cons, ih, h.count, List.map_cons, List.sum_cons, add_assoc]

theorem sum_eq (h : Column figure lift value adds) (hl : Adds lift) (events : List FleetEvent) :
    sum (events.map fun e => value e.kind.toJson) = .null ∧
        (events.map fun e => (adds e.kind).getD 0).sum = 0 ∨
      sum (events.map fun e => value e.kind.toJson) =
        lift (events.map fun e => (adds e.kind).getD 0).sum := by
  induction events with
  | nil => exact Or.inl ⟨rfl, rfl⟩
  | cons e events ih =>
    simp only [List.map_cons, List.sum_cons]
    rw [h.value e.kind]
    cases hadds : adds e.kind with
    | none =>
      rw [Option.elim_none, Option.getD_none, zero_add, sum_null]
      exact ih
    | some n =>
      right
      rw [Option.elim_some, Option.getD_some]
      rcases ih with ⟨hs, hz⟩ | hs
      · rw [hz, add_zero]
        exact hl.null n _ hs
      · exact hl.add n _ _ hs

/-- The database comes to the figure that the fold comes to. -/
theorem coalesce_sum (h : Column figure lift value adds) (hl : Adds lift)
    (key : String ×ₗ String) (events : List FleetEvent) :
    coalesce (sum ((events.map EventRow.of).map fun r => value r.kind)) (lift 0) =
      lift (figure (tally key events)) := by
  rw [tally, h.foldl, h.new, zero_add, List.map_map]
  change coalesce (sum (events.map fun e => value e.kind.toJson)) (lift 0) = _
  rcases h.sum_eq hl events with ⟨hs, hz⟩ | hs
  · rw [hs, hz, hl.zero]
  · rw [hs, hl.some]

end Column

end Columns

/-- A database finds in the `kind` column what serde has written there. -/
structure Reads (d : Dialect) : Prop where
  tag : ∀ kind : EventKind, d.field kind.toJson "kind" = .text kind.tag
  toStatus : ∀ fromStatus toStatus,
    d.field (EventKind.statusChanged fromStatus toStatus).toJson "to" = .text toStatus.asStr
  noStatus : ∀ kind : EventKind, (∀ fromStatus toStatus, kind ≠ .statusChanged fromStatus toStatus) →
    d.field kind.toJson "to" = .null
  costUsd : ∀ outcome costUsd turns,
    d.costUsd (EventKind.agentFinished outcome costUsd turns).toJson = .real costUsd
  turns : ∀ outcome costUsd turns,
    d.turns (EventKind.agentFinished outcome costUsd turns).toJson = .integer turns

theorem get_kind (kind : EventKind) : kind.toJson.get "kind" = some (.string kind.tag) := rfl

theorem get_to_status (fromStatus toStatus : AgentStatus) :
    (EventKind.statusChanged fromStatus toStatus).toJson.get "to" =
      some (.string toStatus.asStr) := rfl

/-- No other event has a field of that name. -/
theorem get_to (kind : EventKind)
    (h : ∀ fromStatus toStatus, kind ≠ .statusChanged fromStatus toStatus) :
    kind.toJson.get "to" = none := by
  cases kind with
  | statusChanged fromStatus toStatus => exact absurd rfl (h fromStatus toStatus)
  | toolFinished id name ok result truncated => cases result <;> cases truncated <;> rfl
  | _ => rfl

theorem sqlite_reads : Reads sqlite where
  tag kind := by simp only [sqlite, jsonExtract, get_kind]
  toStatus fromStatus toStatus := by simp only [sqlite, jsonExtract, get_to_status]
  noStatus kind h := by simp only [sqlite, jsonExtract, get_to kind h]
  costUsd _ _ _ := rfl
  turns _ _ _ := rfl

theorem postgres_reads : Reads postgres where
  tag kind := by simp only [postgres, jsonbText, get_kind]
  toStatus fromStatus toStatus := by simp only [postgres, jsonbText, get_to_status]
  noStatus kind h := by simp only [postgres, jsonbText, get_to kind h]
  costUsd _ _ _ := rfl
  turns _ _ _ := rfl

namespace Reads

variable {d : Dialect}

theorem counted_eq (h : Reads d) (kind : EventKind) :
    counted d kind.toJson = some true ↔ interesting kind = true := by
  unfold counted
  cases kind with
  | statusChanged fromStatus toStatus =>
    rw [h.tag, h.toStatus]
    simp only [EventKind.tag, interesting]
    cases toStatus <;> decide
  | _ =>
    rw [h.tag, h.noStatus _ (by simp)]
    first | decide | simp [equals, EventKind.tag, or3, and3, interesting]

theorem costUsd_column (h : Reads d) : Column UsageRow.costUsd Sql.real
    (fun kind => caseWhen (equals (d.field kind "kind") "agent_finished") (d.costUsd kind))
    (fun kind => match kind with
      | .agentFinished _ costUsd _ => some costUsd
      | _ => none) where
  new _ _ := rfl
  count row kind := by
    cases kind with
    | statusChanged fromStatus toStatus => cases toStatus <;> simp [UsageRow.count]
    | _ => simp [UsageRow.count]
  value kind := by
    rw [h.tag]
    cases kind with
    | agentFinished outcome costUsd turns =>
      rw [h.costUsd]
      rfl
    | _ => rfl

theorem turns_column (h : Reads d) : Column UsageRow.turns (fun n => .integer n)
    (fun kind => caseWhen (equals (d.field kind "kind") "agent_finished") (d.turns kind))
    (fun kind => match kind with
      | .agentFinished _ _ turns => some turns
      | _ => none) where
  new _ _ := rfl
  count row kind := by
    cases kind with
    | statusChanged fromStatus toStatus => cases toStatus <;> rfl
    | _ => rfl
  value kind := by
    rw [h.tag]
    cases kind with
    | agentFinished outcome costUsd turns =>
      rw [h.turns]
      rfl
    | _ => rfl

theorem timedOut_column (h : Reads d) : Column UsageRow.timedOut (fun n => .integer n)
    (fun kind => caseWhen (equals (d.field kind "kind") "agent_timed_out") (.integer 1))
    (fun kind => match kind with
      | .agentTimedOut _ => some 1
      | _ => none) where
  new _ _ := rfl
  count row kind := by
    cases kind with
    | statusChanged fromStatus toStatus => cases toStatus <;> rfl
    | _ => rfl
  value kind := by
    rw [h.tag]
    cases kind <;> rfl

/-- What an event adds to the number of agents that came to a status. -/
def cameTo (status : AgentStatus) : EventKind → Option Nat
  | .statusChanged _ toStatus => if toStatus = status then some 1 else none
  | _ => none

theorem status_column (h : Reads d) {figure : UsageRow → Nat} (status : AgentStatus)
    (hnew : ∀ workspace day, figure (UsageRow.new workspace day) = 0)
    (hcount : ∀ row kind, figure (row.count kind) = figure row + (cameTo status kind).getD 0) :
    Column figure (fun n => .integer n)
      (fun kind => caseWhen (equals (d.field kind "to") status.asStr) (.integer 1))
      (cameTo status) where
  new := hnew
  count := hcount
  value kind := by
    cases kind with
    | statusChanged fromStatus toStatus =>
      rw [h.toStatus]
      cases toStatus <;> cases status <;> rfl
    | _ =>
      rw [h.noStatus _ (by simp)]
      rfl

/-- One terminal status counts towards one figure. -/
theorem countTo_eq (h : Reads d) {figure : UsageRow → Nat} (status : AgentStatus)
    (hnew : ∀ workspace day, figure (UsageRow.new workspace day) = 0)
    (hother : ∀ row kind, (∀ fromStatus toStatus, kind ≠ .statusChanged fromStatus toStatus) →
      figure (row.count kind) = figure row)
    (hstatus : ∀ row fromStatus toStatus, figure (row.count (.statusChanged fromStatus toStatus)) =
      figure row + if toStatus = status then 1 else 0)
    (key : String ×ₗ String) (events : List FleetEvent) :
    countTo d (events.map EventRow.of) status.asStr = .integer (figure (tally key events)) := by
  refine (h.status_column status hnew ?_).coalesce_sum adds_integer key events
  intro row kind
  cases kind with
  | statusChanged fromStatus toStatus =>
    rw [hstatus, cameTo]
    split <;> rfl
  | _ => exact hother row _ (by simp)

theorem select_eq (h : Reads d) (key : String ×ₗ String) (events : List FleetEvent) :
    select d key (events.map EventRow.of) = {
      workspace := (tally key events).workspace
      day := (tally key events).day
      costUsd := .real (tally key events).costUsd
      turns := .integer (tally key events).turns
      done := .integer (tally key events).done
      failed := .integer (tally key events).failed
      killed := .integer (tally key events).killed
      crashed := .integer (tally key events).crashed
      timedOut := .integer (tally key events).timedOut } := by
  have hkey := rowKey_tally key events
  have hother : ∀ (row : UsageRow) (kind : EventKind),
      (∀ fromStatus toStatus, kind ≠ .statusChanged fromStatus toStatus) →
      (row.count kind).done = row.done ∧ (row.count kind).failed = row.failed ∧
        (row.count kind).killed = row.killed ∧ (row.count kind).crashed = row.crashed := by
    intro row kind hne
    cases kind with
    | statusChanged fromStatus toStatus => exact absurd rfl (hne fromStatus toStatus)
    | _ => exact ⟨rfl, rfl, rfl, rfl⟩
  have hdone := h.countTo_eq .done (fun _ _ => rfl) (fun row kind hne => (hother row kind hne).1)
    (fun row _ toStatus => by cases toStatus <;> rfl) key events
  have hfailed := h.countTo_eq .failed (fun _ _ => rfl)
    (fun row kind hne => (hother row kind hne).2.1)
    (fun row _ toStatus => by cases toStatus <;> rfl) key events
  have hkilled := h.countTo_eq .killed (fun _ _ => rfl)
    (fun row kind hne => (hother row kind hne).2.2.1)
    (fun row _ toStatus => by cases toStatus <;> rfl) key events
  have hcrashed := h.countTo_eq .crashed (fun _ _ => rfl)
    (fun row kind hne => (hother row kind hne).2.2.2)
    (fun row _ toStatus => by cases toStatus <;> rfl) key events
  have hcost := h.costUsd_column.coalesce_sum adds_real key events
  have hturns := h.turns_column.coalesce_sum adds_integer key events
  have htimed := h.timedOut_column.coalesce_sum adds_integer key events
  rw [select]
  congr 1
  · exact (congrArg (fun k => (ofLex k).1) hkey).symm
  · exact (day_tally key events).symm

theorem decode_select (h : Reads d) (key : String ×ₗ String) (events : List FleetEvent) :
    (select d key (events.map EventRow.of)).decode = .ok (tally key events) := by
  rw [h.select_eq]
  rfl

/-- A report over stored rows is the report by workspace and the day column. -/
theorem query_eq (h : Reads d) (events : List FleetEvent) (since till : String) :
    (query d (events.map EventRow.of) since till).mapM SqlRow.decode =
      .ok (Grouping.groupBy (fun e => toLex (e.repo, substr10 e.ts)) tally
        (events.filter fun e => inWindow since till e.ts && interesting e.kind)) := by
  have hwhere : ((fun r : EventRow => inWindow since till r.ts &&
      decide (counted d r.kind = some true)) ∘ EventRow.of) =
      fun e => inWindow since till e.ts && interesting e.kind := by
    funext e
    simp only [Function.comp, EventRow.of, h.counted_eq, Bool.decide_eq_true]
  rw [query, List.filter_map, hwhere, Grouping.groupBy_map]
  exact Grouping.mapM_groupBy h.decode_select

end Reads

section Days

theorem extract_append (s t : String) :
    String.Pos.Raw.extract (s ++ t) 0 ⟨s.utf8ByteSize⟩ = s := by
  simpa using String.extract_of_valid [] s.toList t.toList

theorem dayOf_append {s : String} (t : String) (h : s.utf8ByteSize = 10) :
    dayOf (s ++ t) = some s := by
  have hvalid : (⟨10⟩ : String.Pos.Raw).isValid (s ++ t) := by
    rw [String.Pos.Raw.isValid_eq_true_iff, String.Pos.Raw.isValid_iff_exists_append]
    exact ⟨s, t, rfl, by simp [String.Pos.Raw.ext_iff, h]⟩
  rw [dayOf, if_pos hvalid, ← h, extract_append]

theorem dayOf_size {ts day : String} (h : dayOf ts = some day) : day.utf8ByteSize = 10 := by
  unfold dayOf at h
  split at h
  · rename_i hvalid
    rw [String.Pos.Raw.isValid_eq_true_iff, String.Pos.Raw.isValid_iff_exists_append] at hvalid
    obtain ⟨s, t, rfl, hs⟩ := hvalid
    have hsize : s.utf8ByteSize = 10 := (congrArg String.Pos.Raw.byteIdx hs).symm
    rw [← hsize, extract_append] at h
    rw [← Option.some.inj h, hsize]
  · cases h

theorem substr10_append (ts : String) :
    substr10 ts ++ String.ofList (ts.toList.drop 10) = ts := by
  rw [substr10, ← String.ofList_append, List.take_append_drop, String.ofList_toList]

/-- The fold takes ten bytes for the day and a database ten characters. -/
theorem dayOf_eq_substr10 {ts : String} :
    dayOf ts = some (substr10 ts) ↔ (substr10 ts).utf8ByteSize = 10 := by
  constructor
  · exact dayOf_size
  · intro h
    have hday := dayOf_append (String.ofList (ts.toList.drop 10)) h
    rwa [substr10_append] at hday

theorem utf8Len_ascii {cs : List Char} (h : ∀ c ∈ cs, c.toNat < 128) :
    String.utf8Len cs = cs.length := by
  induction cs with
  | nil => rfl
  | cons c cs ih =>
    have hc : c.utf8Size = 1 := by
      have hlt : c.toNat < 128 := h c (List.mem_cons_self ..)
      rw [Char.utf8Size_eq_one_iff, UInt32.le_iff_toNat_le]
      exact Nat.le_of_lt_succ hlt
    rw [String.utf8Len_cons, ih fun c' hc' => h c' (List.mem_cons_of_mem c hc'), hc,
      List.length_cons]

theorem substr10_size {ts : String} (hlen : 10 ≤ ts.length)
    (hascii : ∀ c ∈ ts.toList.take 10, c.toNat < 128) : (substr10 ts).utf8ByteSize = 10 := by
  rw [← String.utf8Len_toList, substr10, String.toList_ofList, utf8Len_ascii hascii,
    List.length_take, String.length_toList]
  omega

end Days

section Agreement

/-- The events of a window. -/
def window (events : List FleetEvent) (since till : String) : List FleetEvent :=
  events.filter fun e => inWindow since till e.ts

/-- A report groups the events that it counts by the day column. -/
theorem report_eq_fold {events : List FleetEvent} {since till : String}
    (h : ∀ e ∈ window events since till, interesting e.kind = true →
      (substr10 e.ts).utf8ByteSize = 10) :
    Grouping.groupBy (fun e => toLex (e.repo, substr10 e.ts)) tally
        (events.filter fun e => inWindow since till e.ts && interesting e.kind) =
      aggregateUsage (window events since till) := by
  have hfilter : (events.filter fun e => inWindow since till e.ts && interesting e.kind) =
      (window events since till).filter folded := by
    rw [window, List.filter_filter]
    apply List.filter_congr
    intro e he
    cases hin : inWindow since till e.ts with
    | false => simp
    | true =>
      cases hkind : interesting e.kind with
      | false => simp [folded, hkind]
      | true =>
        have hday := dayOf_eq_substr10.mpr (h e (List.mem_filter.mpr ⟨he, hin⟩) hkind)
        simp [folded, hkind, hday]
  rw [hfilter, aggregateUsage_eq]
  apply Grouping.groupBy_congr
  intro e he
  obtain ⟨hin, hfolded⟩ := List.mem_filter.mp he
  have hkind : interesting e.kind = true := (Bool.and_eq_true_iff.mp hfolded).2
  rw [dayOf_eq_substr10.mpr (h e hin hkind), Option.getD_some]

/-- A day of the fold's report has ten bytes. -/
theorem day_size {events : List FleetEvent} {row : UsageRow} (h : row ∈ aggregateUsage events) :
    row.day.utf8ByteSize = 10 := by
  rw [aggregateUsage_eq] at h
  obtain ⟨e, he, rfl⟩ := Grouping.mem_groupBy.mp h
  obtain ⟨-, hfolded⟩ := List.mem_filter.mp he
  obtain ⟨day, hday⟩ := Option.isSome_iff_exists.mp (Bool.and_eq_true_iff.mp hfolded).1
  rw [day_tally, ofLex_toLex, hday, Option.getD_some]
  exact dayOf_size hday

end Agreement

/-- The condition: a cast of the window's kinds survives, and a counted event has a
day of ten bytes. -/
theorem postgres_usage_iff (events : List FleetEvent) (since till : String) :
    postgresUsage (events.map EventRow.of) since till =
        .ok (aggregateUsage (window events since till)) ↔
      ∀ e ∈ window events since till, e.kind.toJson.hasNul = false ∧
        (interesting e.kind = true → (substr10 e.ts).utf8ByteSize = 10) := by
  have hcast : ((events.map EventRow.of).any fun r => inWindow since till r.ts && r.kind.hasNul) =
      (window events since till).any fun e => e.kind.toJson.hasNul := by
    rw [window, List.any_filter, List.any_map]
    rfl
  rw [postgresUsage, hcast, postgres_reads.query_eq]
  constructor
  · intro h e he
    split at h
    · cases h
    · rename_i hnul
      refine ⟨?_, ?_⟩
      · rw [Bool.not_eq_true, List.any_eq_false] at hnul
        simpa using hnul e he
      · intro hkind
        obtain ⟨hlog, hin⟩ := List.mem_filter.mp he
        have hcounted : e ∈ events.filter fun e =>
            inWindow since till e.ts && interesting e.kind :=
          List.mem_filter.mpr ⟨hlog, by rw [hin, hkind, Bool.and_self]⟩
        have hrow : tally (toLex (e.repo, substr10 e.ts)) _ ∈ Grouping.groupBy
            (fun e => toLex (e.repo, substr10 e.ts)) tally _ :=
          Grouping.mem_groupBy.mpr ⟨e, hcounted, rfl⟩
        rw [Except.ok.inj h] at hrow
        have hsize := day_size hrow
        rwa [day_tally] at hsize
  · intro h
    have hnul : ((window events since till).any fun e => e.kind.toJson.hasNul) = false :=
      List.any_eq_false.mpr fun e he => by simp [(h e he).1]
    rw [hnul, if_neg Bool.false_ne_true, report_eq_fold fun e he => (h e he).2]

/-- What an agent wrote, with U+0000 in it. -/
def nulChunk : FleetEvent :=
  ⟨1, "2026-01-02T10:00:00Z", "one", "a", .output .stdout "a\x00b", none, none⟩

/-- The store takes the chunk, and the day has no report. -/
theorem nul_chunk_fails_report :
    CalibandStream.normalizeFrame (.object [("type", .string "AssistantTextDelta"),
        ("text", .string "a\x00b")]) ⟨true⟩ = .event nulChunk.kind ∧
      postgresAppend nulChunk [] = .ok [nulChunk] ∧
      ¬ postgresUsage ([nulChunk].map EventRow.of) "2026-01-02" "2026-01-03" =
        .ok (aggregateUsage (window [nulChunk] "2026-01-02" "2026-01-03")) := by
  refine ⟨rfl, rfl, ?_⟩
  intro h
  cases h

end Prospero.Proofs.UsageQuery
