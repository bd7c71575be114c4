import Mathlib.Algebra.Ring.Rat
import Prospero.Reporting
import Prospero.Proofs.UsageQuery

namespace Prospero.Proofs.Reporting
open Prospero.Usage Prospero.UsageQuery Prospero.Reporting
open Proofs.Usage Proofs.UsageQuery

section Events

/-- What one event adds to a measure. -/
def contributed : Measure → EventKind → Rat
  | .cost, .agentFinished _ costUsd _ => costUsd
  | .turns, .agentFinished _ _ turns => turns
  | .done, .statusChanged _ .done => 1
  | .killed, .statusChanged _ .killed => 1
  | .failed, .statusChanged _ .failed => 1
  | .crashed, .statusChanged _ .crashed => 1
  | .timedOut, .agentTimedOut _ => 1
  | _, _ => 0

/-- The events of the window that have a day. -/
def dated (log : List FleetEvent) (since till : String) : List FleetEvent :=
  log.filter fun e => inWindow since till e.ts && (dayOf e.ts).isSome

variable {m : Measure}

theorem contributed_of_not_interesting {kind : EventKind} (h : interesting kind = false) :
    contributed m kind = 0 := by
  cases kind with
  | statusChanged fromStatus toStatus =>
    cases toStatus <;> cases m <;> first | rfl | cases h
  | agentFinished outcome costUsd turns => cases h
  | agentTimedOut deadline => cases h
  | _ => cases m <;> rfl

theorem of_new (workspace day : String) : m.of (.of (UsageRow.new workspace day)) = 0 := by
  cases m <;> rfl

theorem of_count (row : UsageRow) (kind : EventKind) :
    m.of (.of (row.count kind)) = m.of (.of row) + contributed m kind := by
  cases kind with
  | statusChanged fromStatus toStatus =>
    cases toStatus <;> cases m <;>
      simp [Measure.of, UsageBucket.of, UsageRow.count, contributed]
  | _ => cases m <;> simp [Measure.of, UsageBucket.of, UsageRow.count, contributed]

theorem sum_filter {α : Type} {keep : α → Bool} {f : α → Rat} (xs : List α)
    (h : ∀ x ∈ xs, keep x = false → f x = 0) :
    ((xs.filter keep).map f).sum = (xs.map f).sum := by
  induction xs with
  | nil => rfl
  | cons x xs ih =>
    have hrest := ih fun y hy => h y (List.mem_cons_of_mem x hy)
    cases hk : keep x with
    | true => rw [List.filter_cons_of_pos hk, List.map_cons, List.sum_cons, hrest, List.map_cons,
        List.sum_cons]
    | false =>
      rw [List.filter_cons_of_neg (by simp [hk]), hrest, List.map_cons, List.sum_cons,
        h x List.mem_cons_self hk, zero_add]

/-- Those of them that open a row are the ones that the fold counts. -/
theorem filter_folded (log : List FleetEvent) (since till : String) :
    (log.filter fun e => inWindow since till e.ts).filter folded =
      (dated log since till).filter fun e => interesting e.kind := by
  rw [dated, List.filter_filter, List.filter_filter]
  apply List.filter_congr
  intro e _
  rw [folded, Bool.and_comm, Bool.and_comm (interesting e.kind), Bool.and_assoc]

/-- The store's rows come to what the events of the window add. -/
theorem rows_total (m : Measure) (log : List FleetEvent) (since till : String) :
    ((jsonlUsage log since till).map fun r => m.of (.of r)).sum =
      ((dated log since till).map fun e => contributed m e.kind).sum := by
  have hzero : ∀ e ∈ dated log since till, interesting e.kind = false →
      contributed m e.kind = 0 := fun e _ he => contributed_of_not_interesting he
  have hnew : ∀ k : String ×ₗ String, m.of (.of (UsageRow.new (ofLex k).1 (ofLex k).2)) = 0 :=
    fun k => of_new _ _
  have hcount : ∀ (row : UsageRow) (e : FleetEvent),
      m.of (.of (row.count e.kind)) = m.of (.of row) + contributed m e.kind :=
    fun row e => of_count row e.kind
  rw [jsonlUsage, aggregateUsage, foldl_countEvent, filter_folded, ← sum_filter _ hzero]
  exact Grouping.sum_foldl_put (fun r => m.of (.of r)) _ hnew hcount _

end Events

section Groups

/-- A group's figures are those of its days together. -/
structure Totalled (g : UsageGroup) : Prop where
  costUsd : g.costUsd = (g.series.map UsageBucket.costUsd).sum
  turns : g.turns = (g.series.map UsageBucket.turns).sum
  done : g.outcomes.done = (g.series.map fun b => b.outcomes.done).sum
  failed : g.outcomes.failed = (g.series.map fun b => b.outcomes.failed).sum
  killed : g.outcomes.killed = (g.series.map fun b => b.outcomes.killed).sum
  crashed : g.outcomes.crashed = (g.series.map fun b => b.outcomes.crashed).sum
  timedOut : g.outcomes.timedOut = (g.series.map fun b => b.outcomes.timedOut).sum

namespace Totalled

variable {g g' : UsageGroup}

theorem new (workspace : String) : Totalled (UsageGroup.new workspace) :=
  ⟨rfl, rfl, rfl, rfl, rfl, rfl, rfl⟩

theorem add (h : Totalled g) (r : UsageRow) : Totalled (g.add r) where
  costUsd := by simp [UsageGroup.add, UsageBucket.of, h.costUsd]
  turns := by simp [UsageGroup.add, UsageBucket.of, h.turns]
  done := by simp [UsageGroup.add, UsageBucket.of, h.done]
  failed := by simp [UsageGroup.add, UsageBucket.of, h.failed]
  killed := by simp [UsageGroup.add, UsageBucket.of, h.killed]
  crashed := by simp [UsageGroup.add, UsageBucket.of, h.crashed]
  timedOut := by simp [UsageGroup.add, UsageBucket.of, h.timedOut]

theorem foldl (h : Totalled g) (rows : List UsageRow) : Totalled (rows.foldl UsageGroup.add g) := by
  induction rows generalizing g with
  | nil => exact h
  | cons r rows ih => exact ih (h.add r)

theorem sorted (h : Totalled g) : Totalled g.sorted := by
  have hperm : g.sorted.series.Perm g.series := List.perm_insertionSort _ _
  exact {
    costUsd := h.costUsd.trans (hperm.map _).sum_eq.symm
    turns := h.turns.trans (hperm.map _).sum_eq.symm
    done := h.done.trans (hperm.map _).sum_eq.symm
    failed := h.failed.trans (hperm.map _).sum_eq.symm
    killed := h.killed.trans (hperm.map _).sum_eq.symm
    crashed := h.crashed.trans (hperm.map _).sum_eq.symm
    timedOut := h.timedOut.trans (hperm.map _).sum_eq.symm }

/-- So the days are all there is to a group. -/
theorem ext (h : Totalled g) (h' : Totalled g') (hworkspace : g.workspace = g'.workspace)
    (hseries : g.series = g'.series) : g = g' := by
  obtain ⟨_, _, _, ⟨_, _, _, _, _⟩, _⟩ := g
  obtain ⟨_, _, _, ⟨_, _, _, _, _⟩, _⟩ := g'
  cases hworkspace
  cases hseries
  simp only [UsageGroup.mk.injEq, OutcomeCounts.mk.injEq, true_and, and_true]
  exact ⟨h.costUsd.trans h'.costUsd.symm, h.turns.trans h'.turns.symm, h.done.trans h'.done.symm,
    h.failed.trans h'.failed.symm, h.killed.trans h'.killed.symm, h.crashed.trans h'.crashed.symm,
    h.timedOut.trans h'.timedOut.symm⟩

end Totalled

theorem series_foldl (rows : List UsageRow) (g : UsageGroup) :
    (rows.foldl UsageGroup.add g).series = g.series ++ rows.map UsageBucket.of := by
  induction rows generalizing g with
  | nil => simp
  | cons r rows ih =>
    rw [List.foldl_cons, ih, UsageGroup.add, List.append_assoc, List.map_cons]
    rfl

/-- The group of the rows of one workspace. -/
def groupOf (workspace : String) (rows : List UsageRow) : UsageGroup :=
  (rows.foldl UsageGroup.add (UsageGroup.new workspace)).sorted

theorem workspace_groupOf (workspace : String) (rows : List UsageRow) :
    (groupOf workspace rows).workspace = workspace := by
  have hadd : ∀ (g : UsageGroup) (r : UsageRow), (g.add r).workspace = g.workspace :=
    fun _ _ => rfl
  exact Grouping.keyOf_foldl hadd rows (UsageGroup.new workspace)

theorem groups_eq (rows : List UsageRow) (since till : String) :
    (usageReport rows since till).groups = Grouping.groupBy UsageRow.workspace groupOf rows := by
  have hnew : ∀ k, (UsageGroup.new k).workspace = k := fun _ => rfl
  have hadd : ∀ (g : UsageGroup) (r : UsageRow), (g.add r).workspace = g.workspace :=
    fun _ _ => rfl
  have hfold : rows.foldl enter [] = _ := Grouping.foldl_put UsageRow.workspace hnew hadd rows
  rw [usageReport, hfold, Grouping.groupBy, List.map_map]
  rfl

theorem totalled_groupOf (workspace : String) (rows : List UsageRow) :
    Totalled (groupOf workspace rows) :=
  ((Totalled.new workspace).foldl rows).sorted

theorem series_groupOf (workspace : String) (rows : List UsageRow) :
    (groupOf workspace rows).series.Perm (rows.map UsageBucket.of) := by
  have hseries : (rows.foldl UsageGroup.add (UsageGroup.new workspace)).series =
      rows.map UsageBucket.of := series_foldl rows (UsageGroup.new workspace)
  rw [← hseries]
  exact List.perm_insertionSort _ _

variable {rows rows' : List UsageRow}

theorem ascending_groupOf (workspace : String) (h : (rows.map UsageRow.day).Nodup) :
    (groupOf workspace rows).series.Pairwise fun a b => a.day < b.day := by
  have htotal : Std.Total fun a b : UsageBucket => a.day ≤ b.day :=
    ⟨fun a b => le_total a.day b.day⟩
  have htrans : IsTrans UsageBucket fun a b => a.day ≤ b.day := ⟨fun _ _ _ => le_trans⟩
  have hle : (groupOf workspace rows).series.Pairwise fun a b => a.day ≤ b.day :=
    List.pairwise_insertionSort _ _
  have hdays : ((groupOf workspace rows).series.map UsageBucket.day).Perm
      (rows.map UsageRow.day) := by
    have hmap := (series_groupOf workspace rows).map UsageBucket.day
    rwa [List.map_map] at hmap
  have hne : (groupOf workspace rows).series.Pairwise fun a b => a.day ≠ b.day :=
    List.pairwise_map.mp (hdays.nodup_iff.mpr h)
  exact (hle.and hne).imp fun hab => lt_of_le_of_ne hab.1 hab.2

theorem groupOf_perm (workspace : String) (hperm : rows.Perm rows')
    (h : (rows.map UsageRow.day).Nodup) : groupOf workspace rows = groupOf workspace rows' := by
  have h' : (rows'.map UsageRow.day).Nodup := (hperm.map _).nodup_iff.mp h
  apply (totalled_groupOf workspace rows).ext (totalled_groupOf workspace rows')
  · rw [workspace_groupOf, workspace_groupOf]
  · apply Grouping.eq_of_mem_iff (ascending_groupOf workspace h) (ascending_groupOf workspace h')
    intro b
    rw [(series_groupOf workspace rows).mem_iff, (series_groupOf workspace rows').mem_iff,
      (hperm.map _).mem_iff]

/-- A workspace has each day once. -/
theorem days_nodup (h : (rows.map rowKey).Nodup) (workspace : String) :
    ((rows.filter fun r => r.workspace = workspace).map UsageRow.day).Nodup := by
  apply ((List.Nodup.of_map rowKey h).filter _).map_on
  intro r hr r' hr' hday
  obtain ⟨hmem, hname⟩ := List.mem_filter.mp hr
  obtain ⟨hmem', hname'⟩ := List.mem_filter.mp hr'
  have hkey : rowKey r = rowKey r' := by
    rw [rowKey, rowKey, of_decide_eq_true hname, of_decide_eq_true hname', hday]
  exact List.inj_on_of_nodup_map h hmem hmem' hkey

theorem usageReport_perm (hperm : rows.Perm rows') (h : (rows.map rowKey).Nodup)
    (since till : String) : usageReport rows since till = usageReport rows' since till := by
  have hgroups : (usageReport rows since till).groups = (usageReport rows' since till).groups := by
    rw [groups_eq, groups_eq]
    apply Grouping.groupBy_perm hperm
    intro workspace
    exact groupOf_perm workspace (hperm.filter _) (days_nodup h workspace)
  rw [UsageReport.mk.injEq]
  exact ⟨rfl, rfl, hgroups⟩

end Groups

section Series

variable {rows : List UsageRow}

/-- What the days of a group come to. -/
def seriesTotal (m : Measure) (g : UsageGroup) : Rat := (g.series.map m.of).sum

theorem groups_total (m : Measure) (rows : List UsageRow) (since till : String) :
    ((usageReport rows since till).groups.map (seriesTotal m)).sum =
      (rows.map fun r => m.of (.of r)).sum := by
  have hnew : ∀ k, seriesTotal m (UsageGroup.new k) = 0 := fun _ => rfl
  have hadd : ∀ (g : UsageGroup) (r : UsageRow),
      seriesTotal m (g.add r) = seriesTotal m g + m.of (.of r) := by
    intro g r
    simp [seriesTotal, UsageGroup.add]
  have hsorted : ∀ g : UsageGroup, seriesTotal m g.sorted = seriesTotal m g :=
    fun g => ((List.perm_insertionSort _ _).map _).sum_eq
  rw [usageReport, List.map_map, Function.comp_def]
  simp only [hsorted]
  exact Grouping.sum_foldl_put (seriesTotal m) UsageRow.workspace hnew hadd rows

theorem flat_total (m : Measure) (groups : List UsageGroup) :
    ((groups.flatMap UsageGroup.series).map m.of).sum = (groups.map (seriesTotal m)).sum := by
  induction groups with
  | nil => rfl
  | cons g groups ih =>
    rw [List.flatMap_cons, List.map_append, List.sum_append, ih, List.map_cons, List.sum_cons,
      seriesTotal]

/-- The points come to what the groups come to. -/
theorem points_total (m : Measure) (report : UsageReport) :
    ((fleetSeries m report).map Point.value).sum = (report.groups.map (seriesTotal m)).sum := by
  have hnew : ∀ day, Point.value ⟨day, 0⟩ = 0 := fun _ => rfl
  have hplot : ∀ (p : Point) (b : UsageBucket),
      Point.value { p with value := p.value + m.of b } = p.value + m.of b := fun _ _ => rfl
  have hfold : fleetSeries m report = (report.groups.flatMap UsageGroup.series).foldl (plot m) [] :=
    List.foldl_flatMap.symm
  rw [hfold, ← flat_total]
  exact Grouping.sum_foldl_put Point.value UsageBucket.day hnew hplot _

end Series

section Rows

theorem jsonlUsage_eq (log : List FleetEvent) (since till : String) :
    jsonlUsage log since till = Grouping.groupBy
      (fun e => toLex (e.repo, (dayOf e.ts).getD "")) tally
      ((dated log since till).filter fun e => interesting e.kind) := by
  rw [jsonlUsage, aggregateUsage_eq, filter_folded]

theorem rowKey_nodup (log : List FleetEvent) (since till : String) :
    ((jsonlUsage log since till).map rowKey).Nodup := by
  rw [jsonlUsage_eq]
  exact Grouping.keys_nodup (Grouping.groupBy_pairwise _ rowKey_tally)

/-- A workspace has a row where one of its events opens one. -/
theorem mem_workspaces {log : List FleetEvent} {since till workspace : String} :
    (∃ r ∈ jsonlUsage log since till, r.workspace = workspace) ↔
      ∃ e ∈ dated log since till, interesting e.kind = true ∧ e.repo = workspace := by
  have hname : ∀ (key : String ×ₗ String) (events : List FleetEvent),
      (tally key events).workspace = (ofLex key).1 :=
    fun key events => congrArg (fun k => (ofLex k).1) (rowKey_tally key events)
  rw [jsonlUsage_eq]
  constructor
  · rintro ⟨r, hr, rfl⟩
    obtain ⟨e, he, rfl⟩ := Grouping.mem_groupBy.mp hr
    obtain ⟨hmem, hkind⟩ := List.mem_filter.mp he
    refine ⟨e, hmem, hkind, ?_⟩
    rw [hname]
    rfl
  · rintro ⟨e, hmem, hkind, rfl⟩
    exact ⟨_, Grouping.mem_groupBy.mpr ⟨e, List.mem_filter.mpr ⟨hmem, hkind⟩, rfl⟩, hname _ _⟩

end Rows

/-- A report that tells neither more nor less than the events of its window. -/
structure Conserved (log : List FleetEvent) (since till : String) (report : UsageReport) :
    Prop where
  total : ∀ m, ((fleetSeries m report).map Point.value).sum =
    ((dated log since till).map fun e => contributed m e.kind).sum
  ordered : report.groups.Pairwise fun g g' => g.workspace < g'.workspace
  shown : ∀ workspace, (∃ g ∈ report.groups, g.workspace = workspace) ↔
    ∃ e ∈ dated log since till, interesting e.kind = true ∧ e.repo = workspace
  figures : ∀ g ∈ report.groups, Totalled g
  ascending : ∀ g ∈ report.groups, g.series.Pairwise fun a b => a.day < b.day

theorem usage_conserved (log : List FleetEvent) (since till : String) :
    Conserved log since till (usageReport (jsonlUsage log since till) since till) ∧
      ∀ rows : List UsageRow, rows.Perm (jsonlUsage log since till) →
        usageReport rows since till = usageReport (jsonlUsage log since till) since till := by
  have hkeys := rowKey_nodup log since till
  have hgroups := groups_eq (jsonlUsage log since till) since till
  have hmem : ∀ g ∈ (usageReport (jsonlUsage log since till) since till).groups,
      ∃ r ∈ jsonlUsage log since till, g = groupOf r.workspace
        ((jsonlUsage log since till).filter fun q => q.workspace = r.workspace) := by
    intro g hg
    rw [hgroups] at hg
    exact Grouping.mem_groupBy.mp hg
  refine ⟨⟨?_, ?_, ?_, ?_, ?_⟩, ?_⟩
  · intro m
    rw [points_total, groups_total, rows_total]
  · rw [hgroups]
    exact Grouping.groupBy_pairwise _ workspace_groupOf
  · intro workspace
    rw [← mem_workspaces, hgroups]
    constructor
    · rintro ⟨g, hg, rfl⟩
      obtain ⟨r, hr, rfl⟩ := Grouping.mem_groupBy.mp hg
      exact ⟨r, hr, (workspace_groupOf _ _).symm⟩
    · rintro ⟨r, hr, rfl⟩
      exact ⟨_, Grouping.mem_groupBy.mpr ⟨r, hr, rfl⟩, workspace_groupOf _ _⟩
  · intro g hg
    obtain ⟨r, -, rfl⟩ := hmem g hg
    exact totalled_groupOf _ _
  · intro g hg
    obtain ⟨r, -, rfl⟩ := hmem g hg
    exact ascending_groupOf _ (days_nodup hkeys _)
  · intro rows hperm
    exact usageReport_perm hperm ((hperm.map rowKey).nodup_iff.mpr hkeys) since till

section Sample

/-- An outcome with a timestamp too short for a day. -/
def undated : FleetEvent := ⟨0, "2026", "team", "a", .statusChanged .running .done, none, none⟩

/-- It lies in the window and no point has it. -/
theorem undated_outcome_dropped :
    ¬ ∀ (log : List FleetEvent) (since till : String),
      ((fleetSeries .done (usageReport (jsonlUsage log since till) since till)).map
        Point.value).sum =
        ((log.filter fun e => inWindow since till e.ts).map
          fun e => contributed .done e.kind).sum := by
  intro h
  have hone := h [undated] "2026" "2027"
  have hrows : jsonlUsage [undated] "2026" "2027" = [] := by decide
  have hwindow : [undated].filter (fun e => inWindow "2026" "2027" e.ts) = [undated] := rfl
  rw [hrows, hwindow] at hone
  simp [usageReport, fleetSeries, undated, contributed] at hone

end Sample

end Prospero.Proofs.Reporting
