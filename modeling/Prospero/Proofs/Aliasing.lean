import Prospero.Proofs.Workspaces

namespace Prospero.Workspaces

/-- No workspace goes by two names, in the table or in a replica's memory. -/
def NoAlias (w : World) : Prop :=
  Distinct w.repos ∧ ∀ me, Distinct (w.managers me).registry.workspaces

/-- A write stores a root that the table has under no other name. The check that
`Registry::add` makes is of the replica's own memory. -/
def StoresFreeRoot (w : World) : Action → Prop
  | .upsert id none => ∀ me record, w.calls id = some ⟨me, .storing record⟩ →
      ∀ row ∈ w.repos, row.root = record.root → row.name = record.name
  | .setConfig _ me name config none => ∀ e, validateProviderConfig config = .ok () →
      (w.managers me).registry.get name = some e →
      ∀ row ∈ w.repos, row.root = e.root → row.name = name
  | _ => True

theorem distinct_upsert {rows : List RegisteredWorkspace} {record : RegisteredWorkspace}
    (h : Distinct rows) : Distinct (Table.upsert RegisteredWorkspace.name record rows) ↔
      ∀ row ∈ rows, row.root = record.root → row.name = record.name := by
  have hroots : ((Table.upsert RegisteredWorkspace.name record rows).map
      RegisteredWorkspace.root).Nodup ↔ record.root ∉
        (Table.delete RegisteredWorkspace.name record.name rows).map RegisteredWorkspace.root := by
    have hp := List.perm_orderedInsert (fun a b : RegisteredWorkspace => a.name ≤ b.name) record
      (Table.delete RegisteredWorkspace.name record.name rows)
    rw [Table.upsert, (hp.map RegisteredWorkspace.root).nodup_iff, List.map_cons, List.nodup_cons]
    exact and_iff_left (h.roots.sublist ((List.filter_sublist).map _))
  have hother : record.root ∉
      (Table.delete RegisteredWorkspace.name record.name rows).map RegisteredWorkspace.root ↔
        ∀ row ∈ rows, row.root = record.root → row.name = record.name := by
    rw [List.mem_map]
    constructor
    · intro hno row hrow hroot
      by_contra hne
      exact hno ⟨row, List.mem_filter.mpr ⟨hrow, by simpa using hne⟩, hroot⟩
    · rintro hfree ⟨row, hrow, hroot⟩
      obtain ⟨hrow, hne⟩ := List.mem_filter.mp hrow
      exact of_decide_eq_true hne (hfree row hrow hroot)
  rw [← hother, ← hroots]
  exact ⟨Distinct.roots, fun hr => ⟨Table.nodup_upsert record h.names, hr⟩⟩

section Steps

variable {w w' : World} {a : Action} {me : ReplicaId} {m : Manager}

theorem NoAlias.setManager (h : NoAlias w) (hm : Distinct m.registry.workspaces) :
    NoAlias (w.setManager me m) := by
  refine ⟨h.1, fun r => ?_⟩
  by_cases hr : r = me
  · subst hr
    simpa [World.setManager] using hm
  · simpa [World.setManager, hr] using h.2 r

theorem noAlias_step (h : NoAlias w) (hok : StoresFreeRoot w a) (hstep : step w a = some w') :
    NoAlias w' := by
  cases step_turn hstep with
  | rejected | absent | refused | unread | answered => exact h
  | unstored | undeleted | located | unconnected => exact h
  | registered _ add =>
    exact h.setManager ((Manager.addWorkspace_record add).2.distinct (h.2 _))
  | stored call => exact ⟨(distinct_upsert h.1).mpr (hok _ _ call), h.2⟩
  | pushed => exact h.setManager (by rw [push_registry]; exact h.2 _)
  | unregistered _ remove =>
    rw [(Manager.removeRepo_some remove).2]
    exact h.setManager ((h.2 _).sublist List.filter_sublist)
  | deleted => exact ⟨h.1.sublist List.filter_sublist, h.2⟩
  | pruned | forgotten | dropped | dialled | connected => exact h.setManager (h.2 _)
  | misconfigured _ set =>
    exact h.setManager ((Manager.setRepoConfig_record set).2.2.2.distinct (h.2 _))
  | @configured id me name config m record _ set =>
    obtain ⟨hname, -, ⟨e, he, hrec⟩, hreg⟩ := Manager.setRepoConfig_record set
    have hw : NoAlias (w.setManager me m) := h.setManager (hreg.distinct (h.2 me))
    refine ⟨(distinct_upsert h.1).mpr ?_, hw.2⟩
    intro row hrow hroot
    rw [hname]
    exact hok e (Manager.setRepoConfig_valid set) he row hrow (hroot.trans (by rw [hrec]))
  | refreshed => exact h.setManager h.1
  | reconciled => exact h.setManager (by rw [reconcile_registry]; exact h.2 _)
  | @restarted me =>
    refine ⟨h.1, fun r => ?_⟩
    by_cases hr : r = me
    · subst hr
      simpa [World.restart, Manager.start] using h.1
    · simpa [World.restart, hr] using h.2 r

/-- A write outside the condition puts one root under two names at once. -/
theorem alias_of_taken_root (h : NoAlias w) (hbad : ¬StoresFreeRoot w a)
    (hstep : step w a = some w') : ¬NoAlias w' := by
  intro h'
  apply hbad
  cases step_turn hstep with
  | @stored id me record call =>
    intro me' record' call'
    cases call.symm.trans call'
    exact (distinct_upsert h.1).mp h'.1
  | @configured id me name config m record _ set =>
    obtain ⟨hname, -, ⟨e, he, rfl⟩, -⟩ := Manager.setRepoConfig_record set
    intro e' _ he' row hrow hroot
    cases he.symm.trans he'
    exact ((distinct_upsert h.1).mp h'.1 row hrow hroot).trans hname
  | @refused id me name config failure e _ set =>
    cases failure with
    | some message => trivial
    | none =>
      intro e' hv he'
      obtain ⟨m, record, hok⟩ := Manager.setRepoConfig_ok hv he'
      cases hok.symm.trans set
  | _ => trivial

end Steps

/-- A run is free of aliases throughout exactly when each write that goes through
stores a root that the table has under no other name. -/
theorem no_alias_iff (networkClient : ReplicaId → Except CoreError Bool) (as : List Action)
    (t : World) (hr : Machine.run step (World.start networkClient) as = some t) :
    Machine.Always step NoAlias (World.start networkClient) as ↔
      Machine.Steps step StoresFreeRoot (World.start networkClient) as := by
  have hstart : NoAlias (World.start networkClient) :=
    ⟨⟨List.nodup_nil, List.nodup_nil⟩, fun _ => ⟨List.nodup_nil, List.nodup_nil⟩⟩
  exact Machine.always_iff_steps (fun _ h => h) (fun _ _ _ => noAlias_step)
    (fun _ _ _ => alias_of_taken_root) hstart hr

/-- Each replica checks the root against its own registry, and then both store. -/
def aliasRun : List Action :=
  [.add 0 "a" "one" "/work" none .default, .add 1 "b" "two" "/work" none .default,
    .upsert 0 none, .upsert 1 none]

theorem two_replicas_alias : ∃ t,
    Machine.run step (World.start fun _ => .ok false) aliasRun = some t ∧
      t.repos = [⟨"one", "/work", .default⟩, ⟨"two", "/work", .default⟩] ∧ ¬NoAlias t := by
  refine ⟨_, rfl, rfl, ?_⟩
  intro h
  have hroots : (["/work", "/work"] : List String).Nodup := h.1.roots
  exact absurd hroots (by decide)

/-- One replica at work leaves every root free. -/
def soleRun : List Action :=
  [.add 0 "a" "one" "/work" none .default, .upsert 0 none, .push 0,
    .add 1 "a" "two" "/work" none .default]

theorem no_alias_iff_sole : ∃ t,
    Machine.run step (World.start fun _ => .ok false) soleRun = some t ∧
      (Machine.Always step NoAlias (World.start fun _ => .ok false) soleRun ↔
        Machine.Steps step StoresFreeRoot (World.start fun _ => .ok false) soleRun) :=
  ⟨_, rfl, no_alias_iff _ soleRun _ rfl⟩

end Prospero.Workspaces
