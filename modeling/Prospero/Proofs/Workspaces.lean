import Prospero.Workspaces

namespace Prospero.Workspaces

/-- No name and no root is registered twice. -/
structure Distinct (rows : List RegisteredWorkspace) : Prop where
  names : (rows.map RegisteredWorkspace.name).Nodup
  roots : (rows.map RegisteredWorkspace.root).Nodup

theorem Distinct.sublist {rows rows' : List RegisteredWorkspace} (h : Distinct rows)
    (hs : rows'.Sublist rows) : Distinct rows' :=
  ⟨h.names.sublist (hs.map _), h.roots.sublist (hs.map _)⟩

theorem Distinct.of_map_eq {rows rows' : List RegisteredWorkspace} (h : Distinct rows)
    (hn : rows'.map RegisteredWorkspace.name = rows.map RegisteredWorkspace.name)
    (hr : rows'.map RegisteredWorkspace.root = rows.map RegisteredWorkspace.root) :
    Distinct rows' :=
  ⟨hn ▸ h.names, hr ▸ h.roots⟩

namespace Registry

variable {reg reg' : Registry} {name root : String} {config : RepoProviderConfig}

/-- An accepted `add` finds the entry there, or appends it under a root of its own. -/
theorem add_cases (h : reg.add name root = .ok reg') :
    (reg' = reg ∧ ∃ e, reg.get name = some e ∧ e.root = root) ∨
      (reg.get name = none ∧ (∀ r ∈ reg.workspaces, r.root ≠ root) ∧
        reg' = ⟨reg.workspaces ++ [⟨name, root, .default⟩]⟩) := by
  unfold add at h
  cases hg : reg.get name with
  | some e =>
    simp only [hg] at h
    split at h
    · rename_i he
      cases h
      exact Or.inl ⟨rfl, e, rfl, he⟩
    · cases h
  | none =>
    simp only [hg] at h
    cases hf : reg.workspaces.find? fun r => r.root = root with
    | some other => simp [hf] at h
    | none =>
      simp only [hf] at h
      cases h
      exact Or.inr ⟨rfl, by simpa using hf, rfl⟩

theorem get_name {e : RegisteredWorkspace} (h : reg.get name = some e) : e.name = name :=
  Table.get_key h

theorem get_add (h : reg.add name root = .ok reg') :
    ∃ e, reg'.get name = some e ∧ e.root = root := by
  rcases add_cases h with ⟨rfl, e, he, hr⟩ | ⟨hg, -, rfl⟩
  · exact ⟨e, he, hr⟩
  · refine ⟨⟨name, root, .default⟩, ?_, rfl⟩
    unfold get at hg ⊢
    rw [Table.get_append, hg, Table.get_singleton]
    simp

theorem get_add_ne {k : String} (h : reg.add name root = .ok reg') (hk : k ≠ name) :
    reg'.get k = reg.get k := by
  rcases add_cases h with ⟨rfl, -⟩ | ⟨-, -, rfl⟩
  · rfl
  · unfold get
    rw [Table.get_append, Table.get_singleton, if_neg (Ne.symm hk), Option.or_none]

theorem names_add (h : reg.add name root = .ok reg')
    (hd : (reg.workspaces.map RegisteredWorkspace.name).Nodup) :
    (reg'.workspaces.map RegisteredWorkspace.name).Nodup := by
  rcases add_cases h with ⟨rfl, -⟩ | ⟨hn, -, rfl⟩
  · exact hd
  · rw [List.map_append]
    apply hd.append (List.nodup_singleton _)
    intro n hm hm'
    obtain ⟨r, hr, rfl⟩ := List.mem_map.mp hm
    exact Table.get_eq_none.mp hn r hr (by simpa using hm')

theorem Distinct.add (h : reg.add name root = .ok reg') (hd : Distinct reg.workspaces) :
    Distinct reg'.workspaces := by
  refine ⟨names_add h hd.names, ?_⟩
  rcases add_cases h with ⟨rfl, -⟩ | ⟨-, hr, rfl⟩
  · exact hd.roots
  · rw [List.map_append]
    apply hd.roots.append (List.nodup_singleton _)
    intro n hm hm'
    obtain ⟨r, hr', rfl⟩ := List.mem_map.mp hm
    exact hr r hr' (by simpa using hm')

theorem setConfig_some (h : reg.setConfig name config = some reg') :
    (reg.get name).isSome ∧ reg'.workspaces =
      Table.modify RegisteredWorkspace.name name (fun r => { r with config := config })
        reg.workspaces := by
  unfold setConfig at h
  cases hg : reg.get name with
  | none => simp [hg] at h
  | some e =>
    simp only [hg] at h
    cases h
    exact ⟨rfl, rfl⟩

theorem get_setConfig (h : reg.setConfig name config = some reg') :
    reg'.get name = (reg.get name).map fun r => { r with config := config } := by
  unfold get
  rw [(setConfig_some h).2]
  exact Table.get_modify_self (by intro r; rfl) _

theorem get_setConfig_ne {k : String} (h : reg.setConfig name config = some reg')
    (hk : k ≠ name) : reg'.get k = reg.get k := by
  unfold get
  rw [(setConfig_some h).2]
  exact Table.get_modify_ne (by intro r; rfl) hk _

theorem names_setConfig (h : reg.setConfig name config = some reg') :
    reg'.workspaces.map RegisteredWorkspace.name = reg.workspaces.map RegisteredWorkspace.name := by
  rw [(setConfig_some h).2]
  exact Table.modify_keys (by intro r; rfl) _

theorem Distinct.setConfig (h : reg.setConfig name config = some reg')
    (hd : Distinct reg.workspaces) : Distinct reg'.workspaces := by
  refine hd.of_map_eq (names_setConfig h) ?_
  rw [(setConfig_some h).2]
  generalize reg.workspaces = rows
  induction rows with
  | nil => rfl
  | cons r rows ih =>
    unfold Table.modify
    split
    · rfl
    · simpa using ih

/-- An entry is given the configuration it has. -/
theorem setConfig_self {e : RegisteredWorkspace} (h : reg.get name = some e) :
    reg.setConfig name e.config = some reg := by
  have hself := (Table.modify_eq_self (f := fun r => { r with config := e.config }) h).mpr rfl
  simp only [setConfig, h, hself]

theorem remove_some (h : reg.remove name = some reg') :
    (reg.get name).isSome ∧
      reg' = ⟨Table.delete RegisteredWorkspace.name name reg.workspaces⟩ := by
  unfold remove at h
  cases hg : reg.get name with
  | none => simp [hg] at h
  | some e =>
    simp only [hg] at h
    cases h
    exact ⟨rfl, rfl⟩

end Registry

namespace Manager

variable {m m' : Manager} {name root : String} {config : RepoProviderConfig}
  {record : RegisteredWorkspace}

/-- What an accepted `add_workspace_with_config` does under the lock: the record
is the one asked for, under that name alone, and it moves no root. -/
structure Registered (m m' : Manager) (record : RegisteredWorkspace) : Prop where
  frame : m' = { m with registry := m'.registry }
  get : m'.registry.get record.name = some record
  get_ne : ∀ k, k ≠ record.name → m'.registry.get k = m.registry.get k
  root : ∀ e, m.registry.get record.name = some e → e.root = record.root
  names : (m.registry.workspaces.map RegisteredWorkspace.name).Nodup →
    (m'.registry.workspaces.map RegisteredWorkspace.name).Nodup
  distinct : Distinct m.registry.workspaces → Distinct m'.registry.workspaces

theorem addWorkspace_record
    (h : m.addWorkspaceWithConfig name root config = .ok (m', record)) :
    record = ⟨name, root, config⟩ ∧ Registered m m' record := by
  unfold addWorkspaceWithConfig at h
  cases hv : validateProviderConfig config with
  | error e => simp [hv] at h
  | ok u =>
    cases ha : m.registry.add name root with
    | error e => simp [hv, ha] at h
    | ok reg =>
      obtain ⟨e, he, hroot⟩ := Registry.get_add ha
      have hname := Registry.get_name he
      obtain ⟨reg', hs⟩ : ∃ reg', reg.setConfig name config = some reg' :=
        ⟨_, by simp [Registry.setConfig, he]; rfl⟩
      have hget := Registry.get_setConfig hs
      rw [he, Option.map_some] at hget
      have hrec : { e with config := config } = (⟨name, root, config⟩ : RegisteredWorkspace) := by
        cases e
        simp_all
      rw [hrec] at hget
      simp only [hv, ha, hs, hget, Option.getD_some] at h
      cases h
      refine ⟨rfl, rfl, hget, ?_, ?_, ?_, ?_⟩
      · intro k hk
        exact (Registry.get_setConfig_ne hs hk).trans (Registry.get_add_ne ha hk)
      · intro e' he'
        rcases Registry.add_cases ha with ⟨rfl, e'', he'', hr⟩ | ⟨hn, -⟩
        · cases he''.symm.trans he'
          exact hr
        · cases hn.symm.trans he'
      · intro hd
        rw [Registry.names_setConfig hs]
        exact Registry.names_add ha hd
      · exact fun hd => Registry.Distinct.setConfig hs (Registry.Distinct.add ha hd)

theorem setRepoConfig_record (h : m.setRepoConfig name config = .ok (m', record)) :
    record.name = name ∧ record.config = config ∧
      (∃ e, m.registry.get name = some e ∧ record = { e with config := config }) ∧
      Registered m m' record := by
  unfold setRepoConfig at h
  cases hv : validateProviderConfig config with
  | error e => simp [hv] at h
  | ok u =>
    cases hs : m.registry.setConfig name config with
    | none => simp [hv, hs] at h
    | some reg =>
      obtain ⟨e, he⟩ := Option.isSome_iff_exists.mp (Registry.setConfig_some hs).1
      have hget := Registry.get_setConfig hs
      rw [he, Option.map_some] at hget
      simp only [hv, hs, hget] at h
      cases h
      have hname := Registry.get_name he
      subst hname
      refine ⟨rfl, rfl, ⟨e, he, rfl⟩, rfl, hget, ?_, ?_, ?_, ?_⟩
      · exact fun k hk => Registry.get_setConfig_ne hs hk
      · intro e' he'
        cases he.symm.trans he'
        rfl
      · exact fun hd => (Registry.names_setConfig hs).symm ▸ hd
      · exact fun hd => Registry.Distinct.setConfig hs hd

theorem setRepoConfig_valid (h : m.setRepoConfig name config = .ok (m', record)) :
    validateProviderConfig config = .ok () := by
  unfold setRepoConfig at h
  split at h
  · cases h
  · assumption

/-- The call comes to its write for every coherent configuration of a name that is
registered. -/
theorem setRepoConfig_ok {e : RegisteredWorkspace} (hv : validateProviderConfig config = .ok ())
    (he : m.registry.get name = some e) : ∃ m' record,
      m.setRepoConfig name config = .ok (m', record) := by
  obtain ⟨reg, hs⟩ : ∃ reg, m.registry.setConfig name config = some reg :=
    ⟨_, by simp [Registry.setConfig, he]; rfl⟩
  have hget := Registry.get_setConfig hs
  rw [he, Option.map_some] at hget
  exact ⟨_, _, by simp only [setRepoConfig, hv, hs, hget]; rfl⟩

theorem removeRepo_some (h : m.removeRepo name = some m') :
    (m.registry.get name).isSome ∧ m' = { m with
      registry := ⟨Table.delete RegisteredWorkspace.name name m.registry.workspaces⟩ } := by
  obtain ⟨reg, hreg, rfl⟩ := Option.map_eq_some_iff.mp h
  obtain ⟨hsome, rfl⟩ := Registry.remove_some hreg
  exact ⟨hsome, rfl⟩

end Manager

theorem push_registry (m : Manager) (r : RegisteredWorkspace) :
    (m.push r).registry = m.registry := by
  unfold Manager.push
  split <;> rfl

theorem reconcile_registry (m : Manager) (durable : List RegisteredWorkspace) :
    (m.reconcile durable).registry = m.registry := by
  have hfold : ∀ m : Manager, (durable.foldl Manager.push m).registry = m.registry := by
    induction durable with
    | nil => exact fun _ => rfl
    | cons d durable ih => exact fun m => (ih _).trans (push_registry m d)
  exact hfold _

namespace World

variable (w : World) (me : ReplicaId) (m : Manager) (id : Nat)

@[simp] theorem setManager_repos : (w.setManager me m).repos = w.repos := rfl
@[simp] theorem setManager_calls : (w.setManager me m).calls = w.calls := rfl
@[simp] theorem setManager_changes : (w.setManager me m).changes = w.changes := rfl
@[simp] theorem setManager_behind : (w.setManager me m).behind = w.behind := rfl

@[simp] theorem setManager_managers_self : (w.setManager me m).managers me = m :=
  Function.update_self ..

variable {me} in
@[simp] theorem setManager_managers_ne {r : ReplicaId} (h : r ≠ me) :
    (w.setManager me m).managers r = w.managers r :=
  Function.update_of_ne h ..

variable (phase : Phase) (result : Except CoreError Bool)

@[simp] theorem setPhase_repos : (w.setPhase id me phase).repos = w.repos := rfl
@[simp] theorem setPhase_managers : (w.setPhase id me phase).managers = w.managers := rfl
@[simp] theorem setPhase_changes : (w.setPhase id me phase).changes = w.changes := rfl
@[simp] theorem setPhase_behind : (w.setPhase id me phase).behind = w.behind := rfl

@[simp] theorem setPhase_calls_self : (w.setPhase id me phase).calls id = some ⟨me, phase⟩ :=
  Function.update_self ..

variable {id} in
@[simp] theorem setPhase_calls_ne {j : Nat} (h : j ≠ id) :
    (w.setPhase id me phase).calls j = w.calls j :=
  Function.update_of_ne h ..

@[simp] theorem finish_repos : (w.finish id result).repos = w.repos := rfl
@[simp] theorem finish_managers : (w.finish id result).managers = w.managers := rfl
@[simp] theorem finish_changes : (w.finish id result).changes = w.changes := rfl
@[simp] theorem finish_behind : (w.finish id result).behind = w.behind := rfl

@[simp] theorem finish_calls_self : (w.finish id result).calls id = none :=
  Function.update_self ..

variable {id} in
@[simp] theorem finish_calls_ne {j : Nat} (h : j ≠ id) :
    (w.finish id result).calls j = w.calls j :=
  Function.update_of_ne h ..

variable (record : RegisteredWorkspace) (name : String) (change : Change)

@[simp] theorem upsertRepo_repos : (w.upsertRepo me record change).repos =
    Table.upsert RegisteredWorkspace.name record w.repos := rfl
@[simp] theorem upsertRepo_managers : (w.upsertRepo me record change).managers = w.managers := rfl
@[simp] theorem upsertRepo_calls : (w.upsertRepo me record change).calls = w.calls := rfl
@[simp] theorem upsertRepo_changes :
    (w.upsertRepo me record change).changes = w.changes ++ [change] := rfl

@[simp] theorem deleteRepo_repos : (w.deleteRepo me name).repos =
    Table.delete RegisteredWorkspace.name name w.repos := rfl
@[simp] theorem deleteRepo_managers : (w.deleteRepo me name).managers = w.managers := rfl
@[simp] theorem deleteRepo_calls : (w.deleteRepo me name).calls = w.calls := rfl
@[simp] theorem deleteRepo_changes :
    (w.deleteRepo me name).changes = w.changes ++ [.removed name] := rfl

@[simp] theorem upsertRepo_behind : (w.upsertRepo me record change).behind me = w.behind me := by
  simp [upsertRepo, write]

@[simp] theorem deleteRepo_behind : (w.deleteRepo me name).behind me = w.behind me := by
  simp [deleteRepo, write]

variable {me} in
theorem upsertRepo_behind_ne {r : ReplicaId} (h : r ≠ me) :
    (w.upsertRepo me record change).behind r = true := by
  simp [upsertRepo, write, h]

variable {me} in
theorem deleteRepo_behind_ne {r : ReplicaId} (h : r ≠ me) :
    (w.deleteRepo me name).behind r = true := by
  simp [deleteRepo, write, h]

end World

/-- One section of one call, with what it found. -/
inductive Turn (w : World) : Action → World → Prop
  | rejected {id : Nat} {me : ReplicaId} {name root : String} {canonical : Option String}
      {config : RepoProviderConfig} {e : CoreError} (free : w.calls id = none) :
      Turn w (.add id me name root canonical config) (w.finish id (.error e))
  | absent {id : Nat} {me : ReplicaId} {name : String} (free : w.calls id = none) :
      Turn w (.remove id me name) (w.finish id (.ok false))
  | refused {id : Nat} {me : ReplicaId} {name : String} {config : RepoProviderConfig}
      {failure : Option String} {e : CoreError} (free : w.calls id = none)
      (set : (w.managers me).setRepoConfig name config = .error e) :
      Turn w (.setConfig id me name config failure) (w.finish id (.error e))
  | unread {id : Nat} {me : ReplicaId} {message : String} (free : w.calls id = none) :
      Turn w (.refresh id me (some message)) (w.finish id (.ok true))
  | answered {id : Nat} {me : ReplicaId} {name : String} {result : Except CoreError Bool}
      (free : w.calls id = none) : Turn w (.clientFor id me name) (w.finish id result)
  | registered {id : Nat} {me : ReplicaId} {name root : String} {canonical : Option String}
      {config : RepoProviderConfig} {m : Manager} {record : RegisteredWorkspace}
      (free : w.calls id = none)
      (add : (w.managers me).addWorkspaceWithConfig name (canonical.getD root) config =
        .ok (m, record)) :
      Turn w (.add id me name root canonical config)
        ((w.setManager me m).setPhase id me (.storing record))
  | unstored {id : Nat} {me : ReplicaId} {record : RegisteredWorkspace} {message : String}
      (call : w.calls id = some ⟨me, .storing record⟩) :
      Turn w (.upsert id (some message)) (w.finish id (.error (upsertError message)))
  | stored {id : Nat} {me : ReplicaId} {record : RegisteredWorkspace}
      (call : w.calls id = some ⟨me, .storing record⟩) :
      Turn w (.upsert id none)
        ((w.upsertRepo me record (.added record)).setPhase id me (.pushing record))
  | pushed {id : Nat} {me : ReplicaId} {record : RegisteredWorkspace}
      (call : w.calls id = some ⟨me, .pushing record⟩) :
      Turn w (.push id) ((w.setManager me ((w.managers me).push record)).finish id (.ok true))
  | unregistered {id : Nat} {me : ReplicaId} {name : String} {m : Manager}
      (free : w.calls id = none) (remove : (w.managers me).removeRepo name = some m) :
      Turn w (.remove id me name) ((w.setManager me m).setPhase id me (.deleting name))
  | undeleted {id : Nat} {me : ReplicaId} {name message : String}
      (call : w.calls id = some ⟨me, .deleting name⟩) :
      Turn w (.delete id (some message)) (w.finish id (.error (deleteError message)))
  | deleted {id : Nat} {me : ReplicaId} {name : String}
      (call : w.calls id = some ⟨me, .deleting name⟩) :
      Turn w (.delete id none) ((w.deleteRepo me name).setPhase id me (.pruning name))
  | pruned {id : Nat} {me : ReplicaId} {name : String}
      (call : w.calls id = some ⟨me, .pruning name⟩) :
      Turn w (.prune id)
        ((w.setManager me ((w.managers me).prune name)).setPhase id me (.forgetting name))
  | forgotten {id : Nat} {me : ReplicaId} {name : String}
      (call : w.calls id = some ⟨me, .forgetting name⟩) :
      Turn w (.forget id)
        ((w.setManager me ((w.managers me).dropClient name)).finish id (.ok true))
  | misconfigured {id : Nat} {me : ReplicaId} {name message : String}
      {config : RepoProviderConfig} {m : Manager} {record : RegisteredWorkspace}
      (free : w.calls id = none)
      (set : (w.managers me).setRepoConfig name config = .ok (m, record)) :
      Turn w (.setConfig id me name config (some message))
        ((w.setManager me m).finish id (.error (upsertError message)))
  | configured {id : Nat} {me : ReplicaId} {name : String} {config : RepoProviderConfig}
      {m : Manager} {record : RegisteredWorkspace} (free : w.calls id = none)
      (set : (w.managers me).setRepoConfig name config = .ok (m, record)) :
      Turn w (.setConfig id me name config none)
        (((w.setManager me m).upsertRepo me record (.configured name config)).finish id (.ok true))
  | refreshed {id : Nat} {me : ReplicaId} (free : w.calls id = none) :
      Turn w (.refresh id me none)
        { (w.setManager me { w.managers me with registry := ⟨w.repos⟩ }).setPhase id me
            (.reconciling w.repos) with
          behind := Function.update w.behind me false }
  | reconciled {id : Nat} {me : ReplicaId} {durable : List RegisteredWorkspace}
      (call : w.calls id = some ⟨me, .reconciling durable⟩) :
      Turn w (.reconcile id)
        ((w.setManager me ((w.managers me).reconcile durable)).finish id (.ok true))
  | dialled {id : Nat} {me : ReplicaId} {name : String} (free : w.calls id = none)
      (none : (w.managers me).clients name = none)
      (network : (w.managers me).networkClient = .ok true) :
      Turn w (.clientFor id me name)
        ((w.setManager me ((w.managers me).insertClient name ⟨Option.none⟩)).finish id (.ok true))
  | located {id : Nat} {me : ReplicaId} {name : String} {r : RegisteredWorkspace}
      (free : w.calls id = none) (get : (w.managers me).registry.get name = some r) :
      Turn w (.clientFor id me name) (w.setPhase id me (.connecting name r.root))
  | unconnected {id : Nat} {me : ReplicaId} {name root message : String}
      (call : w.calls id = some ⟨me, .connecting name root⟩) :
      Turn w (.connected id (some message)) (w.finish id (.error (.discovery message)))
  | connected {id : Nat} {me : ReplicaId} {name root : String}
      (call : w.calls id = some ⟨me, .connecting name root⟩) :
      Turn w (.connected id none)
        ((w.setManager me ((w.managers me).insertClient name ⟨some root⟩)).finish id (.ok true))
  | dropped {me : ReplicaId} {name : String} :
      Turn w (.dropClient me name) (w.setManager me ((w.managers me).dropClient name))
  | restarted {me : ReplicaId} : Turn w (.restart me) (w.restart me)

theorem free_of_not_isSome {w : World} {id : Nat} (h : ¬(w.calls id).isSome) :
    w.calls id = none := by
  simpa using h

theorem step_turn {w w' : World} {a : Action} (h : step w a = some w') : Turn w a w' := by
  cases a with
  | add id me name root canonical config =>
    simp only [step] at h
    split at h
    · cases h
    · rename_i hfree
      split at h <;> cases h
      · exact .rejected (free_of_not_isSome hfree)
      · exact .registered (free_of_not_isSome hfree) ‹_›
  | upsert id failure =>
    simp only [step] at h
    split at h
    · split at h <;> cases h
      · exact .unstored ‹_›
      · exact .stored ‹_›
    · cases h
  | push id =>
    simp only [step] at h
    split at h <;> cases h
    exact .pushed ‹_›
  | remove id me name =>
    simp only [step] at h
    split at h
    · cases h
    · rename_i hfree
      split at h <;> cases h
      · exact .absent (free_of_not_isSome hfree)
      · exact .unregistered (free_of_not_isSome hfree) ‹_›
  | delete id failure =>
    simp only [step] at h
    split at h
    · split at h <;> cases h
      · exact .undeleted ‹_›
      · exact .deleted ‹_›
    · cases h
  | prune id =>
    simp only [step] at h
    split at h <;> cases h
    exact .pruned ‹_›
  | forget id =>
    simp only [step] at h
    split at h <;> cases h
    exact .forgotten ‹_›
  | setConfig id me name config failure =>
    simp only [step] at h
    split at h
    · cases h
    · rename_i hfree
      split at h
      · cases h
        exact .refused (free_of_not_isSome hfree) ‹_›
      · split at h <;> cases h
        · exact .misconfigured (free_of_not_isSome hfree) ‹_›
        · exact .configured (free_of_not_isSome hfree) ‹_›
  | refresh id me failure =>
    simp only [step] at h
    split at h
    · cases h
    · rename_i hfree
      split at h <;> cases h
      · exact .unread (free_of_not_isSome hfree)
      · exact .refreshed (free_of_not_isSome hfree)
  | reconcile id =>
    simp only [step] at h
    split at h <;> cases h
    exact .reconciled ‹_›
  | clientFor id me name =>
    simp only [step] at h
    split at h
    · cases h
    · rename_i hfree
      split at h
      · cases h
        exact .answered (free_of_not_isSome hfree)
      · split at h
        · cases h
          exact .answered (free_of_not_isSome hfree)
        · cases h
          exact .dialled (free_of_not_isSome hfree) ‹_› ‹_›
        · split at h <;> cases h
          · exact .answered (free_of_not_isSome hfree)
          · exact .located (free_of_not_isSome hfree) ‹_›
  | connected id failure =>
    simp only [step] at h
    split at h
    · split at h <;> cases h
      · exact .unconnected ‹_›
      · exact .connected ‹_›
    · cases h
  | dropClient me name =>
    cases h
    exact .dropped
  | restart me =>
    cases h
    exact .restarted

end Prospero.Workspaces
