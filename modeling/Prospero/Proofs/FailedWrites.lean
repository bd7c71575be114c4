import Prospero.Proofs.Workspaces

namespace Prospero.Workspaces

/-- A call that changes the registry. -/
inductive Op
  | add (name root : String) (canonical : Option String) (config : RepoProviderConfig)
  | remove (name : String)
  | setConfig (name : String) (config : RepoProviderConfig)

namespace Op

/-- The call comes to its write. -/
def Writes (m : Manager) : Op → Prop
  | .add name root canonical config => ∃ m' record,
      m.addWorkspaceWithConfig name (canonical.getD root) config = .ok (m', record)
  | .remove name => ∃ m', m.removeRepo name = some m'
  | .setConfig name config => ∃ m' record, m.setRepoConfig name config = .ok (m', record)

/-- The call from its start to its end, with a write that fails. -/
def failing (id : Nat) (me : ReplicaId) (message : String) : Op → List Action
  | .add name root canonical config =>
    [.add id me name root canonical config, .upsert id (some message)]
  | .remove name => [.remove id me name, .delete id (some message)]
  | .setConfig name config => [.setConfig id me name config (some message)]

/-- What is asked for is registered already, to the last field. -/
def Registered (m : Manager) : Op → Prop
  | .add name root canonical config =>
    m.registry.get name = some ⟨name, canonical.getD root, config⟩
  | .remove _ => False
  | .setConfig name config => ∃ e, m.registry.get name = some e ∧ e.config = config

end Op

/-- A manager's registry and what it serves are as they were. -/
def Unchanged (m m' : Manager) : Prop :=
  m'.registry = m.registry ∧ m'.snapshot = m.snapshot

theorem unchanged_iff {m : Manager} {reg : Registry} :
    Unchanged m { m with registry := reg } ↔ reg = m.registry := by
  constructor
  · exact fun h => h.1
  · rintro rfl
    exact ⟨rfl, rfl⟩

section Lock

variable {m m' : Manager} {name root : String} {config : RepoProviderConfig}
  {record : RegisteredWorkspace}

theorem add_unchanged_iff (h : m.addWorkspaceWithConfig name root config = .ok (m', record)) :
    Unchanged m m' ↔ m.registry.get name = some ⟨name, root, config⟩ := by
  obtain ⟨rfl, hreg⟩ := Manager.addWorkspace_record h
  rw [hreg.frame, unchanged_iff]
  constructor
  · intro he
    rw [← he]
    exact hreg.get
  · intro he
    have hadd : m.registry.add name root = .ok m.registry := by simp [Registry.add, he]
    have hset : m.registry.setConfig name config = some m.registry := Registry.setConfig_self he
    unfold Manager.addWorkspaceWithConfig at h
    split at h
    · cases h
    · simp only [hadd, hset, Option.getD_some] at h
      exact (congrArg (fun p => p.1.registry) (Except.ok.inj h)).symm

theorem remove_changed (h : m.removeRepo name = some m') : ¬Unchanged m m' := by
  obtain ⟨hsome, rfl⟩ := Manager.removeRepo_some h
  obtain ⟨e, he⟩ := Option.isSome_iff_exists.mp hsome
  rw [unchanged_iff]
  exact fun heq => Table.delete_ne_self he (congrArg Registry.workspaces heq)

theorem setConfig_unchanged_iff (h : m.setRepoConfig name config = .ok (m', record)) :
    Unchanged m m' ↔ ∃ e, m.registry.get name = some e ∧ e.config = config := by
  obtain ⟨hname, hconfig, ⟨e, he, rfl⟩, hreg⟩ := Manager.setRepoConfig_record h
  subst hname
  rw [hreg.frame, unchanged_iff]
  constructor
  · intro heq
    have hget := hreg.get
    rw [heq, he] at hget
    exact ⟨e, he, congrArg RegisteredWorkspace.config (Option.some.inj hget)⟩
  · rintro ⟨e', he', rfl⟩
    cases he.symm.trans he'
    have hset := Registry.setConfig_self he
    have hv := Manager.setRepoConfig_valid h
    simp only [Manager.setRepoConfig, hv, hset, he] at h
    exact (congrArg (fun p => p.1.registry) (Except.ok.inj h)).symm

end Lock

/-- In every state of every run, a call whose write fails returns the error, and it
leaves the registry and what is served alone only where it asked for what was
registered already: each call changes the memory before it writes. -/
theorem failed_write_iff (networkClient : ReplicaId → Except CoreError Bool) (as : List Action) :
    Machine.Always step (fun w => ∀ id me message (op : Op), w.calls id = none →
      op.Writes (w.managers me) → ∃ w', Machine.run step w (op.failing id me message) = some w' ∧
        (∃ e, w'.returned id = some (.error e)) ∧
        (Unchanged (w.managers me) (w'.managers me) ↔ op.Registered (w.managers me)))
      (World.start networkClient) as := by
  apply Machine.always_mono (P := fun _ => True) _ (Machine.always_of_invariant
    (fun _ _ _ _ _ => trivial) trivial as)
  intro w _ id me message op hfree hw
  cases op with
  | add name root canonical config =>
    obtain ⟨m, record, hadd⟩ := hw
    refine ⟨_, by simp [Machine.run, Op.failing, step, hfree, hadd, World.setPhase]; rfl, ?_, ?_⟩
    · exact ⟨upsertError message, by simp [World.finish]⟩
    · have hiff := add_unchanged_iff hadd
      simpa [World.finish, World.setManager, Op.Registered] using hiff
  | remove name =>
    obtain ⟨m, hremove⟩ := hw
    refine ⟨_, by simp [Machine.run, Op.failing, step, hfree, hremove, World.setPhase]; rfl, ?_, ?_⟩
    · exact ⟨deleteError message, by simp [World.finish]⟩
    · have hchanged := remove_changed hremove
      simpa [World.finish, World.setManager, Op.Registered] using hchanged
  | setConfig name config =>
    obtain ⟨m, record, hset⟩ := hw
    refine ⟨_, by simp [Machine.run, Op.failing, step, hfree, hset]; rfl, ?_, ?_⟩
    · exact ⟨upsertError message, by simp [World.finish]⟩
    · have hiff := setConfig_unchanged_iff hset
      simpa [World.finish, World.setManager, Op.Registered] using hiff

/-- An `add` that could not be stored is registered all the same. -/
theorem failed_add_stays : ∃ w,
    Machine.run step (World.start fun _ => .ok false)
      ((Op.add "one" "/work" none .default).failing 0 "a" "disk I/O error") = some w ∧
      w.returned 0 = some (.error (.store "upsert_repo: disk I/O error")) ∧
      ((World.start fun _ => .ok false).managers "a").registry = ⟨[]⟩ ∧
      (w.managers "a").registry = ⟨[⟨"one", "/work", .default⟩]⟩ :=
  ⟨_, rfl, rfl, rfl, rfl⟩

end Prospero.Workspaces
