import Prospero.Proofs.Workspaces

namespace Prospero.Workspaces

namespace Phase

/-- The call has still to bring the table into line with the registry at a name. -/
def Stores (name : String) : Phase → Prop
  | .storing r => r.name = name
  | .deleting n => n = name
  | _ => False

/-- The call has still to bring the snapshot into line. -/
def Shows (name : String) : Phase → Prop
  | .storing r | .pushing r => r.name = name
  | .deleting n | .pruning n => n = name
  | .reconciling _ => True
  | _ => False

/-- The call has still to forget the client. -/
def Forgets (name : String) : Phase → Prop
  | .deleting n | .pruning n | .forgetting n => n = name
  | _ => False

end Phase

/-- A call of the replica, other than `id`, has something still to do. -/
def Due (w : World) (id : Nat) (me : ReplicaId) (p : Phase → Prop) : Prop :=
  ∃ j phase, j ≠ id ∧ w.calls j = some ⟨me, phase⟩ ∧ p phase

/-- At each name things are as they should, or a call under way has yet to see to it. -/
def UpTo (w : World) (me : ReplicaId) (p : String → Phase → Prop) (good : String → Prop) : Prop :=
  ∀ name, good name ∨ ∃ j phase, w.calls j = some ⟨me, phase⟩ ∧ p name phase

/-- The registry has of a name what the table has, as far as this replica can tell. -/
def Stored (w : World) (me : ReplicaId) (name : String) : Prop :=
  (w.managers me).registry.get name = Table.get RegisteredWorkspace.name name w.repos ∨
    w.behind me = true

namespace Manager

def shownRoot (m : Manager) (name : String) : Option String :=
  (Table.get Workspace.name name m.workspaces).map Workspace.root

def registeredRoot (m : Manager) (name : String) : Option String :=
  (m.registry.get name).map RegisteredWorkspace.root

def Shown (m : Manager) (name : String) : Prop :=
  m.shownRoot name = m.registeredRoot name

/-- A client is good for a root: the network's is for every one. -/
def Serves (client : Client) (root : String) : Prop :=
  ∀ r, client.root = some r → r = root

/-- The client that is cached under a name is one for the root it is registered with. -/
def Cached (m : Manager) (name : String) : Prop :=
  ∀ client, m.clients name = some client →
    ∃ root, m.registeredRoot name = some root ∧ Serves client root

end Manager

/-- What the calls of one replica leave agreed among its registry, the table, its
snapshot and its clients, up to what calls under way have still to do, and up to
what another replica has written since the registry was read. -/
structure Accounted (w : World) (me : ReplicaId) : Prop where
  registry : ((w.managers me).registry.workspaces.map RegisteredWorkspace.name).Nodup
  workspaces : ((w.managers me).workspaces.map Workspace.name).Nodup
  stored : UpTo w me Phase.Stores (Stored w me)
  shown : UpTo w me Phase.Shows (w.managers me).Shown
  cached : UpTo w me Phase.Forgets (w.managers me).Cached

/-- What an acknowledged change makes of the workspaces. -/
def Change.apply (repos : String → Option RegisteredWorkspace) :
    Change → String → Option RegisteredWorkspace
  | .added record => Function.update repos record.name (some record)
  | .removed name => Function.update repos name none
  | .configured name config =>
    Function.update repos name ((repos name).map fun r => { r with config := config })

/-- The workspaces after every change, each as its later ones leave it. -/
def replay (changes : List Change) : String → Option RegisteredWorkspace :=
  changes.foldl Change.apply fun _ => none

/-- Where all calls have ended: the registry is the table, the snapshot and the
clients are the registry's, and every change is reflected that none undid. -/
structure Settled (w : World) (me : ReplicaId) : Prop where
  registry : w.behind me = false →
    ∀ r, r ∈ (w.managers me).registry.workspaces ↔ r ∈ w.repos
  snapshot : ∀ name root, (∃ x ∈ (w.managers me).workspaces, x.name = name ∧ x.root = root) ↔
    ∃ r ∈ (w.managers me).registry.workspaces, r.name = name ∧ r.root = root
  clients : ∀ name client, (w.managers me).clients name = some client →
    ∃ r ∈ (w.managers me).registry.workspaces, r.name = name ∧ Manager.Serves client r.root
  changes : ∀ r, r ∈ w.repos ↔ replay w.changes r.name = some r

def SettlesWhenDone (w : World) : Prop :=
  ∀ me, (∀ id phase, w.calls id ≠ some ⟨me, phase⟩) → Settled w me

/-- A section that ends what its call had to do finds the rest in line with it:
what it stores is what is registered, what it shows is what is registered, and so
on, or another call under way has yet to see to that name. -/
def InLine (w : World) : Action → Prop
  | .upsert id none => ∀ me record, w.calls id = some ⟨me, .storing record⟩ →
      (w.managers me).registry.get record.name = some record ∨ w.behind me = true ∨
        Due w id me (Phase.Stores record.name)
  | .upsert id (some _) => ∀ me record, w.calls id = some ⟨me, .storing record⟩ →
      (Stored w me record.name ∨ Due w id me (Phase.Stores record.name)) ∧
        ((w.managers me).Shown record.name ∨ Due w id me (Phase.Shows record.name))
  | .push id => ∀ me record, w.calls id = some ⟨me, .pushing record⟩ →
      (w.managers me).registeredRoot record.name =
          some (((w.managers me).shownRoot record.name).getD record.root) ∨
        Due w id me (Phase.Shows record.name)
  | .delete id none => ∀ me name, w.calls id = some ⟨me, .deleting name⟩ →
      (w.managers me).registry.get name = none ∨ w.behind me = true ∨
        Due w id me (Phase.Stores name)
  | .delete id (some _) => ∀ me name, w.calls id = some ⟨me, .deleting name⟩ →
      (Stored w me name ∨ Due w id me (Phase.Stores name)) ∧
        ((w.managers me).Shown name ∨ Due w id me (Phase.Shows name)) ∧
        ((w.managers me).Cached name ∨ Due w id me (Phase.Forgets name))
  | .prune id => ∀ me name, w.calls id = some ⟨me, .pruning name⟩ →
      (w.managers me).registry.get name = none ∨ Due w id me (Phase.Shows name)
  | .setConfig id me name config failure => ∀ e, validateProviderConfig config = .ok () →
      (w.managers me).registry.get name = some e →
      match failure with
      | none => (Table.get RegisteredWorkspace.name name w.repos).map RegisteredWorkspace.root =
          some e.root
      | some _ => Table.get RegisteredWorkspace.name name w.repos =
          some { e with config := config } ∨ w.behind me = true ∨ Due w id me (Phase.Stores name)
  | .refresh id me none => ∀ name client, (w.managers me).clients name = some client →
      (∃ r ∈ w.repos, r.name = name ∧ Manager.Serves client r.root) ∨
        Due w id me (Phase.Forgets name)
  | .reconcile id => ∀ me durable, w.calls id = some ⟨me, .reconciling durable⟩ → ∀ name,
      (match Table.get RegisteredWorkspace.name name durable with
        | none => (w.managers me).registry.get name = none
        | some d => (w.managers me).registeredRoot name =
            some (((w.managers me).shownRoot name).getD d.root)) ∨
        Due w id me (Phase.Shows name)
  | .clientFor id me name => (w.managers me).networkClient = .ok true →
      (w.managers me).clients name = none →
      ((w.managers me).registry.get name).isSome ∨ Due w id me (Phase.Forgets name)
  | .connected id none => ∀ me name root, w.calls id = some ⟨me, .connecting name root⟩ →
      (w.managers me).registeredRoot name = some root ∨ Due w id me (Phase.Forgets name)
  | _ => True

section Shown

variable {m : Manager}

theorem shownRoot_push (r : RegisteredWorkspace) (name : String) :
    (m.push r).shownRoot name =
      (m.shownRoot name).or (if r.name = name then some r.root else none) := by
  unfold Manager.push
  by_cases hany : m.workspaces.any fun w => w.name = r.name
  · rw [if_pos hany]
    by_cases hname : r.name = name
    · obtain ⟨x, hx, hxr⟩ := List.any_eq_true.mp hany
      obtain ⟨y, hy⟩ : ∃ y, Table.get Workspace.name x.name m.workspaces = some y :=
        Table.get_isSome hx
      rw [of_decide_eq_true hxr, hname] at hy
      simp [Manager.shownRoot, hy]
    · simp [hname]
  · rw [if_neg hany]
    unfold Manager.shownRoot
    rw [Table.get_append, Table.get_singleton]
    by_cases hname : r.name = name
    · cases Table.get Workspace.name name m.workspaces <;>
        simp [hname, RegisteredWorkspace.toWorkspace]
    · simp [hname, RegisteredWorkspace.toWorkspace]

theorem shownRoot_foldl_push (durable : List RegisteredWorkspace) (m : Manager) (name : String) :
    (durable.foldl Manager.push m).shownRoot name = (m.shownRoot name).or
      ((Table.get RegisteredWorkspace.name name durable).map RegisteredWorkspace.root) := by
  induction durable generalizing m with
  | nil => simp [Table.get]
  | cons d durable ih =>
    rw [List.foldl_cons, ih, shownRoot_push, Option.or_assoc]
    by_cases hname : d.name = name
    · simp [Table.get, hname]
    · simp [Table.get, hname]

/-- After `reconcile` the snapshot has the durable names, each under the root it
already had there or else the durable one. -/
theorem shownRoot_reconcile (durable : List RegisteredWorkspace) (name : String) :
    (m.reconcile durable).shownRoot name =
      (Table.get RegisteredWorkspace.name name durable).map fun d =>
        (m.shownRoot name).getD d.root := by
  have hkept : Table.get Workspace.name name (m.workspaces.filter fun w =>
      durable.any fun d => d.name = w.name) =
        if durable.any fun d => d.name = name then Table.get Workspace.name name m.workspaces
        else none :=
    Table.get_filter (fun k => durable.any fun d => d.name = k) name m.workspaces
  unfold Manager.reconcile
  rw [shownRoot_foldl_push]
  simp only [Manager.shownRoot]
  rw [hkept]
  cases hd : Table.get RegisteredWorkspace.name name durable with
  | none =>
    have hnone : ¬durable.any fun d => d.name = name := by
      simpa using Table.get_eq_none.mp hd
    simp [hnone]
  | some d =>
    have hsome : durable.any fun d => d.name = name :=
      List.any_eq_true.mpr ⟨d, Table.get_mem hd, by simpa using Table.get_key hd⟩
    rw [if_pos hsome]
    cases Table.get Workspace.name name m.workspaces <;> simp

theorem shownRoot_prune_self (name : String) : (m.prune name).shownRoot name = none := by
  simp [Manager.shownRoot, Manager.prune]

theorem shownRoot_prune_ne {name k : String} (h : k ≠ name) :
    (m.prune name).shownRoot k = m.shownRoot k := by
  simp [Manager.shownRoot, Manager.prune, Table.get_delete_ne h]

theorem nodup_push (r : RegisteredWorkspace) (h : (m.workspaces.map Workspace.name).Nodup) :
    ((m.push r).workspaces.map Workspace.name).Nodup := by
  unfold Manager.push
  split
  · exact h
  · rename_i hany
    rw [List.map_append]
    apply h.append (List.nodup_singleton _)
    intro n hm hm'
    obtain ⟨x, hx, rfl⟩ := List.mem_map.mp hm
    exact hany (List.any_eq_true.mpr ⟨x, hx, by
      simpa [RegisteredWorkspace.toWorkspace] using hm'⟩)

theorem nodup_reconcile (durable : List RegisteredWorkspace)
    (h : (m.workspaces.map Workspace.name).Nodup) :
    ((m.reconcile durable).workspaces.map Workspace.name).Nodup := by
  have hfold : ∀ m : Manager, (m.workspaces.map Workspace.name).Nodup →
      ((durable.foldl Manager.push m).workspaces.map Workspace.name).Nodup := by
    induction durable with
    | nil => exact fun _ h => h
    | cons d durable ih => exact fun m h => ih _ (nodup_push d h)
  exact hfold _ (h.sublist ((List.filter_sublist).map _))

end Shown

section Turns

variable {w w' : World} {id : Nat} {me : ReplicaId}

/-- What was as it should be, or was for the call at work to see to, is so again
after its step, or is left to another call. -/
theorem UpTo.turn {p : String → Phase → Prop} {good good' : String → Prop}
    (h : UpTo w me p good) (hcalls : ∀ j, j ≠ id → w'.calls j = w.calls j)
    (now : ∀ n, (good n ∨ ∃ ph, w.calls id = some ⟨me, ph⟩ ∧ p n ph) →
      (good' n ∨ ∃ ph, w'.calls id = some ⟨me, ph⟩ ∧ p n ph) ∨ Due w id me (p n)) :
    UpTo w' me p good' := by
  intro n
  have hleft : ((good n ∨ ∃ ph, w.calls id = some ⟨me, ph⟩ ∧ p n ph) ∨ Due w id me (p n)) := by
    rcases h n with hgood | ⟨j, ph, hj, hp⟩
    · exact Or.inl (Or.inl hgood)
    · by_cases hji : j = id
      · exact Or.inl (Or.inr ⟨ph, hji ▸ hj, hp⟩)
      · exact Or.inr ⟨j, ph, hji, hj, hp⟩
  rcases hleft.elim (now n) Or.inr with (hgood | ⟨ph, hid, hp⟩) | ⟨k, ph, hk, hkc, hp⟩
  · exact Or.inl hgood
  · exact Or.inr ⟨id, ph, hid, hp⟩
  · exact Or.inr ⟨k, ph, (hcalls k hk).trans hkc, hp⟩

/-- A call that is new had nothing to see to. -/
theorem UpTo.begun {p : String → Phase → Prop} {good good' : String → Prop}
    (h : UpTo w me p good) (hcalls : ∀ j, j ≠ id → w'.calls j = w.calls j)
    (hfree : w.calls id = none)
    (keep : ∀ n, good n → good' n ∨ ∃ ph, w'.calls id = some ⟨me, ph⟩ ∧ p n ph) :
    UpTo w' me p good' := by
  apply h.turn hcalls
  rintro n (hgood | ⟨ph, hid, -⟩)
  · exact Or.inl (keep n hgood)
  · cases hfree.symm.trans hid

/-- One section of a call that is known, whose family of names is `p`. -/
theorem UpTo.moved {p : String → Phase → Prop} {good good' : String → Prop} {phase : Phase}
    (h : UpTo w me p good) (hcalls : ∀ j, j ≠ id → w'.calls j = w.calls j)
    (hcall : w.calls id = some ⟨me, phase⟩)
    (now : ∀ n, good n ∨ p n phase →
      (good' n ∨ ∃ ph, w'.calls id = some ⟨me, ph⟩ ∧ p n ph) ∨ Due w id me (p n)) :
    UpTo w' me p good' := by
  apply h.turn hcalls
  rintro n (hgood | ⟨ph, hid, hp⟩)
  · exact now n (Or.inl hgood)
  · cases hcall.symm.trans hid
    exact now n (Or.inr hp)

/-- A replica that takes no part in a step. -/
theorem Accounted.frame (h : Accounted w me) (hm : w'.managers me = w.managers me)
    (hcalls : ∀ j ph, w.calls j = some ⟨me, ph⟩ → w'.calls j = some ⟨me, ph⟩)
    (hstored : ∀ n, Stored w me n → Stored w' me n) : Accounted w' me := by
  have hup : ∀ {p : String → Phase → Prop} {good good' : String → Prop}, UpTo w me p good →
      (∀ n, good n → good' n) → UpTo w' me p good' := by
    intro p good good' h himp n
    exact (h n).imp (himp n) fun ⟨j, ph, hj, hp⟩ => ⟨j, ph, hcalls j ph hj, hp⟩
  refine ⟨hm ▸ h.registry, hm ▸ h.workspaces, hup h.stored hstored, ?_, ?_⟩
  · rw [hm]
    exact hup h.shown fun _ hn => hn
  · rw [hm]
    exact hup h.cached fun _ hn => hn

end Turns

section Registry

variable {m m' : Manager} {record : RegisteredWorkspace} {name root : String}

theorem registeredRoot_of_registered (h : Manager.Registered m m' record)
    (hr : m.registeredRoot name = some root) : m'.registeredRoot name = some root := by
  unfold Manager.registeredRoot at hr ⊢
  by_cases hname : name = record.name
  · subst hname
    obtain ⟨e, he, rfl⟩ := Option.map_eq_some_iff.mp hr
    rw [h.get, h.root e he]
    rfl
  · rw [h.get_ne name hname]
    exact hr

theorem registeredRoot_ne (h : Manager.Registered m m' record) (hname : name ≠ record.name) :
    m'.registeredRoot name = m.registeredRoot name :=
  congrArg (Option.map RegisteredWorkspace.root) (h.get_ne name hname)

theorem cached_of_registered (h : Manager.Registered m m' record) (hc : m.Cached name) :
    m'.Cached name := by
  intro client hclient
  rw [h.frame] at hclient
  obtain ⟨root, hroot, hserves⟩ := hc client hclient
  exact ⟨root, registeredRoot_of_registered h hroot, hserves⟩

theorem shownRoot_of_registered (h : Manager.Registered m m' record) :
    m'.shownRoot name = m.shownRoot name := by
  rw [h.frame]
  rfl

/-- A name that has an entry keeps its root. -/
theorem shown_of_registered {e : RegisteredWorkspace} (h : Manager.Registered m m' record)
    (he : m.registry.get record.name = some e) (hs : m.Shown name) : m'.Shown name := by
  unfold Manager.Shown at hs ⊢
  rw [shownRoot_of_registered h, hs]
  by_cases hname : name = record.name
  · subst hname
    have hroot : m.registeredRoot record.name = some e.root :=
      congrArg (Option.map RegisteredWorkspace.root) he
    rw [hroot, registeredRoot_of_registered h hroot]
  · exact (registeredRoot_ne h hname).symm

end Registry

section Sections

variable {w : World} {id : Nat} {me : ReplicaId}

theorem Accounted.register {m : Manager} {record : RegisteredWorkspace} (h : Accounted w me)
    (hfree : w.calls id = none) (hreg : Manager.Registered (w.managers me) m record) :
    Accounted ((w.setManager me m).setPhase id me (.storing record)) me := by
  have hcalls : ∀ j, j ≠ id →
      ((w.setManager me m).setPhase id me (.storing record)).calls j = w.calls j := by
    intro j hj
    simp [hj]
  refine ⟨?_, ?_, h.stored.begun hcalls hfree ?_, h.shown.begun hcalls hfree ?_,
    h.cached.begun hcalls hfree ?_⟩
  · simpa using hreg.names h.registry
  · rw [World.setPhase_managers, World.setManager_managers_self, hreg.frame]
    exact h.workspaces
  · intro n hn
    by_cases hname : n = record.name
    · exact Or.inr ⟨_, World.setPhase_calls_self .., hname.symm⟩
    · exact Or.inl (by simpa [Stored, hreg.get_ne n hname] using hn)
  · intro n hn
    by_cases hname : n = record.name
    · exact Or.inr ⟨_, World.setPhase_calls_self .., hname.symm⟩
    · left
      rw [World.setPhase_managers, World.setManager_managers_self]
      unfold Manager.Shown at hn ⊢
      rw [shownRoot_of_registered hreg, registeredRoot_ne hreg hname]
      exact hn
  · intro n hn
    left
    rw [World.setPhase_managers, World.setManager_managers_self]
    exact cached_of_registered hreg hn

/-- A call ends where it is, having changed nothing: what it had to see to is in
line already or another's. -/
theorem Accounted.end {phase : Phase} {result : Except CoreError Bool} (h : Accounted w me)
    (hcall : w.calls id = some ⟨me, phase⟩)
    (stored : ∀ n, phase.Stores n → Stored w me n ∨ Due w id me (Phase.Stores n))
    (shown : ∀ n, phase.Shows n → (w.managers me).Shown n ∨ Due w id me (Phase.Shows n))
    (cached : ∀ n, phase.Forgets n → (w.managers me).Cached n ∨ Due w id me (Phase.Forgets n)) :
    Accounted (w.finish id result) me := by
  have hcalls : ∀ j, j ≠ id → (w.finish id result).calls j = w.calls j :=
    fun j hj => World.finish_calls_ne w result hj
  refine ⟨h.registry, h.workspaces, h.stored.moved hcalls hcall ?_,
    h.shown.moved hcalls hcall ?_, h.cached.moved hcalls hcall ?_⟩
  · rintro n (hn | hp)
    · exact Or.inl (Or.inl hn)
    · exact (stored n hp).imp_left Or.inl
  · rintro n (hn | hp)
    · exact Or.inl (Or.inl hn)
    · exact (shown n hp).imp_left Or.inl
  · rintro n (hn | hp)
    · exact Or.inl (Or.inl hn)
    · exact (cached n hp).imp_left Or.inl

/-- A call that writes one name's row; what else it was to see to, it still is. -/
theorem Accounted.wrote {phase next : Phase} {name : String} (h : Accounted w me)
    (hcall : w.calls id = some ⟨me, phase⟩) (hnext : w'.calls id = some ⟨me, next⟩)
    (hm : w'.managers me = w.managers me) (hcalls : ∀ j, j ≠ id → w'.calls j = w.calls j)
    (hstores : ∀ n, phase.Stores n → n = name)
    (hshows : ∀ n, phase.Shows n → next.Shows n)
    (hforgets : ∀ n, phase.Forgets n → next.Forgets n)
    (hother : ∀ n, n ≠ name → Stored w me n → Stored w' me n)
    (hname : Stored w' me name ∨ Due w id me (Phase.Stores name)) : Accounted w' me := by
  refine ⟨hm ▸ h.registry, hm ▸ h.workspaces, h.stored.moved hcalls hcall ?_,
    h.shown.moved hcalls hcall ?_, h.cached.moved hcalls hcall ?_⟩
  · intro n hn
    by_cases heq : n = name
    · subst heq
      exact hname.imp_left Or.inl
    · rcases hn with hn | hp
      · exact Or.inl (Or.inl (hother n heq hn))
      · exact absurd (hstores n hp) heq
  · rintro n (hn | hp)
    · exact Or.inl (Or.inl (hm ▸ hn))
    · exact Or.inl (Or.inr ⟨next, hnext, hshows n hp⟩)
  · rintro n (hn | hp)
    · exact Or.inl (Or.inl (hm ▸ hn))
    · exact Or.inl (Or.inr ⟨next, hnext, hforgets n hp⟩)

theorem Accounted.store {record : RegisteredWorkspace} {change : Change} (h : Accounted w me)
    (hrepos : (w.repos.map RegisteredWorkspace.name).Nodup)
    (hcall : w.calls id = some ⟨me, .storing record⟩) (hok : InLine w (.upsert id none)) :
    Accounted ((w.upsertRepo me record change).setPhase id me (.pushing record)) me := by
  refine h.wrote hcall (World.setPhase_calls_self ..) rfl ?_ (fun n hp => hp.symm)
    (fun n hp => hp) (fun n hp => hp) ?_ ?_
  · intro j hj
    simp [hj]
  · intro n hname hn
    unfold Stored at hn ⊢
    simpa [Table.get_upsert_ne hrepos hname] using hn
  · rcases hok me record hcall with hget | hbehind | hdue
    · exact Or.inl (Or.inl (hget.trans (Table.get_upsert_self record hrepos).symm))
    · exact Or.inl (Or.inr (by simpa using hbehind))
    · exact Or.inr hdue

/-- A section that leaves the registry and the table alone. -/
theorem Accounted.rework {w' : World} {m : Manager} (id : Nat) (h : Accounted w me)
    (hm : w'.managers me = m) (hregistry : m.registry = (w.managers me).registry)
    (hrepos : w'.repos = w.repos) (hbehind : w'.behind = w.behind)
    (hcalls : ∀ j, j ≠ id → w'.calls j = w.calls j)
    (hnodup : (m.workspaces.map Workspace.name).Nodup)
    (hstores : ∀ n ph, w.calls id = some ⟨me, ph⟩ → ¬ph.Stores n)
    (shown : ∀ n, ((w.managers me).Shown n ∨ ∃ ph, w.calls id = some ⟨me, ph⟩ ∧ ph.Shows n) →
      (m.Shown n ∨ ∃ ph, w'.calls id = some ⟨me, ph⟩ ∧ ph.Shows n) ∨ Due w id me (Phase.Shows n))
    (cached : ∀ n, ((w.managers me).Cached n ∨ ∃ ph, w.calls id = some ⟨me, ph⟩ ∧ ph.Forgets n) →
      (m.Cached n ∨ ∃ ph, w'.calls id = some ⟨me, ph⟩ ∧ ph.Forgets n) ∨
        Due w id me (Phase.Forgets n)) : Accounted w' me := by
  subst hm
  refine ⟨hregistry ▸ h.registry, hnodup, h.stored.turn hcalls ?_, h.shown.turn hcalls shown,
    h.cached.turn hcalls cached⟩
  rintro n (hn | ⟨ph, hid, hp⟩)
  · unfold Stored at hn ⊢
    rw [hregistry, hrepos, hbehind]
    exact Or.inl (Or.inl hn)
  · exact absurd hp (hstores n ph hid)

theorem cached_congr {m m' : Manager} {name : String} (hregistry : m'.registry = m.registry)
    (hclients : m'.clients name = m.clients name) : m'.Cached name ↔ m.Cached name := by
  unfold Manager.Cached Manager.registeredRoot
  rw [hregistry, hclients]

theorem shown_congr {m m' : Manager} {name : String} (hregistry : m'.registry = m.registry)
    (hshown : m'.shownRoot name = m.shownRoot name) : m'.Shown name ↔ m.Shown name := by
  unfold Manager.Shown Manager.registeredRoot
  rw [hregistry, hshown]

theorem push_clients (m : Manager) (r : RegisteredWorkspace) : (m.push r).clients = m.clients := by
  unfold Manager.push
  split <;> rfl

theorem reconcile_clients (m : Manager) (durable : List RegisteredWorkspace) :
    (m.reconcile durable).clients = m.clients := by
  have hfold : ∀ m : Manager, (durable.foldl Manager.push m).clients = m.clients := by
    induction durable with
    | nil => exact fun _ => rfl
    | cons d durable ih => exact fun m => (ih _).trans (push_clients m d)
  exact hfold _

theorem Accounted.push {record : RegisteredWorkspace} {result : Except CoreError Bool}
    (h : Accounted w me) (hcall : w.calls id = some ⟨me, .pushing record⟩)
    (hok : InLine w (.push id)) :
    Accounted ((w.setManager me ((w.managers me).push record)).finish id result) me := by
  have hregistry := push_registry (w.managers me) record
  refine h.rework id (World.setManager_managers_self ..) hregistry rfl rfl
    (fun j hj => World.finish_calls_ne _ _ hj) (nodup_push record h.workspaces) ?_ ?_ ?_
  · intro n ph hid hp
    cases hcall.symm.trans hid
    cases hp
  · intro n hn
    by_cases hname : n = record.name
    · subst hname
      refine (hok me record hcall).imp_left fun hroot => Or.inl ?_
      unfold Manager.Shown
      rw [shownRoot_push, if_pos rfl]
      have hreg : ((w.managers me).push record).registeredRoot record.name =
          (w.managers me).registeredRoot record.name := by
        unfold Manager.registeredRoot
        rw [hregistry]
      rw [hreg, hroot]
      cases (w.managers me).shownRoot record.name <;> rfl
    · rcases hn with hn | ⟨ph, hid, hp⟩
      · refine Or.inl (Or.inl ((shown_congr hregistry ?_).mpr hn))
        rw [shownRoot_push, if_neg (Ne.symm hname), Option.or_none]
      · cases hcall.symm.trans hid
        exact absurd hp.symm hname
  · rintro n (hn | ⟨ph, hid, hp⟩)
    · exact Or.inl (Or.inl ((cached_congr hregistry (by rw [push_clients])).mpr hn))
    · cases hcall.symm.trans hid
      cases hp

theorem Accounted.prune {name : String} (h : Accounted w me)
    (hcall : w.calls id = some ⟨me, .pruning name⟩) (hok : InLine w (.prune id)) :
    Accounted ((w.setManager me ((w.managers me).prune name)).setPhase id me
      (.forgetting name)) me := by
  have hself : ((w.setManager me ((w.managers me).prune name)).setPhase id me
      (.forgetting name)).managers me = (w.managers me).prune name := by simp
  refine h.rework id hself rfl rfl rfl
    (fun j hj => World.setPhase_calls_ne _ _ _ hj) ?_ ?_ ?_ ?_
  · exact h.workspaces.sublist (Table.delete_keys_sublist ..)
  · intro n ph hid hp
    cases hcall.symm.trans hid
    cases hp
  · intro n hn
    by_cases hname : n = name
    · subst hname
      refine (hok me n hcall).imp_left fun hget => Or.inl ?_
      have hroot : (w.managers me).registeredRoot n = none :=
        congrArg (Option.map RegisteredWorkspace.root) hget
      exact (shownRoot_prune_self n).trans hroot.symm
    · rcases hn with hn | ⟨ph, hid, hp⟩
      · have hcongr : ((w.managers me).prune name).Shown n ↔ (w.managers me).Shown n :=
          shown_congr rfl (shownRoot_prune_ne hname)
        exact Or.inl (Or.inl (hcongr.mpr hn))
      · cases hcall.symm.trans hid
        exact absurd hp.symm hname
  · rintro n (hn | ⟨ph, hid, hp⟩)
    · exact Or.inl (Or.inl hn)
    · cases hcall.symm.trans hid
      exact Or.inl (Or.inr ⟨_, World.setPhase_calls_self .., hp⟩)

theorem Accounted.forget {name : String} {result : Except CoreError Bool} (h : Accounted w me)
    (hcall : w.calls id = some ⟨me, .forgetting name⟩) :
    Accounted ((w.setManager me ((w.managers me).dropClient name)).finish id result) me := by
  refine h.rework id (World.setManager_managers_self ..) rfl rfl rfl
    (fun j hj => World.finish_calls_ne _ _ hj) h.workspaces ?_ ?_ ?_
  · intro n ph hid hp
    cases hcall.symm.trans hid
    cases hp
  · rintro n (hn | ⟨ph, hid, hp⟩)
    · exact Or.inl (Or.inl hn)
    · cases hcall.symm.trans hid
      cases hp
  · intro n hn
    refine Or.inl (Or.inl ?_)
    by_cases hname : n = name
    · subst hname
      intro client hclient
      simp [Manager.dropClient] at hclient
    · rcases hn with hn | ⟨ph, hid, hp⟩
      · have hcongr : ((w.managers me).dropClient name).Cached n ↔ (w.managers me).Cached n :=
          cached_congr rfl (Function.update_of_ne hname ..)
        exact hcongr.mpr hn
      · cases hcall.symm.trans hid
        exact absurd hp.symm hname

theorem Accounted.reconcile {durable : List RegisteredWorkspace} {result : Except CoreError Bool}
    (h : Accounted w me) (hcall : w.calls id = some ⟨me, .reconciling durable⟩)
    (hok : InLine w (.reconcile id)) :
    Accounted ((w.setManager me ((w.managers me).reconcile durable)).finish id result) me := by
  have hregistry := reconcile_registry (w.managers me) durable
  refine h.rework id (World.setManager_managers_self ..) hregistry rfl rfl
    (fun j hj => World.finish_calls_ne _ _ hj) (nodup_reconcile durable h.workspaces) ?_ ?_ ?_
  · intro n ph hid hp
    cases hcall.symm.trans hid
    cases hp
  · intro n _
    refine (hok me durable hcall n).imp_left fun hroot => Or.inl ?_
    have hreg : ((w.managers me).reconcile durable).registeredRoot n =
        (w.managers me).registeredRoot n := by
      unfold Manager.registeredRoot
      rw [hregistry]
    unfold Manager.Shown
    rw [shownRoot_reconcile, hreg]
    cases hd : Table.get RegisteredWorkspace.name n durable with
    | none =>
      rw [hd] at hroot
      exact (congrArg (Option.map RegisteredWorkspace.root) hroot).symm
    | some d =>
      rw [hd] at hroot
      exact hroot.symm
  · rintro n (hn | ⟨ph, hid, hp⟩)
    · exact Or.inl (Or.inl ((cached_congr hregistry (by rw [reconcile_clients])).mpr hn))
    · cases hcall.symm.trans hid
      cases hp

/-- The client of a name is put in, by a call that saw to nothing but that. -/
theorem Accounted.insert {name : String} {client : Client} {result : Except CoreError Bool}
    (h : Accounted w me)
    (hidle : ∀ ph, w.calls id = some ⟨me, ph⟩ →
      ∀ n, ¬ph.Stores n ∧ ¬ph.Shows n ∧ ¬ph.Forgets n)
    (hok : (∃ root, (w.managers me).registeredRoot name = some root ∧
      Manager.Serves client root) ∨ Due w id me (Phase.Forgets name)) :
    Accounted ((w.setManager me ((w.managers me).insertClient name client)).finish id result)
      me := by
  refine h.rework id (World.setManager_managers_self ..) rfl rfl rfl
    (fun j hj => World.finish_calls_ne _ _ hj) h.workspaces ?_ ?_ ?_
  · exact fun n ph hid => (hidle ph hid n).1
  · rintro n (hn | ⟨ph, hid, hp⟩)
    · exact Or.inl (Or.inl hn)
    · exact absurd hp (hidle ph hid n).2.1
  · intro n hn
    by_cases hname : n = name
    · subst hname
      refine hok.imp_left fun hroot => Or.inl ?_
      intro c hc
      obtain rfl : client = c := by simpa [Manager.insertClient] using hc
      exact hroot
    · rcases hn with hn | ⟨ph, hid, hp⟩
      · have hcongr : ((w.managers me).insertClient name client).Cached n ↔
            (w.managers me).Cached n := cached_congr rfl (Function.update_of_ne hname ..)
        exact Or.inl (Or.inl (hcongr.mpr hn))
      · exact absurd hp (hidle ph hid n).2.2

theorem Accounted.drop {name : String} (h : Accounted w me) :
    Accounted (w.setManager me ((w.managers me).dropClient name)) me := by
  refine ⟨by simpa [Manager.dropClient] using h.registry,
    by simpa [Manager.dropClient] using h.workspaces, ?_, ?_, ?_⟩
  · exact fun n => (h.stored n).imp_left fun hn => by simpa [Stored, Manager.dropClient] using hn
  · rw [World.setManager_managers_self]
    exact h.shown
  · intro n
    refine (h.cached n).imp_left fun hn => ?_
    rw [World.setManager_managers_self]
    intro client hclient
    by_cases hname : n = name
    · subst hname
      simp [Manager.dropClient] at hclient
    · exact hn client (by simpa [Manager.dropClient, hname] using hclient)

theorem Accounted.unregister {name : String} {m : Manager} (h : Accounted w me)
    (hfree : w.calls id = none) (hremove : (w.managers me).removeRepo name = some m) :
    Accounted ((w.setManager me m).setPhase id me (.deleting name)) me := by
  obtain ⟨-, rfl⟩ := Manager.removeRepo_some hremove
  have hcalls : ∀ m, ∀ j, j ≠ id →
      ((w.setManager me m).setPhase id me (.deleting name)).calls j = w.calls j := by
    intro m j hj
    simp [hj]
  have hget : ∀ n, n ≠ name → Registry.get ⟨Table.delete RegisteredWorkspace.name name
      (w.managers me).registry.workspaces⟩ n = (w.managers me).registry.get n :=
    fun n hn => Table.get_delete_ne hn _
  refine ⟨?_, by simpa using h.workspaces, h.stored.begun (hcalls _) hfree ?_,
    h.shown.begun (hcalls _) hfree ?_, h.cached.begun (hcalls _) hfree ?_⟩
  · simpa using h.registry.sublist (Table.delete_keys_sublist name _)
  · intro n hn
    by_cases hname : n = name
    · exact Or.inr ⟨_, World.setPhase_calls_self .., hname.symm⟩
    · exact Or.inl (by simpa [Stored, hget n hname] using hn)
  · intro n hn
    by_cases hname : n = name
    · exact Or.inr ⟨_, World.setPhase_calls_self .., hname.symm⟩
    · left
      unfold Manager.Shown Manager.registeredRoot at hn ⊢
      simpa [hget n hname, Manager.shownRoot] using hn
  · intro n hn
    by_cases hname : n = name
    · exact Or.inr ⟨_, World.setPhase_calls_self .., hname.symm⟩
    · left
      unfold Manager.Cached Manager.registeredRoot at hn ⊢
      simpa [hget n hname] using hn

theorem Accounted.delete {name : String} (h : Accounted w me)
    (hcall : w.calls id = some ⟨me, .deleting name⟩) (hok : InLine w (.delete id none)) :
    Accounted ((w.deleteRepo me name).setPhase id me (.pruning name)) me := by
  refine h.wrote hcall (World.setPhase_calls_self ..) rfl ?_ (fun n hp => hp.symm)
    (fun n hp => hp) (fun n hp => hp) ?_ ?_
  · intro j hj
    simp [hj]
  · intro n hname hn
    unfold Stored at hn ⊢
    simpa [Table.get_delete_ne hname] using hn
  · rcases hok me name hcall with hget | hbehind | hdue
    · exact Or.inl (Or.inl (hget.trans (Table.get_delete_self name _).symm))
    · exact Or.inl (Or.inr (by simpa using hbehind))
    · exact Or.inr hdue

/-- A configuration is set in memory, and stored or not. -/
theorem Accounted.configure {w' : World} {m : Manager} {record e : RegisteredWorkspace}
    (h : Accounted w me) (hfree : w.calls id = none) (hcalls : ∀ j, w'.calls j = w.calls j)
    (hm : w'.managers me = m) (hreg : Manager.Registered (w.managers me) m record)
    (he : (w.managers me).registry.get record.name = some e)
    (hother : ∀ n, n ≠ record.name → Stored w me n → Stored w' me n)
    (hname : Stored w' me record.name ∨ Due w id me (Phase.Stores record.name)) :
    Accounted w' me := by
  subst hm
  have hother' : ∀ j, j ≠ id → w'.calls j = w.calls j := fun j _ => hcalls j
  refine ⟨hreg.names h.registry, ?_, h.stored.turn hother' ?_, h.shown.begun hother' hfree ?_,
    h.cached.begun hother' hfree ?_⟩
  · rw [hreg.frame]
    exact h.workspaces
  · rintro n (hn | ⟨ph, hid, -⟩)
    · by_cases heq : n = record.name
      · subst heq
        exact hname.imp_left Or.inl
      · exact Or.inl (Or.inl (hother n heq hn))
    · cases hfree.symm.trans hid
  · exact fun n hn => Or.inl (shown_of_registered hreg he hn)
  · exact fun n hn => Or.inl (cached_of_registered hreg hn)

theorem Accounted.refresh (h : Accounted w me)
    (hrepos : (w.repos.map RegisteredWorkspace.name).Nodup) (hfree : w.calls id = none)
    (hok : InLine w (.refresh id me none)) :
    Accounted { (w.setManager me { w.managers me with registry := ⟨w.repos⟩ }).setPhase id me
      (.reconciling w.repos) with behind := Function.update w.behind me false } me := by
  have hcalls : ∀ j, j ≠ id → World.calls
      { (w.setManager me { w.managers me with registry := ⟨w.repos⟩ }).setPhase id me
        (.reconciling w.repos) with behind := Function.update w.behind me false } j =
        w.calls j := by
    intro j hj
    simp [hj]
  refine ⟨by simpa using hrepos, by simpa using h.workspaces, ?_, ?_, ?_⟩
  · exact fun n => Or.inl (Or.inl (by simp [Registry.get]))
  · exact fun n => Or.inr ⟨id, _, World.setPhase_calls_self .., trivial⟩
  · apply h.cached.turn hcalls
    rintro n (hn | ⟨ph, hid, -⟩)
    · by_cases hdue : Due w id me (Phase.Forgets n)
      · exact Or.inr hdue
      · refine Or.inl (Or.inl ?_)
        intro client hclient
        have hcached : (w.managers me).clients n = some client := by simpa using hclient
        obtain ⟨r, hr, rfl, hserves⟩ := (hok n client hcached).resolve_right hdue
        refine ⟨r.root, ?_, hserves⟩
        have hget := Table.get_of_mem hrepos hr
        simp [Manager.registeredRoot, Registry.get, hget]
    · cases hfree.symm.trans hid

theorem get_toWorkspace (rows : List RegisteredWorkspace) (name : String) :
    Table.get Workspace.name name (rows.map RegisteredWorkspace.toWorkspace) =
      (Table.get RegisteredWorkspace.name name rows).map RegisteredWorkspace.toWorkspace := by
  unfold Table.get
  rw [List.find?_map]
  rfl

theorem Accounted.start (networkClient : Except CoreError Bool)
    (hm : w.managers me = .start networkClient w.repos)
    (hrepos : (w.repos.map RegisteredWorkspace.name).Nodup) : Accounted w me := by
  refine ⟨by rw [hm]; exact hrepos, ?_, ?_, ?_, ?_⟩
  · rw [hm]
    simpa [Manager.start, RegisteredWorkspace.toWorkspace, Function.comp_def] using hrepos
  · exact fun n => Or.inl (Or.inl (by rw [hm]; rfl))
  · intro n
    rw [hm]
    refine Or.inl ?_
    simp [Manager.Shown, Manager.shownRoot, Manager.registeredRoot, Manager.start, Registry.get,
      get_toWorkspace, RegisteredWorkspace.toWorkspace, Function.comp_def]
  · intro n
    rw [hm]
    exact Or.inl nofun

end Sections

/-- The table with one row a name, which is what the changes come to, and every
replica accounted for. -/
structure Sound (w : World) : Prop where
  repos : (w.repos.map RegisteredWorkspace.name).Nodup
  changes : ∀ name, Table.get RegisteredWorkspace.name name w.repos = replay w.changes name
  managers : ∀ me, Accounted w me

theorem replay_append (changes : List Change) (change : Change) :
    replay (changes ++ [change]) = change.apply (replay changes) := by
  simp [replay]

section Steps

variable {w w' : World} {a : Action} {id : Nat} {me : ReplicaId}

/-- A section of one replica that leaves the table alone. -/
theorem Sound.local (h : Sound w) (hrepos : w'.repos = w.repos) (hchanges : w'.changes = w.changes)
    (hmanagers : ∀ r, r ≠ me → w'.managers r = w.managers r)
    (hcalls : ∀ r, r ≠ me → ∀ j ph, w.calls j = some ⟨r, ph⟩ → w'.calls j = some ⟨r, ph⟩)
    (hbehind : ∀ r, r ≠ me → w'.behind r = w.behind r) (hme : Accounted w' me) : Sound w' := by
  refine ⟨hrepos ▸ h.repos, ?_, ?_⟩
  · rw [hrepos, hchanges]
    exact h.changes
  · intro r
    by_cases hr : r = me
    · exact hr ▸ hme
    · refine (h.managers r).frame (hmanagers r hr) (hcalls r hr) ?_
      intro n hn
      unfold Stored at hn ⊢
      rw [hmanagers r hr, hrepos, hbehind r hr]
      exact hn

/-- A write leaves the other replicas behind. -/
theorem Sound.write (h : Sound w) (hrepos : (w'.repos.map RegisteredWorkspace.name).Nodup)
    (hchanges : ∀ n, Table.get RegisteredWorkspace.name n w'.repos = replay w'.changes n)
    (hmanagers : ∀ r, r ≠ me → w'.managers r = w.managers r)
    (hcalls : ∀ r, r ≠ me → ∀ j ph, w.calls j = some ⟨r, ph⟩ → w'.calls j = some ⟨r, ph⟩)
    (hbehind : ∀ r, r ≠ me → w'.behind r = true) (hme : Accounted w' me) : Sound w' := by
  refine ⟨hrepos, hchanges, fun r => ?_⟩
  by_cases hr : r = me
  · exact hr ▸ hme
  · exact (h.managers r).frame (hmanagers r hr) (hcalls r hr) fun n _ => Or.inr (hbehind r hr)

/-- A call of one replica is not another's. -/
theorem others_of_call {phase : Phase} (hid : w.calls id = some ⟨me, phase⟩)
    (hcalls : ∀ j, j ≠ id → w'.calls j = w.calls j) (r : ReplicaId) (hr : r ≠ me) (j : Nat)
    (ph : Phase) (hj : w.calls j = some ⟨r, ph⟩) : w'.calls j = some ⟨r, ph⟩ := by
  by_cases hji : j = id
  · subst hji
    cases hid.symm.trans hj
    exact absurd rfl hr
  · exact (hcalls j hji).trans hj

theorem others_of_free (hid : w.calls id = none)
    (hcalls : ∀ j, j ≠ id → w'.calls j = w.calls j) (r : ReplicaId) (j : Nat)
    (ph : Phase) (hj : w.calls j = some ⟨r, ph⟩) : w'.calls j = some ⟨r, ph⟩ := by
  by_cases hji : j = id
  · subst hji
    cases hid.symm.trans hj
  · exact (hcalls j hji).trans hj

theorem finish_calls {x : World} {result : Except CoreError Bool} (hx : x.calls = w.calls)
    (j : Nat) (hj : j ≠ id) : (x.finish id result).calls j = w.calls j := by
  rw [World.finish_calls_ne _ _ hj, hx]

theorem finish_calls_free {x : World} {result : Except CoreError Bool} (hfree : w.calls id = none)
    (hx : x.calls = w.calls) (j : Nat) : (x.finish id result).calls j = w.calls j := by
  by_cases hj : j = id
  · subst hj
    rw [World.finish_calls_self, hfree]
  · exact finish_calls hx j hj

theorem setPhase_calls {x : World} {phase : Phase} (hx : x.calls = w.calls)
    (j : Nat) (hj : j ≠ id) : (x.setPhase id me phase).calls j = w.calls j := by
  rw [World.setPhase_calls_ne _ _ _ hj, hx]

theorem changes_upsert {record : RegisteredWorkspace} (h : Sound w) (n : String) :
    Table.get RegisteredWorkspace.name n (Table.upsert RegisteredWorkspace.name record w.repos) =
      Function.update (replay w.changes) record.name (some record) n := by
  by_cases hn : n = record.name
  · subst hn
    rw [Function.update_self]
    exact Table.get_upsert_self record h.repos
  · rw [Function.update_of_ne hn, ← h.changes n]
    exact Table.get_upsert_ne h.repos hn

theorem changes_delete (h : Sound w) (name n : String) :
    Table.get RegisteredWorkspace.name n (Table.delete RegisteredWorkspace.name name w.repos) =
      Function.update (replay w.changes) name none n := by
  by_cases hn : n = name
  · subst hn
    rw [Function.update_self]
    exact Table.get_delete_self n _
  · rw [Function.update_of_ne hn, ← h.changes n]
    exact Table.get_delete_ne hn _

/-- A configuration that is set over the stored row of its workspace. -/
theorem replay_configured {record e : RegisteredWorkspace} {config : RepoProviderConfig}
    (h : Sound w) (hline : (Table.get RegisteredWorkspace.name record.name w.repos).map
      RegisteredWorkspace.root = some e.root) (hrec : record = { e with config := config }) :
    Change.apply (replay w.changes) (.configured record.name config) =
      Function.update (replay w.changes) record.name (some record) := by
  obtain ⟨row, hrow, hroot⟩ := Option.map_eq_some_iff.mp hline
  have hname : row.name = record.name := Table.get_key hrow
  have hset : { row with config := config } = record := by
    cases row
    cases e
    simp_all
  unfold Change.apply
  simp only
  rw [← h.changes record.name, hrow, Option.map_some, hset]

/-- A call that comes to an end at once. -/
theorem Sound.returned {result : Except CoreError Bool} (h : Sound w) (hfree : w.calls id = none) :
    Sound (w.finish id result) := by
  refine ⟨h.repos, h.changes, fun r => (h.managers r).frame rfl ?_ fun _ hn => hn⟩
  intro j ph hj
  rw [finish_calls_free hfree rfl]
  exact hj

/-- A configuration that is set and not written. -/
theorem Sound.misconfigured {name message : String} {config : RepoProviderConfig} {m : Manager}
    {record : RegisteredWorkspace} (h : Sound w)
    (hok : InLine w (.setConfig id me name config (some message))) (free : w.calls id = none)
    (set : (w.managers me).setRepoConfig name config = .ok (m, record)) :
    Sound ((w.setManager me m).finish id (.error (upsertError message))) := by
  have hother : ∀ r, r ≠ me → Function.update w.managers me m r = w.managers r :=
    fun r hr => Function.update_of_ne hr ..
  obtain ⟨hname, -, ⟨e, he, hrec⟩, hreg⟩ := Manager.setRepoConfig_record set
  subst hname
  refine h.local rfl rfl hother ?_ (fun _ _ => rfl)
    ((h.managers me).configure (m := m) free (finish_calls_free free rfl)
      (World.setManager_managers_self ..) hreg he ?_ ?_)
  · exact fun r _ j ph hj => (finish_calls_free (x := w.setManager me m) free rfl j).trans hj
  · intro n hn hs
    simpa [Stored, hreg.get_ne n hn] using hs
  · have hline := hok e (Manager.setRepoConfig_valid set) he
    rw [← or_assoc] at hline
    refine hline.imp_left fun hs => ?_
    rw [← hrec] at hs
    refine hs.imp_left fun hrow => ?_
    simp only [World.finish_managers, World.setManager_managers_self, World.finish_repos,
      World.setManager_repos]
    exact hreg.get.trans hrow.symm

theorem Sound.configured {name : String} {config : RepoProviderConfig} {m : Manager}
    {record : RegisteredWorkspace} (h : Sound w) (hok : InLine w (.setConfig id me name config none))
    (free : w.calls id = none)
    (set : (w.managers me).setRepoConfig name config = .ok (m, record)) :
    Sound (((w.setManager me m).upsertRepo me record (.configured name config)).finish id
      (.ok true)) := by
  have hother : ∀ r, r ≠ me → Function.update w.managers me m r = w.managers r :=
    fun r hr => Function.update_of_ne hr ..
  obtain ⟨hname, -, ⟨e, he, hrec⟩, hreg⟩ := Manager.setRepoConfig_record set
  subst hname
  have hline := hok e (Manager.setRepoConfig_valid set) he
  refine h.write (Table.nodup_upsert record h.repos) ?_ hother ?_
    (fun r hr => World.upsertRepo_behind_ne _ record (.configured record.name config) hr)
    ((h.managers me).configure (m := m) free (finish_calls_free free rfl)
      (World.setManager_managers_self ..) hreg he ?_ ?_)
  · intro n
    rw [World.finish_changes, World.upsertRepo_changes, replay_append]
    refine (changes_upsert h n).trans ?_
    exact congrFun (replay_configured h hline hrec).symm n
  · intro r _ j ph hj
    exact (finish_calls_free (x := (w.setManager me m).upsertRepo me record _) free rfl j).trans hj
  · intro n hn hs
    simpa [Stored, hreg.get_ne n hn, Table.get_upsert_ne h.repos hn] using hs
  · exact Or.inl (Or.inl (by simp [hreg.get, Table.get_upsert_self record h.repos]))

theorem sound_step (h : Sound w) (hok : InLine w a) (hstep : step w a = some w') : Sound w' := by
  have hother : ∀ {me : ReplicaId} (m : Manager) (r : ReplicaId), r ≠ me →
      Function.update w.managers me m r = w.managers r :=
    fun m r hr => Function.update_of_ne hr ..
  cases step_turn hstep with
  | rejected free | absent free | refused free | unread free | answered free =>
    exact h.returned free
  | @registered id me _ _ _ _ m record free add =>
    have hreg := (Manager.addWorkspace_record add).2
    exact h.local rfl rfl (hother m) (fun r _ => others_of_free free (setPhase_calls rfl) r)
      (fun _ _ => rfl) ((h.managers me).register free hreg)
  | @unstored id me record message call =>
    obtain ⟨hstored, hshown⟩ := hok me record call
    refine h.local rfl rfl (fun _ _ => rfl) (others_of_call call (finish_calls rfl))
      (fun _ _ => rfl) ((h.managers me).end call ?_ ?_ ?_)
    · rintro n rfl
      exact hstored
    · rintro n rfl
      exact hshown
    · intro n hp
      cases hp
  | @stored id me record call =>
    refine h.write (Table.nodup_upsert record h.repos) ?_ (fun _ _ => rfl)
      (others_of_call call (setPhase_calls rfl))
      (fun r hr => World.upsertRepo_behind_ne w record (.added record) hr)
      ((h.managers me).store h.repos call hok)
    intro n
    rw [World.setPhase_changes, World.upsertRepo_changes, replay_append]
    exact changes_upsert h n
  | @pushed id me record call =>
    exact h.local rfl rfl (hother _) (others_of_call call (finish_calls rfl)) (fun _ _ => rfl)
      ((h.managers me).push call hok)
  | @unregistered id me name m free remove =>
    exact h.local rfl rfl (hother m) (fun r _ => others_of_free free (setPhase_calls rfl) r)
      (fun _ _ => rfl) ((h.managers me).unregister free remove)
  | @undeleted id me name message call =>
    obtain ⟨hstored, hshown, hcached⟩ := hok me name call
    refine h.local rfl rfl (fun _ _ => rfl) (others_of_call call (finish_calls rfl))
      (fun _ _ => rfl) ((h.managers me).end call ?_ ?_ ?_)
    · rintro n rfl
      exact hstored
    · rintro n rfl
      exact hshown
    · rintro n rfl
      exact hcached
  | @deleted id me name call =>
    refine h.write (h.repos.sublist (Table.delete_keys_sublist ..)) ?_ (fun _ _ => rfl)
      (others_of_call call (setPhase_calls rfl)) (fun r hr => World.deleteRepo_behind_ne w name hr)
      ((h.managers me).delete call hok)
    intro n
    rw [World.setPhase_changes, World.deleteRepo_changes, replay_append]
    exact changes_delete h name n
  | @pruned id me name call =>
    exact h.local rfl rfl (hother _) (others_of_call call (setPhase_calls rfl)) (fun _ _ => rfl)
      ((h.managers me).prune call hok)
  | @forgotten id me name call =>
    exact h.local rfl rfl (hother _) (others_of_call call (finish_calls rfl)) (fun _ _ => rfl)
      ((h.managers me).forget call)
  | misconfigured free set => exact h.misconfigured hok free set
  | configured free set => exact h.configured hok free set
  | @refreshed id me free =>
    refine h.local rfl rfl (hother _) (fun r _ => others_of_free free (setPhase_calls rfl) r) ?_
      ((h.managers me).refresh h.repos free hok)
    exact fun r hr => Function.update_of_ne hr ..
  | @reconciled id me durable call =>
    exact h.local rfl rfl (hother _) (others_of_call call (finish_calls rfl)) (fun _ _ => rfl)
      ((h.managers me).reconcile call hok)
  | @dialled id me name free none network =>
    refine h.local rfl rfl (hother _)
      (fun r _ j ph hj => (finish_calls_free (x := w.setManager me _) free rfl j).trans hj)
      (fun _ _ => rfl) ((h.managers me).insert (fun ph hid => by cases free.symm.trans hid) ?_)
    refine (hok network none).imp_left fun hsome => ?_
    obtain ⟨e, he⟩ := Option.isSome_iff_exists.mp hsome
    exact ⟨e.root, congrArg (Option.map RegisteredWorkspace.root) he, nofun⟩
  | @located id me name r free get =>
    exact h.local rfl rfl (fun _ _ => rfl) (fun r _ => others_of_free free (setPhase_calls rfl) r)
      (fun _ _ => rfl) ((h.managers me).frame rfl
        (others_of_free free (setPhase_calls rfl) me) fun _ hn => hn)
  | @unconnected id me name root message call =>
    refine h.local rfl rfl (fun _ _ => rfl) (others_of_call call (finish_calls rfl))
      (fun _ _ => rfl) ((h.managers me).end call ?_ ?_ ?_) <;> exact fun _ hp => hp.elim
  | @connected id me name root call =>
    refine h.local rfl rfl (hother _) (others_of_call call (finish_calls rfl)) (fun _ _ => rfl)
      ((h.managers me).insert ?_ ?_)
    · intro ph hid n
      cases call.symm.trans hid
      exact ⟨False.elim, False.elim, False.elim⟩
    · refine (hok me name root call).imp_left fun hroot => ⟨root, hroot, ?_⟩
      intro r hr
      exact (Option.some.inj hr).symm
  | @dropped me name =>
    exact h.local rfl rfl (hother _) (fun _ _ _ _ hj => hj) (fun _ _ => rfl) (h.managers me).drop
  | @restarted me =>
    refine h.local rfl rfl (hother _) ?_ (fun r hr => Function.update_of_ne hr ..)
      (Accounted.start _ (Function.update_self ..) h.repos)
    intro r hr j ph hj
    simp [World.restart, hj, hr]

end Steps

theorem sound_start (networkClient : ReplicaId → Except CoreError Bool) :
    Sound (World.start networkClient) :=
  ⟨List.nodup_nil, fun _ => rfl, fun me => Accounted.start (networkClient me) rfl List.nodup_nil⟩

/-- Where nothing is under way, what is accounted for is settled. -/
theorem Sound.settles {w : World} (h : Sound w) : SettlesWhenDone w := by
  intro me hdone
  have hgood : ∀ {p : String → Phase → Prop} {good : String → Prop}, UpTo w me p good →
      ∀ name, good name := by
    intro p good hup name
    refine (hup name).resolve_right ?_
    rintro ⟨j, ph, hj, -⟩
    exact hdone j ph hj
  have hacc := h.managers me
  constructor
  · intro hbehind r
    have hstored := (hgood hacc.stored r.name).resolve_right (by simp [hbehind])
    have hreg : (w.managers me).registry.get r.name = some r ↔ _ ∧ r.name = r.name :=
      Table.get_iff_mem hacc.registry
    have hrow : Table.get RegisteredWorkspace.name r.name w.repos = some r ↔ _ ∧ r.name = r.name :=
      Table.get_iff_mem h.repos
    have heq : (w.managers me).registry.get r.name = some r ↔
        Table.get RegisteredWorkspace.name r.name w.repos = some r := by rw [hstored]
    exact ((and_iff_left rfl).symm.trans hreg.symm).trans
      (heq.trans (hrow.trans (and_iff_left rfl)))
  · intro name root
    have hshown := hgood hacc.shown name
    have hleft : (w.managers me).shownRoot name = some root ↔
        ∃ x ∈ (w.managers me).workspaces, x.name = name ∧ x.root = root := by
      simp only [Manager.shownRoot, Option.map_eq_some_iff, Table.get_iff_mem hacc.workspaces,
        and_assoc]
    have hright : (w.managers me).registeredRoot name = some root ↔
        ∃ r ∈ (w.managers me).registry.workspaces, r.name = name ∧ r.root = root := by
      simp only [Manager.registeredRoot, Registry.get, Option.map_eq_some_iff,
        Table.get_iff_mem hacc.registry, and_assoc]
    rw [← hleft, ← hright, hshown]
  · intro name client hclient
    obtain ⟨root, hroot, hserves⟩ := hgood hacc.cached name client hclient
    obtain ⟨r, hr, rfl⟩ := Option.map_eq_some_iff.mp hroot
    exact ⟨r, Table.get_mem hr, Table.get_key hr, hserves⟩
  · intro r
    rw [← h.changes r.name, Table.get_iff_mem h.repos]
    exact (and_iff_left rfl).symm

/-- In a run whose every section ends in line with the rest, what is done is
settled: no acknowledged change is lost to a refresh or to another call. -/
theorem settles_when_done (networkClient : ReplicaId → Except CoreError Bool) (as : List Action)
    (hok : Machine.Steps step InLine (World.start networkClient) as) :
    Machine.Always step SettlesWhenDone (World.start networkClient) as :=
  Machine.always_mono (fun _ h => h.settles)
    (Machine.always_of_steps (fun _ _ _ => sound_step) (sound_start networkClient) hok)

/-- The workspace is registered, stored and shown, with nothing in between. -/
def addRun : List Action :=
  [.add 0 "a" "one" "/work" none .default, .upsert 0 none, .push 0]

theorem settles_when_done_add :
    Machine.Always step SettlesWhenDone (World.start fun _ => .ok false) addRun := by
  apply settles_when_done
  refine Machine.steps_cons trivial rfl (Machine.steps_cons ?_ rfl (Machine.steps_cons ?_ rfl
    trivial))
  · intro me record hcall
    cases hcall
    exact Or.inl rfl
  · intro me record hcall
    cases hcall
    exact Or.inl rfl

/-- A refresh reads the table between an `add`'s registration and its write. -/
def refreshInsideAdd : List Action :=
  [.add 0 "a" "one" "/work" none .default, .refresh 1 "a" none, .reconcile 1, .upsert 0 none,
    .push 0]

theorem add_lost_to_refresh : ∃ t,
    Machine.run step (World.start fun _ => .ok false) refreshInsideAdd = some t ∧
      t.returned 0 = some (.ok true) ∧ t.behind "a" = false ∧
      t.repos = [⟨"one", "/work", .default⟩] ∧ (t.managers "a").registry = ⟨[]⟩ ∧
      ¬SettlesWhenDone t := by
  refine ⟨_, rfl, rfl, rfl, rfl, rfl, ?_⟩
  intro h
  have hsettled := h "a" (by
    intro id phase hcall
    rcases id with _ | _ | id <;> cases hcall)
  have hlost := (hsettled.registry rfl ⟨"one", "/work", .default⟩).mpr (List.mem_cons_self ..)
  cases hlost

end Prospero.Workspaces
