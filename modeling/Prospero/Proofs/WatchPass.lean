import Prospero.Proofs.KubeFleet

namespace Prospero.Proofs.WatchPass
open Prospero.KubeFleet
open Prospero.Proofs.KubeFleet

/-- As the API server lists CRs: each has a name, and no two the same. -/
def Named (tasks : List CalibanTask) : Prop :=
  (∀ task ∈ tasks, task.name.isSome) ∧ (tasks.map CalibanTask.name).Nodup

section Named

variable {tasks : List CalibanTask}

theorem Named.name (h : Named tasks) {task : CalibanTask} (ht : task ∈ tasks) :
    task.name = some task.nameOrDefault := by
  obtain ⟨name, hname⟩ := Option.isSome_iff_exists.mp (h.1 task ht)
  rw [CalibanTask.nameOrDefault, hname, Option.getD_some]

theorem Named.nodup (h : Named tasks) : (tasks.map CalibanTask.nameOrDefault).Nodup := by
  have hsome : tasks.map CalibanTask.name =
      (tasks.map CalibanTask.nameOrDefault).map Option.some := by
    rw [List.map_map]
    exact List.map_congr_left fun task ht => h.name ht
  have hnodup := h.2
  rw [hsome] at hnodup
  exact hnodup.of_map _

theorem Named.tail {task : CalibanTask} (h : Named (task :: tasks)) :
    Named tasks ∧ task.nameOrDefault ∉ tasks.map CalibanTask.nameOrDefault :=
  ⟨⟨fun t ht => h.1 t (List.mem_cons_of_mem _ ht), (List.nodup_cons.mp h.2).2⟩,
    (List.nodup_cons.mp h.nodup).1⟩

end Named

/-- The status that the loop has settled for a CR. -/
def settledStatus (known : HashMap String Agent) (task : CalibanTask) : Option AgentStatus :=
  (known.lookup task.nameOrDefault).bind fun prev =>
    if prev.status.isTerminal ∧ prev.startedAt = (agentFromTask task).startedAt then
      some prev.status
    else none

/-- What the CR's pod answers to a `List`, if it does and there is an agent. -/
def liveRecord (pods : Pods) (task : CalibanTask) : Option PodRecord :=
  (endpointOf task).bind (podRecord pods)

/-- The CR's agent as its pod has it. -/
def liveAgent (pods : Pods) (task : CalibanTask) : Agent :=
  match liveRecord pods task with
  | some rec => { agentFromTask task with interactive := rec.interactive, status := rec.status }
  | none => agentFromTask task

/-- What a poll makes of one CR. -/
def observe (o : Observation) (known : HashMap String Agent) (task : CalibanTask) : Agent :=
  match settledStatus known task with
  | some status => { agentFromTask task with status := status }
  | none => liveAgent o.pods task

theorem liveAgent_id (pods : Pods) (task : CalibanTask) :
    (liveAgent pods task).id = task.nameOrDefault := by
  unfold liveAgent
  split <;> rfl

theorem liveAgent_workspace (pods : Pods) (task : CalibanTask) :
    (liveAgent pods task).workspace = task.workspaceRef := by
  unfold liveAgent
  split <;> rfl

theorem observe_id (o : Observation) (known : HashMap String Agent) (task : CalibanTask) :
    (observe o known task).id = task.nameOrDefault := by
  unfold observe
  split
  · rfl
  · exact liveAgent_id o.pods task

section Overlay

variable {tasks : List CalibanTask} {pods : Pods} {included : String → Bool} {task : CalibanTask}

theorem agents_nodup (h : Named tasks) : ((tasks.map agentFromTask).map Agent.id).Nodup := by
  rw [List.map_map]
  exact h.nodup

theorem agentEndpoint_lookup (h : Named tasks) (ht : task ∈ tasks) :
    (agentEndpoint tasks included).lookup task.nameOrDefault =
      if included task.nameOrDefault then endpointOf task else none :=
  HashMap.lookup_collectBy h.nodup ht

/-- A CR's agent after the overlay. -/
theorem refresh_task (h : Named tasks) (ht : task ∈ tasks) :
    refresh (agentEndpoint tasks included) pods (agentFromTask task) =
      if included task.nameOrDefault then liveAgent pods task else agentFromTask task := by
  unfold refresh
  rw [agentFromTask_id, agentEndpoint_lookup h ht]
  split_ifs <;> rfl

end Overlay

section Pass

variable {o : Observation} {known : HashMap String Agent} {task : CalibanTask}

theorem settled_lookup (h : Named o.tasks) (ht : task ∈ o.tasks) :
    (o.settled known).lookup task.nameOrDefault = settledStatus known task :=
  HashMap.lookup_collectBy (agents_nodup h) (List.mem_map_of_mem ht)

theorem carried (h : Named o.tasks) (ht : task ∈ o.tasks) :
    carryForward (o.settled known) (refresh (agentEndpoint o.tasks fun name =>
      ((o.settled known).lookup name).isNone) o.pods (agentFromTask task)) =
      observe o known task := by
  have hid : (if ((o.settled known).lookup task.nameOrDefault).isNone then liveAgent o.pods task
      else agentFromTask task).id = task.nameOrDefault := by
    split_ifs
    · exact liveAgent_id o.pods task
    · rfl
  rw [refresh_task h ht]
  unfold carryForward observe
  rw [hid, settled_lookup h ht]
  cases settledStatus known task <;> rfl

theorem overlaid_list (h : Named o.tasks) :
    (o.overlay known).1.map (carryForward (o.settled known)) = o.tasks.map (observe o known) := by
  unfold Observation.overlay overlayPodStatus
  rw [List.map_map, List.map_map]
  exact List.map_congr_left fun task ht => carried h ht

theorem overlaid_lookup (h : Named o.tasks) (ht : task ∈ o.tasks) :
    (o.overlaid known).lookup task.nameOrDefault = some (observe o known task) := by
  unfold Observation.overlaid
  rw [overlaid_list h]
  have hids : ((o.tasks.map (observe o known)).map Agent.id).Nodup := by
    rw [List.map_map]
    have hsame : o.tasks.map (Agent.id ∘ observe o known) = o.tasks.map CalibanTask.nameOrDefault :=
      List.map_congr_left fun t _ => observe_id o known t
    exact hsame ▸ h.nodup
  have hlookup : (HashMap.collectBy Agent.id some (o.tasks.map (observe o known))).lookup
      (observe o known task).id = some (observe o known task) :=
    HashMap.lookup_collectBy hids (List.mem_map_of_mem ht)
  rw [observe_id] at hlookup
  exact hlookup

/-- One turn of the loop over the listed CRs. -/
theorem visit_named {d : Diff} {agent : Agent} (hname : task.name = some task.nameOrDefault)
    (hover : d.overlaid.lookup task.nameOrDefault = some agent) :
    (d.visit task).known = d.known.insert task.nameOrDefault agent ∧
    (d.visit task).overlaid = d.overlaid.erase task.nameOrDefault ∧
    (d.visit task).seen = task.nameOrDefault :: d.seen ∧
    (d.visit task).changes = d.changes ++
      (changeOf (d.known.lookup task.nameOrDefault) task.nameOrDefault agent).toList := by
  unfold Diff.visit
  rw [hname]
  dsimp only
  rw [hover]
  exact ⟨rfl, rfl, rfl, rfl⟩

/-- Where the CRs have names of their own, each is compared with what was known
of it before the loop, and known as it is now. -/
theorem visit_fold {tasks : List CalibanTask} (h : Named tasks) {observed : CalibanTask → Agent}
    (d : Diff)
    (hover : ∀ t ∈ tasks, d.overlaid.lookup t.nameOrDefault = some (observed t)) :
    (∀ t ∈ tasks, (tasks.foldl Diff.visit d).known.lookup t.nameOrDefault = some (observed t)) ∧
    (∀ k, k ∉ tasks.map CalibanTask.nameOrDefault →
      (tasks.foldl Diff.visit d).known.lookup k = d.known.lookup k) ∧
    (∀ k, k ∈ (tasks.foldl Diff.visit d).seen ↔
      k ∈ tasks.map CalibanTask.nameOrDefault ∨ k ∈ d.seen) ∧
    (tasks.foldl Diff.visit d).changes = d.changes ++ tasks.filterMap fun t =>
      changeOf (d.known.lookup t.nameOrDefault) t.nameOrDefault (observed t) := by
  induction tasks generalizing d with
  | nil => simp
  | cons t tasks ih =>
    obtain ⟨htail, hfresh⟩ := h.tail
    obtain ⟨hknown, hoverlaid, hseen, hchanges⟩ := visit_named (h.name (List.mem_cons_self ..))
      (hover t (List.mem_cons_self ..))
    have hne {u : CalibanTask} (hu : u ∈ tasks) : u.nameOrDefault ≠ t.nameOrDefault :=
      fun he => hfresh (he ▸ List.mem_map_of_mem hu)
    have hrest : ∀ u ∈ tasks,
        (d.visit t).overlaid.lookup u.nameOrDefault = some (observed u) := by
      intro u hu
      rw [hoverlaid, AList.lookup_erase_ne (hne hu)]
      exact hover u (List.mem_cons_of_mem _ hu)
    obtain ⟨ihknown, ihother, ihseen, ihchanges⟩ := ih htail (d.visit t) hrest
    rw [List.foldl_cons]
    refine ⟨?_, ?_, ?_, ?_⟩
    · intro u hu
      rcases List.mem_cons.mp hu with rfl | hu
      · rw [ihother _ hfresh, hknown, AList.lookup_insert]
      · exact ihknown u hu
    · intro k hk
      rw [List.map_cons, List.mem_cons, not_or] at hk
      rw [ihother k hk.2, hknown, AList.lookup_insert_ne hk.1]
    · intro k
      rw [ihseen, hseen, List.map_cons, List.mem_cons, List.mem_cons]
      tauto
    · rw [ihchanges, hchanges, List.filterMap_cons, List.append_assoc]
      congr 1
      have hsame : (tasks.filterMap fun u =>
          changeOf ((d.visit t).known.lookup u.nameOrDefault) u.nameOrDefault (observed u)) =
          tasks.filterMap fun u =>
            changeOf (d.known.lookup u.nameOrDefault) u.nameOrDefault (observed u) := by
        apply List.filterMap_congr
        intro u hu
        rw [hknown, AList.lookup_insert_ne (hne hu)]
      rw [hsame]
      cases changeOf (d.known.lookup t.nameOrDefault) t.nameOrDefault (observed t) <;> rfl

theorem diff_fold (h : Named o.tasks) (known : HashMap String Agent) :
    (∀ t ∈ o.tasks, (o.diff known).known.lookup t.nameOrDefault = some (observe o known t)) ∧
    (∀ k, k ∉ o.tasks.map CalibanTask.nameOrDefault →
      (o.diff known).known.lookup k = known.lookup k) ∧
    (∀ k, k ∈ (o.diff known).seen ↔ k ∈ o.tasks.map CalibanTask.nameOrDefault) ∧
    (o.diff known).changes = o.tasks.filterMap fun t =>
      changeOf (known.lookup t.nameOrDefault) t.nameOrDefault (observe o known t) := by
  obtain ⟨hknown, hother, hseen, hchanges⟩ := visit_fold h ⟨known, o.overlaid known, [], [], []⟩
    fun t ht => overlaid_lookup h ht
  refine ⟨hknown, hother, fun k => (hseen k).trans ?_, hchanges⟩
  simp

/-- After a poll each listed CR is known as it was observed. -/
theorem pass_listed (h : Named o.tasks) (l : Loop) (ht : task ∈ o.tasks) :
    (o.pass l).known.lookup task.nameOrDefault = some (observe o l.known task) := by
  obtain ⟨hknown, -, hseen, -⟩ := diff_fold h l.known
  have hkept : task.nameOrDefault ∉ (o.diff l.known).gone := by
    intro hgone
    have hnot := (List.mem_filter.mp hgone).2
    have hlisted := (hseen task.nameOrDefault).mpr (List.mem_map_of_mem ht)
    simp [hlisted] at hnot
  refine (HashMap.lookup_eraseAll ..).trans ?_
  rw [if_neg hkept]
  exact hknown task ht

/-- And what is not listed is not known any more. -/
theorem pass_unlisted (h : Named o.tasks) (l : Loop) {k : String}
    (hk : k ∉ o.tasks.map CalibanTask.nameOrDefault) : (o.pass l).known.lookup k = none := by
  obtain ⟨-, hother, hseen, -⟩ := diff_fold h l.known
  refine (HashMap.lookup_eraseAll ..).trans ?_
  split_ifs with hgone
  · rfl
  · by_contra hsome
    apply hgone
    refine List.mem_filter.mpr ⟨?_, ?_⟩
    · rw [← AList.mem_keys, ← AList.lookup_isSome]
      exact Option.isSome_iff_ne_none.mpr hsome
    · have hnot := mt (hseen k).mp hk
      simpa using hnot

end Pass

end Prospero.Proofs.WatchPass
