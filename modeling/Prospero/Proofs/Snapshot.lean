import Prospero.Proofs.WatchPass

namespace Prospero.Proofs.Snapshot
open Prospero.KubeFleet
open Prospero.Proofs.KubeFleet
open Prospero.Proofs.WatchPass

/-- The agents and statuses of a snapshot are those that the watch loop knows,
and no agent is in the snapshot twice. -/
def Agree (known : HashMap String Agent) (workspaces : List Workspace) : Prop :=
  ((workspaces.flatMap Workspace.agents).map Agent.id).Nodup ∧
    ∀ id status, (∃ a ∈ workspaces.flatMap Workspace.agents, a.id = id ∧ a.status = status) ↔
      ∃ a, known.lookup id = some a ∧ a.status = status

/-- Every task is of a workspace that the snapshot has. -/
def Registered (o : Observation) : Option (List (Option String)) → Prop
  | some names => ∀ task ∈ o.tasks, task.workspaceRef ∈ names.map fun name => name.getD ""
  | none => True

/-- What is settled, the pod or else the CR's phase still gives. -/
def Confirmed (o : Observation) (known : HashMap String Agent) : Prop :=
  ∀ task ∈ o.tasks, ∀ status, settledStatus known task = some status →
    (liveAgent o.pods task).status = status

section Grouped

variable {names : List String} {agents : List Agent} {a : Agent}

/-- The agents that are grouped are those whose workspace is registered. -/
theorem mem_grouped :
    a ∈ (grouped names agents).flatMap Workspace.agents ↔ a ∈ agents ∧ a.workspace ∈ names := by
  induction names generalizing agents with
  | nil => simp [grouped]
  | cons name names ih =>
    rw [grouped, List.flatMap_cons, List.mem_append, ih, List.mem_filter, List.mem_filter,
      List.mem_cons]
    by_cases hname : a.workspace = name <;> simp [hname]

theorem grouped_nodup (h : (agents.map Agent.id).Nodup) :
    (((grouped names agents).flatMap Workspace.agents).map Agent.id).Nodup := by
  induction names generalizing agents with
  | nil => exact List.nodup_nil
  | cons name names ih =>
    have hsub (p : Agent → Bool) : ((agents.filter p).map Agent.id).Nodup :=
      h.sublist (List.filter_sublist.map _)
    rw [grouped, List.flatMap_cons, List.map_append]
    refine List.Nodup.append (hsub _) (ih (hsub _)) ?_
    intro id hhere hthere
    obtain ⟨b, hb, hbid⟩ := List.mem_map.mp hhere
    obtain ⟨c, hc, hcid⟩ := List.mem_map.mp hthere
    obtain ⟨hc, -⟩ := mem_grouped.mp hc
    obtain ⟨hbin, hbname⟩ := List.mem_filter.mp hb
    obtain ⟨hcin, hcname⟩ := List.mem_filter.mp hc
    have hsame : b = c := List.inj_on_of_nodup_map h hbin hcin (hbid.trans hcid.symm)
    subst hsame
    exact of_decide_eq_true hcname (of_decide_eq_true hbname)

end Grouped

section Agree

variable {o : Observation} {registered : Option (List (Option String))}

/-- What the snapshot reads of every CR, before the agents are grouped. -/
theorem snapshot_agents (h : Named o.tasks) :
    (overlayPodStatus o.tasks o.pods (o.tasks.map agentFromTask) fun _ => true).1 =
      o.tasks.map (liveAgent o.pods) := by
  have hmap : (o.tasks.map agentFromTask).map
      (refresh (agentEndpoint o.tasks fun _ => true) o.pods) = o.tasks.map (liveAgent o.pods) := by
    rw [List.map_map]
    exact List.map_congr_left fun task ht => (refresh_task h ht).trans (if_pos rfl)
  exact hmap

theorem liveAgents_nodup (h : Named o.tasks) :
    ((o.tasks.map (liveAgent o.pods)).map Agent.id).Nodup := by
  have hids : (o.tasks.map (liveAgent o.pods)).map Agent.id =
      o.tasks.map CalibanTask.nameOrDefault := by
    rw [List.map_map]
    exact List.map_congr_left fun t _ => liveAgent_id o.pods t
  exact hids ▸ h.nodup

theorem mem_snapshot (h : Named o.tasks) {a : Agent} :
    a ∈ (snapshot o registered).flatMap Workspace.agents ↔
      ∃ task ∈ o.tasks, liveAgent o.pods task = a ∧
        match registered with
        | some names => task.workspaceRef ∈ names.map fun name => name.getD ""
        | none => True := by
  unfold snapshot
  rw [snapshot_agents h]
  cases registered with
  | none => simp
  | some names =>
    dsimp only
    rw [mem_grouped, List.mem_map]
    constructor
    · rintro ⟨⟨task, ht, rfl⟩, hworkspace⟩
      exact ⟨task, ht, rfl, liveAgent_workspace o.pods task ▸ hworkspace⟩
    · rintro ⟨task, ht, rfl, hworkspace⟩
      exact ⟨⟨task, ht, rfl⟩, (liveAgent_workspace o.pods task).symm ▸ hworkspace⟩

theorem snapshot_nodup (h : Named o.tasks) :
    (((snapshot o registered).flatMap Workspace.agents).map Agent.id).Nodup := by
  unfold snapshot
  rw [snapshot_agents h]
  cases registered with
  | none => simpa using liveAgents_nodup h
  | some names => exact grouped_nodup (liveAgents_nodup h)

/-- The poll sees what the snapshot shows, but for what is settled. -/
theorem observe_status {known : HashMap String Agent} {task : CalibanTask} :
    (observe o known task).status =
      (settledStatus known task).getD (liveAgent o.pods task).status := by
  unfold observe
  cases settledStatus known task <;> rfl

theorem agree_iff (h : Named o.tasks) (l : Loop) :
    Agree (o.pass l).known (snapshot o registered) ↔
      Registered o registered ∧ Confirmed o l.known := by
  constructor
  · rintro ⟨-, hagree⟩
    have hshown (task : CalibanTask) (ht : task ∈ o.tasks) :
        ∃ a ∈ (snapshot o registered).flatMap Workspace.agents, a.id = task.nameOrDefault ∧
          a.status = (observe o l.known task).status :=
      (hagree _ _).mpr ⟨_, pass_listed h l ht, rfl⟩
    constructor
    · cases registered with
      | none => trivial
      | some names =>
        intro task ht
        obtain ⟨a, ha, hid, -⟩ := hshown task ht
        obtain ⟨t, htasks, rfl, hworkspace⟩ := (mem_snapshot h).mp ha
        rw [liveAgent_id] at hid
        obtain rfl := List.inj_on_of_nodup_map h.nodup htasks ht hid
        exact hworkspace
    · intro task ht status hsettled
      obtain ⟨a, ha, hid, hstatus⟩ := hshown task ht
      obtain ⟨t, htasks, rfl, -⟩ := (mem_snapshot h).mp ha
      rw [liveAgent_id] at hid
      obtain rfl := List.inj_on_of_nodup_map h.nodup htasks ht hid
      rw [hstatus, observe_status, hsettled, Option.getD_some]
  · rintro ⟨hregistered, hconfirmed⟩
    have hsame (task : CalibanTask) (ht : task ∈ o.tasks) :
        (observe o l.known task).status = (liveAgent o.pods task).status := by
      rw [observe_status]
      cases hsettled : settledStatus l.known task with
      | none => rfl
      | some status => exact (hconfirmed task ht status hsettled).symm
    refine ⟨snapshot_nodup h, fun id status => ⟨?_, ?_⟩⟩
    · rintro ⟨a, ha, rfl, rfl⟩
      obtain ⟨task, ht, rfl, -⟩ := (mem_snapshot h).mp ha
      rw [liveAgent_id]
      exact ⟨_, pass_listed h l ht, hsame task ht⟩
    · rintro ⟨a, ha, rfl⟩
      by_cases hid : id ∈ o.tasks.map CalibanTask.nameOrDefault
      · obtain ⟨task, ht, rfl⟩ := List.mem_map.mp hid
        obtain rfl := Option.some.inj ((pass_listed h l ht).symm.trans ha)
        refine ⟨liveAgent o.pods task, (mem_snapshot h).mpr ⟨task, ht, rfl, ?_⟩,
          liveAgent_id o.pods task, (hsame task ht).symm⟩
        cases registered with
        | none => trivial
        | some names => exact hregistered task ht
      · rw [pass_unlisted h l hid] at ha
        cases ha

end Agree

/-- What the watch loop has after the given polls. -/
def polled (history : List Observation) : Loop :=
  history.foldl (fun l o => o.pass l) Loop.start

/-- After any polls, a poll and a snapshot of the same observation agree exactly
where no task's workspace is missing and no settled status is out of date. -/
theorem loop_and_snapshot_agree (history : List Observation) (o : Observation)
    (registered : Option (List (Option String))) (h : Named o.tasks) :
    Agree (o.pass (polled history)).known (snapshot o registered) ↔
      Registered o registered ∧ Confirmed o (polled history).known :=
  agree_iff h (polled history)

def task : CalibanTask :=
  ⟨some "t1", some "u1", some "2026-08-01T12:00:00Z", "web",
    some ⟨"Running", some "10.0.0.1:7777", [], none⟩⟩

/-- The task's pod answers with its records, or not at all. -/
def seeing (records : Option (List PodRecord)) : Observation :=
  ⟨[task], fun addr => if addr = "10.0.0.1:7777" then records else none⟩

theorem task_named : Named [task] := by
  constructor
  · intro t ht
    cases List.mem_singleton.mp ht
    rfl
  · exact List.nodup_singleton _

theorem loop_and_snapshot_agree_done :
    Agree ((seeing (some [⟨⟨"a1", .done⟩, false⟩])).pass
        (polled [seeing (some [⟨⟨"a1", .done⟩, false⟩])])).known
      (snapshot (seeing (some [⟨⟨"a1", .done⟩, false⟩])) (some [some "web"])) := by
  refine (loop_and_snapshot_agree _ _ _ task_named).mpr ⟨?_, ?_⟩
  · intro t ht
    cases List.mem_singleton.mp ht
    exact List.mem_singleton.mpr rfl
  · intro t ht status hsettled
    cases List.mem_singleton.mp ht
    cases hsettled
    rfl

/-- The pod is gone after the agent has finished, and the CR says `Running` still. -/
theorem loop_and_snapshot_differ : ¬∀ (history : List Observation) (o : Observation)
    (registered : Option (List (Option String))), Named o.tasks →
    Agree (o.pass (polled history)).known (snapshot o registered) := by
  intro h
  obtain ⟨-, hagree⟩ := h [seeing (some [⟨⟨"a1", .done⟩, false⟩])] (seeing none)
    (some [some "web"]) task_named
  obtain ⟨a, ha, -, hdone⟩ := (hagree "t1" .done).mpr ⟨_, rfl, rfl⟩
  cases List.mem_singleton.mp ha
  cases hdone

end Prospero.Proofs.Snapshot
