import Prospero.KubeFleet
import Prospero.Lib.Machine

namespace Prospero.Proofs.KubeFleet
open Prospero.KubeFleet
open Prospero.SessionPlane (ensurePodAgent AgentRecord)
open Prospero.WatchLoop (phaseToStatus)

section Overlay

variable {tasks : List CalibanTask} {pods : Pods} {included : String → Bool} {name addr : String}
  {records : List PodRecord}

theorem agentFromTask_id (task : CalibanTask) : (agentFromTask task).id = task.nameOrDefault := rfl

theorem refresh_id (endpoints : HashMap String String) (pods : Pods) (agent : Agent) :
    (refresh endpoints pods agent).id = agent.id := by
  unfold refresh
  split <;> rfl

/-- An endpoint to dial is that of a CR that is listed. -/
theorem agentEndpoint_listed (h : (agentEndpoint tasks included).lookup name = some addr) :
    name ∈ tasks.map CalibanTask.nameOrDefault := by
  by_contra hnot
  rw [agentEndpoint, HashMap.lookup_collectBy_absent hnot] at h
  cases h

/-- The status that a pod has reported of a CR's agent. -/
theorem refreshed_lookup (hdial : (agentEndpoint tasks included).lookup name = some addr) :
    (overlayPodStatus tasks pods (tasks.map agentFromTask) included).2.lookup name =
      (podRecord pods addr).map fun rec => rec.status := by
  have hlisted : name ∈ (tasks.map agentFromTask).map Agent.id := by
    rw [List.map_map]
    exact agentEndpoint_listed hdial
  let status (id : String) : Option AgentStatus :=
    (((agentEndpoint tasks included).lookup id).bind (podRecord pods)).map fun rec => rec.status
  refine (HashMap.lookup_collectBy_key (g := status) (fun _ _ => rfl) name).trans ?_
  rw [if_pos hlisted]
  simp only [status, hdial, Option.bind_some]

theorem overlaid_status (hdial : (agentEndpoint tasks included).lookup name = some addr)
    {rec : PodRecord} (hrec : podRecord pods addr = some rec) {agent : Agent}
    (h : agent ∈ (overlayPodStatus tasks pods (tasks.map agentFromTask) included).1)
    (hid : agent.id = name) : agent.status = rec.status := by
  obtain ⟨a, -, rfl⟩ := List.mem_map.mp h
  rw [refresh_id] at hid
  have hlive : ((agentEndpoint tasks included).lookup a.id).bind (podRecord pods) = some rec := by
    rw [hid, hdial, Option.bind_some, hrec]
  unfold refresh
  rw [hlive]

end Overlay

section Settled

/-- A CR whose pod has an agent to attach to is not shown, and not reported, as finished. -/
def NeverSettled (tasks : List CalibanTask) (pods : Pods) (included : String → Bool)
    (name : String) (records : List PodRecord) (hasSpec : Bool) : Prop :=
  (∃ id, ensurePodAgent (records.map PodRecord.toAgentRecord) hasSpec = .attach id) →
    (∀ agent ∈ (overlayPodStatus tasks pods (tasks.map agentFromTask) included).1,
      agent.id = name → agent.status.isTerminal = false) ∧
    ∀ status, (overlayPodStatus tasks pods (tasks.map agentFromTask) included).2.lookup name =
      some status → (agentsSettledCondition [status]).status ≠ "True"

/-- Where a pod's caliband has an agent that is not terminal, its first one is not. -/
def LiveFirst (records : List PodRecord) : Prop :=
  (∃ rec ∈ records, rec.status.isTerminal = false) →
    ∃ first, records.head? = some first ∧ first.status.isTerminal = false

theorem attach_iff_live (records : List PodRecord) (hasSpec : Bool) :
    (∃ id, ensurePodAgent (records.map PodRecord.toAgentRecord) hasSpec = .attach id) ↔
      ∃ rec ∈ records, rec.status.isTerminal = false := by
  unfold ensurePodAgent
  cases hfind : (records.map PodRecord.toAgentRecord).find? fun r => !r.status.isTerminal with
  | some r =>
    have hmem := List.mem_of_find?_eq_some hfind
    have hlive := List.find?_some hfind
    obtain ⟨rec, hrec, rfl⟩ := List.mem_map.mp hmem
    refine ⟨fun _ => ⟨rec, hrec, by simpa using hlive⟩, fun _ => ⟨_, rfl⟩⟩
  | none =>
    have hall := List.find?_eq_none.mp hfind
    have hnone : ¬∃ rec ∈ records, rec.status.isTerminal = false := by
      rintro ⟨rec, hrec, hlive⟩
      exact hall _ (List.mem_map_of_mem hrec) (by simp [hlive])
    refine ⟨?_, fun h => absurd h hnone⟩
    rintro ⟨id, h⟩
    dsimp only at h
    split at h
    · cases h
    · split at h <;> cases h

theorem settled_one (status : AgentStatus) :
    (agentsSettledCondition [status]).status = "True" ↔ status.isTerminal = true := by
  cases status <;> decide

/-- The loop reports a live pod as running exactly where its first record is live. -/
theorem live_never_settled (tasks : List CalibanTask) (pods : Pods) (included : String → Bool)
    (name addr : String) (records : List PodRecord) (hasSpec : Bool)
    (hdial : (agentEndpoint tasks included).lookup name = some addr)
    (hreply : pods addr = some records) :
    NeverSettled tasks pods included name records hasSpec ↔ LiveFirst records := by
  have hrecord : podRecord pods addr = records.head? := by rw [podRecord, hreply, Option.bind_some]
  unfold NeverSettled LiveFirst
  rw [attach_iff_live, refreshed_lookup hdial, hrecord]
  apply imp_congr_right
  rintro ⟨rec, hrec, hlive⟩
  obtain ⟨first, rest, rfl⟩ := List.exists_cons_of_ne_nil (List.ne_nil_of_mem hrec)
  constructor
  · rintro ⟨-, hreport⟩
    refine ⟨first, rfl, ?_⟩
    by_contra hterminal
    exact hreport first.status rfl ((settled_one _).mpr (by simpa using hterminal))
  · rintro ⟨first', hfirst, hlive'⟩
    cases hfirst
    constructor
    · intro agent hagent hid
      rw [overlaid_status hdial hrecord hagent hid]
      exact hlive'
    · rintro status hs htrue
      cases hs
      rw [settled_one, hlive'] at htrue
      cases htrue

def runningTask : CalibanTask :=
  ⟨some "t1", some "u1", some "2026-08-01T12:00:00Z", "web",
    some ⟨"Running", some "10.0.0.1:7777", [], none⟩⟩

/-- The pod of the task answers, and no other. -/
def replies (records : List PodRecord) : Pods := fun addr =>
  if addr = "10.0.0.1:7777" then some records else none

/-- Two spawns have reached the pod, and the first worker has failed. -/
def spawnedTwice : List PodRecord := [⟨⟨"a1", .failed⟩, false⟩, ⟨⟨"a2", .running⟩, false⟩]

theorem live_never_settled_one :
    NeverSettled [runningTask] (replies [⟨⟨"a1", .running⟩, false⟩]) (fun _ => true) "t1"
      [⟨⟨"a1", .running⟩, false⟩] true :=
  (live_never_settled [runningTask] _ _ "t1" "10.0.0.1:7777" _ true rfl rfl).mpr
    fun _ => ⟨_, rfl, rfl⟩

theorem live_settled : ¬∀ (tasks : List CalibanTask) (pods : Pods) (included : String → Bool)
    (name addr : String) (records : List PodRecord) (hasSpec : Bool),
    (agentEndpoint tasks included).lookup name = some addr → pods addr = some records →
    NeverSettled tasks pods included name records hasSpec := by
  intro h
  have hreply := h [runningTask] (replies spawnedTwice) (fun _ => true) "t1" "10.0.0.1:7777"
    spawnedTwice true rfl rfl
  exact (hreply ⟨"a2", rfl⟩).2 .failed rfl rfl

end Settled

end Prospero.Proofs.KubeFleet
