import Prospero.Proofs.WatchPass

namespace Prospero.Proofs.Incarnations
open Prospero.KubeFleet
open Prospero.Proofs.KubeFleet
open Prospero.Proofs.WatchPass
open Prospero.WatchLoop (phaseToStatus)

/-- The CR was listed by the poll before, under another uid. -/
def Recreated (l : Loop) (task : CalibanTask) : Prop :=
  ∃ uid, l.lastUids.lookup task.nameOrDefault = some uid ∧ uid ≠ task.uid.getD ""

/-- The CR's own phase or its pod gives the status. -/
def Reports (o : Observation) (task : CalibanTask) (status : AgentStatus) : Prop :=
  (agentFromTask task).status = status ∨
    ∃ rec, liveRecord o.pods task = some rec ∧ rec.status = status

/-- The status that a change tells of an agent. -/
def told : FleetChange → Option (String × AgentStatus)
  | .discovered id _ agent => some (id, agent.status)
  | .statusChanged id _ _ toStatus => some (id, toStatus)
  | .gone _ _ | .workspaceHealth _ _ => none

/-- What a poll stores and broadcasts of a CR that was created anew is not the
terminal status of the one before, unless the CR or its pod reports it. -/
def NeverInherits (l : Loop) (o : Observation) : Prop :=
  ∀ task ∈ o.tasks, Recreated l task →
    ∀ prev, l.known.lookup task.nameOrDefault = some prev → prev.status.isTerminal →
    (∀ agent, (o.pass l).known.lookup task.nameOrDefault = some agent →
      agent.status = prev.status → Reports o task prev.status) ∧
    ∀ change ∈ o.changes l.known, told change = some (task.nameOrDefault, prev.status) →
      Reports o task prev.status

/-- A CR that was created anew over a terminal one has another creation timestamp,
or reports that very status. -/
def Tells (l : Loop) (o : Observation) : Prop :=
  ∀ task ∈ o.tasks, Recreated l task →
    ∀ prev, l.known.lookup task.nameOrDefault = some prev → prev.status.isTerminal →
    prev.startedAt ≠ task.creationTimestamp.getD "" ∨ Reports o task prev.status

section Pass

variable {l : Loop} {o : Observation} {task : CalibanTask}

theorem liveAgent_reports (o : Observation) (task : CalibanTask) :
    Reports o task (liveAgent o.pods task).status := by
  unfold liveAgent
  cases hrec : liveRecord o.pods task with
  | some rec => exact Or.inr ⟨rec, hrec, rfl⟩
  | none => exact Or.inl rfl

/-- What a poll makes of a CR, the CR or its pod reports, or it is settled. -/
theorem observe_reports {known : HashMap String Agent} (h : settledStatus known task = none) :
    Reports o task (observe o known task).status := by
  unfold observe
  rw [h]
  exact liveAgent_reports o task

theorem settled_same {known : HashMap String Agent} {prev : Agent}
    (hprev : known.lookup task.nameOrDefault = some prev) (hterminal : prev.status.isTerminal)
    (hstarted : prev.startedAt = task.creationTimestamp.getD "") :
    settledStatus known task = some prev.status := by
  rw [settledStatus, hprev, Option.bind_some]
  exact if_pos ⟨hterminal, hstarted⟩

theorem settled_apart {known : HashMap String Agent} {prev : Agent}
    (hprev : known.lookup task.nameOrDefault = some prev)
    (hstarted : prev.startedAt ≠ task.creationTimestamp.getD "") :
    settledStatus known task = none := by
  rw [settledStatus, hprev, Option.bind_some]
  exact if_neg fun h => hstarted h.2

/-- A change about a listed CR tells what the poll made of it. -/
theorem changes_told (h : Named o.tasks) (ht : task ∈ o.tasks) {change : FleetChange}
    {status : AgentStatus} (hc : change ∈ o.changes l.known)
    (htold : told change = some (task.nameOrDefault, status)) :
    status = (observe o l.known task).status := by
  obtain ⟨-, -, -, hchanges⟩ := diff_fold h l.known
  rcases List.mem_append.mp hc with hc | hc
  · rw [hchanges] at hc
    obtain ⟨t, htasks, hchange⟩ := List.mem_filterMap.mp hc
    have hpair : told change = some (t.nameOrDefault, (observe o l.known t).status) := by
      unfold changeOf at hchange
      split at hchange
      · cases hchange
        rfl
      · cases (Option.ite_none_right_eq_some.mp hchange).2
        rfl
    rw [hpair] at htold
    obtain ⟨hname, hstatus⟩ := Prod.mk.inj (Option.some.inj htold)
    obtain rfl := List.inj_on_of_nodup_map h.nodup htasks ht hname
    exact hstatus.symm
  · obtain ⟨name, -, hgone⟩ := List.mem_filterMap.mp hc
    obtain ⟨agent, -, rfl⟩ := Option.map_eq_some_iff.mp hgone
    cases htold

theorem neverInherits_iff (h : Named o.tasks) : NeverInherits l o ↔ Tells l o := by
  constructor
  · intro hnever task ht hnew prev hprev hterminal
    by_cases hstarted : prev.startedAt = task.creationTimestamp.getD ""
    · right
      have hstatus : (observe o l.known task).status = prev.status := by
        rw [observe, settled_same hprev hterminal hstarted]
      exact (hnever task ht hnew prev hprev hterminal).1 _ (pass_listed h l ht) hstatus
    · exact Or.inl hstarted
  · intro htells task ht hnew prev hprev hterminal
    have hreports (hsame : (observe o l.known task).status = prev.status) :
        Reports o task prev.status := by
      rcases htells task ht hnew prev hprev hterminal with hstarted | hreported
      · exact hsame ▸ observe_reports (settled_apart hprev hstarted)
      · exact hreported
    constructor
    · intro agent hagent hstatus
      obtain rfl := Option.some.inj ((pass_listed h l ht).symm.trans hagent)
      exact hreports hstatus
    · intro change hc htold
      exact hreports (changes_told h ht hc htold).symm

end Pass

/-- A run never lets a CR inherit a status exactly where each poll can tell the
new CR from the old one. -/
theorem never_inherits (os : List Observation) (h : ∀ o ∈ os, Named o.tasks) :
    Machine.Steps poll NeverInherits Loop.start os ↔ Machine.Steps poll Tells Loop.start os :=
  Machine.steps_congr (fun o ho _ => neverInherits_iff (h o ho)) Loop.start

def incarnation (uid created : String) : CalibanTask :=
  ⟨some "t1", some uid, some created, "web", some ⟨"Running", some "10.0.0.1:7777", [], none⟩⟩

/-- The task's pod reports its agent done. -/
def finished (uid created : String) : Observation where
  tasks := [incarnation uid created]
  pods := replies [⟨⟨"a1", .done⟩, false⟩]

/-- The task's pod does not answer. -/
def silent (uid created : String) : Observation where
  tasks := [incarnation uid created]
  pods := fun _ => none

theorem incarnation_named (uid created : String) : Named [incarnation uid created] := by
  constructor
  · intro task ht
    cases List.mem_singleton.mp ht
    rfl
  · exact List.nodup_singleton _

theorem never_inherits_later : Machine.Steps poll NeverInherits Loop.start
    [finished "u1" "2026-08-01T12:00:00Z", silent "u2" "2026-08-01T12:00:01Z"] := by
  refine (never_inherits _ ?_).mpr ?_
  · intro o ho
    simp only [List.mem_cons, List.not_mem_nil, or_false] at ho
    rcases ho with rfl | rfl <;> exact incarnation_named _ _
  · refine Machine.steps_cons ?_ rfl (Machine.steps_cons ?_ rfl trivial)
    · rintro task - ⟨uid, huid, -⟩
      cases huid
    · rintro task ht - prev hprev -
      cases List.mem_singleton.mp ht
      cases hprev
      exact Or.inl (by decide)

theorem inherits : ¬∀ os : List Observation, (∀ o ∈ os, Named o.tasks) →
    Machine.Steps poll NeverInherits Loop.start os := by
  intro h
  have hrun := h [finished "u1" "2026-08-01T12:00:00Z", silent "u2" "2026-08-01T12:00:00Z"] (by
    intro o ho
    simp only [List.mem_cons, List.not_mem_nil, or_false] at ho
    rcases ho with rfl | rfl <;> exact incarnation_named _ _)
  obtain ⟨-, hrest⟩ := hrun
  obtain ⟨hsecond, -⟩ := hrest _ rfl
  have hreports := (hsecond (incarnation "u2" "2026-08-01T12:00:00Z") (List.mem_singleton.mpr rfl)
    ⟨"u1", rfl, by decide⟩ _ rfl rfl).1 _ rfl rfl
  rcases hreports with hphase | ⟨rec, hrec, -⟩
  · cases hphase
  · cases hrec

end Prospero.Proofs.Incarnations
