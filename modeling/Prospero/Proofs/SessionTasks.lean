import Prospero.Lib.Machine
import Prospero.Lib.Slots
import Prospero.SessionPlane

namespace Prospero.Proofs.SessionTasks
open Prospero.SessionPlane

/-- At most one attach task an agent is live anywhere, and a pod receives at
most one `Spawn`, which makes no second agent in it. -/
structure SingleSession (w : World) : Prop where
  writer : ∀ i j p q, w.procs i = some p → w.procs j = some q → p.phase.isLive = true →
    q.phase.isLive = true → p.agent = q.agent → i = j
  spawn : ∀ agent addr, (w.pods agent addr).spawns ≤ 1 ∧
    (0 < (w.pods agent addr).spawns → (w.pods agent addr).registry.length ≤ 1)

/-- A free slot is reserved only when no task of the agent is live, be it one
that `stop` has taken the slot from or one on another replica. -/
def Sole (w : World) : Action → Prop
  | .reserve id => ∀ p, w.procs id = some p → p.phase = .owned →
      w.attached p.replica p.agent = none →
      ∀ i q, w.procs i = some q → q.agent = p.agent → q.phase.isLive = false
  | _ => True

structure PodOk (pod : Pod) : Prop where
  once : pod.spawns ≤ 1
  alone : 0 < pod.spawns → pod.registry.length = 1

/-- A task about to spawn has seen its pod empty, and is the only one that
could fill it. -/
structure Inv (w : World) : Prop where
  writer : ∀ i j p q, w.procs i = some p → w.procs j = some q → p.phase.isLive = true →
    q.phase.isLive = true → p.agent = q.agent → i = j
  empty : ∀ i p, w.procs i = some p → p.phase = .spawning →
    (w.pods p.agent p.addr).registry = []
  pods : ∀ agent addr, PodOk (w.pods agent addr)

theorem Inv.single {w : World} (h : Inv w) : SingleSession w := by
  refine ⟨h.writer, ?_⟩
  intro agent addr
  exact ⟨(h.pods agent addr).once, fun hs => Nat.le_of_eq ((h.pods agent addr).alone hs)⟩

section Turn

variable {w w' : World}

theorem proceed_spec {id : Nat} {source : Phase} {f : Proc → Option World}
    (hs : w.proceed id source f = some w') :
    ∃ p, w.procs id = some p ∧ p.phase = source ∧ f p = some w' := by
  unfold World.proceed at hs
  cases hp : w.procs id with
  | none => simp [hp] at hs
  | some p =>
    simp only [hp] at hs
    split at hs
    · rename_i hphase
      exact ⟨p, rfl, hphase, hs⟩
    · cases hs

/-- What an enabled action finds, and what it leaves. -/
inductive Turn (w : World) : Action → World → Prop
  | lease (a : Leases.Action) (l : Leases.World) (admitted : w.admits a = true)
      (moved : w.leases.step a = some l) : Turn w (.lease a) { w with leases := l }
  | spared (id : Nat) (me : ReplicaId) (agent : String) (endpoint : Endpoint) (hasSpec : Bool) :
      Turn w (.attach id me agent endpoint hasSpec) w
  | dial (id : Nat) (me : ReplicaId) (agent addr : String) (hasSpec : Bool)
      (slot : w.procs id = none) (unmarked : agent ∉ w.terminal me) :
      Turn w (.attach id me agent (.tcp addr) hasSpec)
        (w.setProc id ⟨me, agent, addr, hasSpec, 0, false, false, false, .dedup⟩)
  | dedup (id : Nat) (p : Proc) (slot : w.procs id = some p) (phase : p.phase = .dedup) :
      Turn w (.dedup id) (w.setProc id { p with
        phase := if (w.attached p.replica p.agent).isSome then .gone else .checked })
  | tryAcquire (id : Nat) (ok : Bool) (w' : World)
      (taken : w.statement id .checked (fun p => .tryAcquire id p.replica p.agent ok)
        (fun l => if (l.calls id).isSome then .acquired else .gone) = some w') :
      Turn w (.tryAcquire id ok) w'
  | recordHeld (id : Nat) (w' : World)
      (taken : w.statement id .acquired (fun _ => .recordHeld id) (fun _ => .owned) = some w') :
      Turn w (.recordHeld id) w'
  | occupied (id : Nat) (p : Proc) (t : AttachTask) (slot : w.procs id = some p)
      (phase : p.phase = .owned) (held : w.attached p.replica p.agent = some t) :
      Turn w (.reserve id) (World.setProc { w with
        generation := Function.update w.generation p.replica (w.generation p.replica + 1) }
        id { p with phase := .gone })
  | reserve (id : Nat) (p : Proc) (slot : w.procs id = some p) (phase : p.phase = .owned)
      (free : w.attached p.replica p.agent = none) :
      Turn w (.reserve id) ((World.setProc { w with
        generation := Function.update w.generation p.replica (w.generation p.replica + 1) } id
        { p with generation := w.generation p.replica, spawned := true, phase := .listing }).setSlot
          p.replica p.agent (some ⟨none, w.generation p.replica, id⟩))
  | recordAbort (id : Nat) (p : Proc) (t : AttachTask) (slot : w.procs id = some p)
      (spawned : p.spawned = true) (held : w.attached p.replica p.agent = some t)
      (same : t.generation = p.generation) :
      Turn w (.recordAbort id) ((w.setProc id { p with spawned := false }).setSlot
        p.replica p.agent (some { t with abort := some id }))
  | superseded (id : Nat) (p : Proc) (slot : w.procs id = some p) (spawned : p.spawned = true)
      (other : ∀ t, w.attached p.replica p.agent = some t → t.generation ≠ p.generation) :
      Turn w (.recordAbort id) (w.setProc id { p with spawned := false })
  | adopt (id : Nat) (p : Proc) (attachId : String) (slot : w.procs id = some p)
      (phase : p.phase = .listing)
      (found : ensurePodAgent (w.pods p.agent p.addr).registry p.hasSpec = .attach attachId) :
      Turn w (.list id true) (w.setProc id { p with phase := .streaming attachId })
  | mark (id : Nat) (p : Proc) (slot : w.procs id = some p) (phase : p.phase = .listing)
      (found : ensurePodAgent (w.pods p.agent p.addr).registry p.hasSpec = .terminal) :
      Turn w (.list id true) (World.cleanupAttach { w with
        terminal := Function.update w.terminal p.replica (p.agent :: w.terminal p.replica) } id p)
  | vacant (id : Nat) (p : Proc) (slot : w.procs id = some p) (phase : p.phase = .listing)
      (found : ensurePodAgent (w.pods p.agent p.addr).registry p.hasSpec = .spawn) :
      Turn w (.list id true) (w.setProc id { p with phase := .spawning })
  | unlisted (id : Nat) (ok : Bool) (p : Proc) (slot : w.procs id = some p)
      (phase : p.phase = .listing)
      (found : ok = true →
        ensurePodAgent (w.pods p.agent p.addr).registry p.hasSpec = .missing) :
      Turn w (.list id ok) (w.cleanupAttach id p)
  | spawn (id : Nat) (agentId : String) (p : Proc) (slot : w.procs id = some p)
      (phase : p.phase = .spawning) :
      Turn w (.spawn id agentId true true) ((w.setPod p.agent p.addr
        ⟨(w.pods p.agent p.addr).registry ++ [⟨agentId, .spawning⟩],
          (w.pods p.agent p.addr).spawns + 1⟩).setProc id { p with phase := .streaming agentId })
  | unanswered (id : Nat) (agentId : String) (p : Proc) (slot : w.procs id = some p)
      (phase : p.phase = .spawning) :
      Turn w (.spawn id agentId true false) ((w.setPod p.agent p.addr
        ⟨(w.pods p.agent p.addr).registry ++ [⟨agentId, .spawning⟩],
          (w.pods p.agent p.addr).spawns + 1⟩).cleanupAttach id p)
  | unsent (id : Nat) (agentId : String) (replied : Bool) (p : Proc) (slot : w.procs id = some p)
      (phase : p.phase = .spawning) :
      Turn w (.spawn id agentId false replied) (w.cleanupAttach id p)
  | finish (id : Nat) (p : Proc) (attachId : String) (slot : w.procs id = some p)
      (phase : p.phase = .streaming attachId) : Turn w (.finish id) (w.cleanupAttach id p)
  | cancel (id : Nat) (p : Proc) (slot : w.procs id = some p) (aborting : p.aborting = true) :
      Turn w (.cancel id) (w.setProc id { p with phase := .gone })
  | stop (id : Nat) (me : ReplicaId) (agent : String) (slot : w.procs id = none) :
      Turn w (.stop id me agent) ((w.takeSlot me agent).setProc id
        ⟨me, agent, "", false, 0, false, false, false, .stopping⟩)
  | forgetTerminal (id : Nat) (p : Proc) (slot : w.procs id = some p)
      (phase : p.phase = .stopping) :
      Turn w (.forgetTerminal id) { w.setProc id { p with phase := .detached } with
        terminal := Function.update w.terminal p.replica
          ((w.terminal p.replica).filter (· ≠ p.agent)) }
  | forgetHeld (id : Nat) (w' : World)
      (taken : w.statement id .detached (fun p => .forgetHeld id p.replica p.agent)
        (fun _ => .releasing) = some w') : Turn w (.forgetHeld id) w'
  | release (id : Nat) (ok : Bool) (w' : World)
      (taken : w.statement id .releasing (fun _ => .release id ok) (fun _ => .gone) = some w') :
      Turn w (.release id ok) w'
  | forgetGone (me : ReplicaId) (agent : String) :
      Turn w (.forgetGone me agent) { w with
        terminal := Function.update w.terminal me ((w.terminal me).filter (· ≠ agent)) }
  | status (agent addr : String) (place : Nat) (status : AgentStatus) :
      Turn w (.status agent addr place status) (w.setPod agent addr { w.pods agent addr with
        registry := (w.pods agent addr).registry.modify place
          fun record => { record with status := status } })
  | replacePod (agent addr : String) :
      Turn w (.replacePod agent addr) (w.setPod agent addr ⟨[], 0⟩)
  | restart (me : ReplicaId) : Turn w (.restart me) (w.restart me)

theorem attach_turn {id : Nat} {me : ReplicaId} {agent : String} {endpoint : Endpoint}
    {hasSpec : Bool} (hs : w.step (.attach id me agent endpoint hasSpec) = some w') :
    Turn w (.attach id me agent endpoint hasSpec) w' := by
  simp only [World.step] at hs
  split at hs
  · rename_i hfree _
    split at hs
    · cases hs
      exact .spared id me agent _ hasSpec
    · split at hs
      · cases hs
        exact .spared id me agent _ hasSpec
      · rename_i hunmarked
        cases hs
        exact .dial id me agent _ hasSpec hfree hunmarked
  · cases hs

theorem reserve_turn {id : Nat} (hs : w.step (.reserve id) = some w') :
    Turn w (.reserve id) w' := by
  obtain ⟨p, hat, hphase, hf⟩ := proceed_spec hs
  simp only at hf
  split at hf
  · rename_i t hheld
    cases hf
    exact .occupied id p t hat hphase hheld
  · rename_i hfree
    cases hf
    exact .reserve id p hat hphase hfree

theorem recordAbort_turn {id : Nat} (hs : w.step (.recordAbort id) = some w') :
    Turn w (.recordAbort id) w' := by
  simp only [World.step] at hs
  split at hs
  · rename_i p hat
    obtain ⟨hspawned, hs⟩ := Option.ite_none_right_eq_some.mp hs
    split at hs
    · rename_i t hheld
      split at hs
      · rename_i hsame
        cases hs
        exact .recordAbort id p t hat hspawned hheld hsame
      · rename_i hother
        cases hs
        refine .superseded id p hat hspawned ?_
        intro t' ht'
        cases hheld.symm.trans ht'
        exact hother
    · rename_i hnone
      cases hs
      refine .superseded id p hat hspawned ?_
      intro t ht
      cases hnone.symm.trans ht
  · cases hs

theorem list_turn {id : Nat} {ok : Bool} (hs : w.step (.list id ok) = some w') :
    Turn w (.list id ok) w' := by
  obtain ⟨p, hat, hphase, hf⟩ := proceed_spec hs
  cases ok with
  | false =>
    cases hf
    exact .unlisted id false p hat hphase (by simp)
  | true =>
    simp only [if_true] at hf
    split at hf
    · rename_i attachId hfound
      cases hf
      exact .adopt id p attachId hat hphase hfound
    · rename_i hfound
      cases hf
      exact .mark id p hat hphase hfound
    · rename_i hfound
      cases hf
      exact .vacant id p hat hphase hfound
    · rename_i hfound
      cases hf
      exact .unlisted id true p hat hphase fun _ => hfound

theorem spawn_turn {id : Nat} {agentId : String} {received replied : Bool}
    (hs : w.step (.spawn id agentId received replied) = some w') :
    Turn w (.spawn id agentId received replied) w' := by
  obtain ⟨p, hat, hphase, hf⟩ := proceed_spec hs
  cases received with
  | false =>
    simp only [Bool.false_eq_true, if_false, false_and, Option.some.injEq] at hf
    subst hf
    exact .unsent id agentId replied p hat hphase
  | true =>
    cases replied with
    | true =>
      simp only [if_true, true_and, Option.some.injEq] at hf
      subst hf
      exact .spawn id agentId p hat hphase
    | false =>
      simp only [if_true, Bool.false_eq_true, and_false, if_false, Option.some.injEq] at hf
      subst hf
      exact .unanswered id agentId p hat hphase

/-- One case per action, once and for all. -/
theorem step_turn {a : Action} (hs : w.step a = some w') : Turn w a w' := by
  cases a with
  | lease a =>
    obtain ⟨hadmitted, hs⟩ := Option.ite_none_right_eq_some.mp hs
    obtain ⟨l, hmoved, rfl⟩ := Option.map_eq_some_iff.mp hs
    exact .lease a l hadmitted hmoved
  | attach id me agent endpoint hasSpec => exact attach_turn hs
  | dedup id =>
    obtain ⟨p, hat, hphase, hf⟩ := proceed_spec hs
    cases hf
    exact .dedup id p hat hphase
  | tryAcquire id ok => exact .tryAcquire id ok w' hs
  | recordHeld id => exact .recordHeld id w' hs
  | reserve id => exact reserve_turn hs
  | recordAbort id => exact recordAbort_turn hs
  | list id ok => exact list_turn hs
  | spawn id agentId received replied => exact spawn_turn hs
  | finish id =>
    simp only [World.step] at hs
    split at hs
    · rename_i p hat
      split at hs
      · rename_i attachId hphase
        cases hs
        exact .finish id p attachId hat hphase
      · cases hs
    · cases hs
  | cancel id =>
    simp only [World.step] at hs
    split at hs
    · rename_i p hat
      obtain ⟨haborting, hs⟩ := Option.ite_none_right_eq_some.mp hs
      cases hs
      exact .cancel id p hat haborting
    · cases hs
  | stop id me agent =>
    simp only [World.step] at hs
    split at hs
    · rename_i hfree _
      cases hs
      exact .stop id me agent hfree
    · cases hs
  | forgetTerminal id =>
    obtain ⟨p, hat, hphase, hf⟩ := proceed_spec hs
    cases hf
    exact .forgetTerminal id p hat hphase
  | forgetHeld id => exact .forgetHeld id w' hs
  | release id ok => exact .release id ok w' hs
  | forgetGone me agent =>
    cases hs
    exact .forgetGone me agent
  | status agent addr place status =>
    cases hs
    exact .status agent addr place status
  | replacePod agent addr =>
    cases hs
    exact .replacePod agent addr
  | restart me =>
    cases hs
    exact .restart me

end Turn

/-- No task becomes live, and none sets about to spawn in a pod that is not
known to be empty. -/
structure Calm (w w' : World) : Prop where
  live : ∀ i q, w'.procs i = some q → q.phase.isLive = true →
    ∃ p, w.procs i = some p ∧ p.phase.isLive = true ∧ p.agent = q.agent
  spawning : ∀ i q, w'.procs i = some q → q.phase = .spawning →
    (w.pods q.agent q.addr).registry = [] ∨
    ∃ p, w.procs i = some p ∧ p.phase = .spawning ∧ p.agent = q.agent ∧ p.addr = q.addr

/-- What a step does to the tasks and the pods. -/
inductive Effect (w w' : World) : Action → Prop
  | calm {a : Action} (calm : Calm w w') (pods : w'.pods = w.pods) : Effect w w' a
  | reserve {id : Nat} {p : Proc} (q : Proc) (slot : w.procs id = some p) (phase : p.phase = .owned)
      (free : w.attached p.replica p.agent = none) (agent : q.agent = p.agent)
      (listing : q.phase = .listing) (procs : w'.procs = Function.update w.procs id (some q))
      (pods : w'.pods = w.pods) : Effect w w' (.reserve id)
  | spawn {id : Nat} {agentId : String} {received replied : Bool} {p : Proc} (q : Proc)
      (slot : w.procs id = some p) (phase : p.phase = .spawning) (agent : q.agent = p.agent)
      (done : q.phase ≠ .spawning) (procs : w'.procs = Function.update w.procs id (some q))
      (pods : w'.pods = (w.setPod p.agent p.addr
        ⟨(w.pods p.agent p.addr).registry ++ [⟨agentId, .spawning⟩],
          (w.pods p.agent p.addr).spawns + 1⟩).pods) :
      Effect w w' (.spawn id agentId received replied)
  | pod {a : Action} (agent addr : String) (pod : Pod) (procs : w'.procs = w.procs)
      (pods : w'.pods = (w.setPod agent addr pod).pods)
      (ok : PodOk (w.pods agent addr) → PodOk pod)
      (empty : (w.pods agent addr).registry = [] → pod.registry = []) : Effect w w' a

section Calm

variable {w w' : World} {id : Nat} {q : Proc}

/-- Where one process is replaced, any process is the new one or an old one. -/
theorem procs_cases (hprocs : w'.procs = Function.update w.procs id (some q)) {i : Nat} {r : Proc}
    (hi : w'.procs i = some r) : (i = id ∧ r = q) ∨ (i ≠ id ∧ w.procs i = some r) :=
  Slots.update_some (hprocs ▸ hi)

theorem Calm.of_procs (h : w'.procs = w.procs) : Calm w w' := by
  constructor
  · intro i q hi hq
    rw [h] at hi
    exact ⟨q, hi, hq, rfl⟩
  · intro i q hi hq
    rw [h] at hi
    exact Or.inr ⟨q, hi, hq, rfl, rfl⟩

theorem Calm.update (hprocs : w'.procs = Function.update w.procs id (some q))
    (hlive : q.phase.isLive = true →
      ∃ p, w.procs id = some p ∧ p.phase.isLive = true ∧ p.agent = q.agent)
    (hspawning : q.phase = .spawning → (w.pods q.agent q.addr).registry = []) : Calm w w' := by
  constructor
  · intro i r hi hr
    rcases procs_cases hprocs hi with ⟨rfl, rfl⟩ | ⟨_, hi⟩
    · exact hlive hr
    · exact ⟨r, hi, hr, rfl⟩
  · intro i r hi hr
    rcases procs_cases hprocs hi with ⟨rfl, rfl⟩ | ⟨_, hi⟩
    · exact Or.inl (hspawning hr)
    · exact Or.inr ⟨r, hi, hr, rfl, rfl⟩

theorem Calm.idle (hprocs : w'.procs = Function.update w.procs id (some q))
    (hidle : q.phase.isLive = false) : Calm w w' := by
  apply Calm.update hprocs
  · intro hlive
    rw [hidle] at hlive
    cases hlive
  · intro hs
    rw [hs] at hidle
    cases hidle

theorem Calm.modify {f : Proc → Proc}
    (hprocs : w'.procs = Function.update w.procs id ((w.procs id).map f))
    (hf : ∀ p, (f p).agent = p.agent ∧ (f p).addr = p.addr ∧ (f p).phase = p.phase) :
    Calm w w' := by
  have hold : ∀ i q, w'.procs i = some q →
      ∃ p, w.procs i = some p ∧ p.agent = q.agent ∧ p.addr = q.addr ∧ p.phase = q.phase := by
    intro i q hi
    rw [hprocs] at hi
    by_cases he : i = id
    · subst he
      rw [Function.update_self] at hi
      obtain ⟨p, hp, rfl⟩ := Option.map_eq_some_iff.mp hi
      obtain ⟨hagent, haddr, hphase⟩ := hf p
      exact ⟨p, hp, hagent.symm, haddr.symm, hphase.symm⟩
    · rw [Function.update_of_ne he] at hi
      exact ⟨q, hi, rfl, rfl, rfl⟩
  constructor
  · intro i q hi hq
    obtain ⟨p, hp, hagent, _, hphase⟩ := hold i q hi
    exact ⟨p, hp, hphase ▸ hq, hagent⟩
  · intro i q hi hq
    obtain ⟨p, hp, hagent, haddr, hphase⟩ := hold i q hi
    exact Or.inr ⟨p, hp, hphase.trans hq, hagent, haddr⟩

theorem Calm.trans {w'' : World} (h : Calm w w') (h' : Calm w' w'') (hpods : w'.pods = w.pods) :
    Calm w w'' := by
  constructor
  · intro i r hi hr
    obtain ⟨q, hq, hqlive, hagent⟩ := h'.live i r hi hr
    obtain ⟨p, hp, hplive, hagent'⟩ := h.live i q hq hqlive
    exact ⟨p, hp, hplive, hagent'.trans hagent⟩
  · intro i r hi hr
    rcases h'.spawning i r hi hr with hempty | ⟨q, hq, hqs, hagent, haddr⟩
    · rw [hpods] at hempty
      exact Or.inl hempty
    · rcases h.spawning i q hq hqs with hempty | ⟨p, hp, hps, hagent', haddr'⟩
      · rw [hagent, haddr] at hempty
        exact Or.inl hempty
      · exact Or.inr ⟨p, hp, hps, hagent'.trans hagent, haddr'.trans haddr⟩

end Calm

section Step

variable {w w' : World}

theorem statement_calm {id : Nat} {source : Phase} {a : Proc → Leases.Action}
    {target : Leases.World → Phase} (hs : w.statement id source a target = some w')
    (htarget : ∀ l, (target l).isLive = false) : Calm w w' ∧ w'.pods = w.pods := by
  obtain ⟨p, _, _, hf⟩ := proceed_spec hs
  obtain ⟨l, _, rfl⟩ := Option.map_eq_some_iff.mp hf
  exact ⟨.idle rfl (htarget l), rfl⟩

theorem cleanupAttach_procs (w : World) (id : Nat) (p : Proc) :
    (w.cleanupAttach id p).procs =
      Function.update w.procs id (some { p with phase := .detached }) := by
  unfold World.cleanupAttach
  split <;> rfl

theorem cleanupAttach_pods (w : World) (id : Nat) (p : Proc) :
    (w.cleanupAttach id p).pods = w.pods := by
  unfold World.cleanupAttach
  split <;> rfl

theorem cleanupAttach_calm (w : World) (id : Nat) (p : Proc) : Calm w (w.cleanupAttach id p) :=
  .idle (cleanupAttach_procs w id p) rfl

theorem takeSlot_calm (w : World) (me : ReplicaId) (agent : String) :
    Calm w (w.takeSlot me agent) ∧ (w.takeSlot me agent).pods = w.pods := by
  unfold World.takeSlot
  split
  · exact ⟨.of_procs rfl, rfl⟩
  · rename_i t _
    have hstop : Calm w ((w.setSlot me agent none).modifyProc t.task
        fun p => { p with stopped := true }) := .modify rfl (by simp)
    simp only
    split
    · exact ⟨hstop.trans (.modify rfl (by simp)) rfl, rfl⟩
    · exact ⟨hstop, rfl⟩

theorem restart_calm (w : World) (me : ReplicaId) : Calm w (w.restart me) := by
  have hold : ∀ i q, (w.restart me).procs i = some q → q.phase ≠ .gone → w.procs i = some q := by
    intro i q hi hphase
    obtain ⟨p, hp, he⟩ := Option.map_eq_some_iff.mp hi
    split at he
    · subst he
      exact absurd rfl hphase
    · subst he
      exact hp
  constructor
  · intro i q hi hq
    refine ⟨q, hold i q hi ?_, hq, rfl⟩
    intro he
    rw [he] at hq
    cases hq
  · intro i q hi hq
    exact Or.inr ⟨q, hold i q hi (by rw [hq]; simp), hq, rfl, rfl⟩

theorem ensurePodAgent_spawn {agents : List AgentRecord} {hasSpec : Bool}
    (h : ensurePodAgent agents hasSpec = .spawn) : agents = [] := by
  unfold ensurePodAgent at h
  split at h
  · cases h
  · split at h
    · cases h
    · rfl

/-- Only the caller of `tokio::spawn` is told apart by `spawned`. -/
theorem unspawned_calm {id : Nat} {p : Proc} (slot : w.procs id = some p)
    (hprocs : w'.procs = Function.update w.procs id (some { p with spawned := false })) :
    Calm w w' := by
  have hmap : (w.procs id).map (fun p => { p with spawned := false }) =
      some { p with spawned := false } := by rw [slot, Option.map_some]
  exact .modify (by rw [hprocs, ← hmap]) (by simp)

theorem step_effect {a : Action} (hs : w.step a = some w') : Effect w w' a := by
  cases step_turn hs with
  | lease | spared | forgetGone => exact .calm (.of_procs rfl) rfl
  | dial | occupied | cancel | forgetTerminal => exact .calm (.idle rfl rfl) rfl
  | dedup id p slot phase =>
    refine .calm (.idle rfl ?_) rfl
    simp only
    split <;> rfl
  | tryAcquire id ok w' taken =>
    obtain ⟨hcalm, hpods⟩ := statement_calm taken (fun l => by split <;> rfl)
    exact .calm hcalm hpods
  | recordHeld id w' taken | forgetHeld id w' taken | release id ok w' taken =>
    obtain ⟨hcalm, hpods⟩ := statement_calm taken (fun _ => rfl)
    exact .calm hcalm hpods
  | reserve id p slot phase free =>
    exact .reserve { p with
      generation := w.generation p.replica
      spawned := true
      phase := .listing } slot phase free rfl rfl rfl rfl
  | recordAbort id p t slot spawned held same => exact .calm (unspawned_calm slot rfl) rfl
  | superseded id p slot spawned other => exact .calm (unspawned_calm slot rfl) rfl
  | adopt id p attachId slot phase found =>
    refine .calm (.update rfl (fun _ => ⟨p, slot, ?_, rfl⟩) (by simp)) rfl
    rw [phase]
    rfl
  | vacant id p slot phase found =>
    refine .calm (.update rfl (fun _ => ⟨p, slot, ?_, rfl⟩) ?_) rfl
    · rw [phase]
      rfl
    · exact fun _ => ensurePodAgent_spawn found
  | mark id p slot phase found =>
    exact .calm (.idle (cleanupAttach_procs _ id p) rfl) (cleanupAttach_pods _ id p)
  | unlisted id ok p slot phase found | unsent id agentId replied p slot phase
  | finish id p attachId slot phase =>
    exact .calm (cleanupAttach_calm w id p) (cleanupAttach_pods w id p)
  | spawn id agentId p slot phase =>
    exact .spawn { p with phase := .streaming agentId } slot phase rfl (by simp) rfl rfl
  | unanswered id agentId p slot phase =>
    exact .spawn { p with phase := .detached } slot phase rfl (by simp)
      (cleanupAttach_procs _ id p) (cleanupAttach_pods _ id p)
  | stop id me agent slot =>
    obtain ⟨hcalm, hpods⟩ := takeSlot_calm w me agent
    exact .calm (hcalm.trans (.idle rfl rfl) hpods) hpods
  | status agent addr place status =>
    refine .pod agent addr _ rfl rfl (fun hok => ⟨hok.once, ?_⟩) ?_
    · intro hpos
      simpa using hok.alone hpos
    · intro hempty
      simp [hempty]
  | replacePod agent addr =>
    exact .pod agent addr _ rfl rfl (fun _ => ⟨Nat.zero_le _, by simp⟩) fun _ => rfl
  | restart me => exact .calm (restart_calm w me) rfl

theorem setPod_pods (w : World) (agent addr agent' addr' : String) (pod : Pod) :
    (w.setPod agent addr pod).pods agent' addr' =
      if agent' = agent ∧ addr' = addr then pod else w.pods agent' addr' := by
  simp only [World.setPod]
  by_cases ha : agent' = agent
  · subst ha
    by_cases hd : addr' = addr <;> simp [hd]
  · simp [ha]

section Keep

variable (h : Inv w)
include h

theorem Inv.calm (calm : Calm w w') (pods : w'.pods = w.pods) : Inv w' := by
  refine ⟨?_, ?_, pods ▸ h.pods⟩
  · intro i j q r hi hj hq hr hagent
    obtain ⟨p, hp, hplive, hpagent⟩ := calm.live i q hi hq
    obtain ⟨p', hp', hplive', hpagent'⟩ := calm.live j r hj hr
    exact h.writer i j p p' hp hp' hplive hplive' (hpagent.trans (hagent.trans hpagent'.symm))
  · intro i q hi hq
    rw [pods]
    rcases calm.spawning i q hi hq with hempty | ⟨p, hp, hps, hagent, haddr⟩
    · exact hempty
    · rw [← hagent, ← haddr]
      exact h.empty i p hp hps

theorem Inv.reserve {id : Nat} {p q : Proc} (agent : q.agent = p.agent) (listing : q.phase = .listing)
    (procs : w'.procs = Function.update w.procs id (some q)) (pods : w'.pods = w.pods)
    (hidle : ∀ i r, w.procs i = some r → r.agent = p.agent → r.phase.isLive = false) : Inv w' := by
  have hnone : ∀ i r, w.procs i = some r → r.phase.isLive = true → r.agent ≠ q.agent := by
    intro i r hi hlive hagent
    have hidle := hidle i r hi (hagent.trans agent)
    rw [hlive] at hidle
    cases hidle
  refine ⟨?_, ?_, pods ▸ h.pods⟩
  · intro i j r r' hi hj hr hr' hagent
    rcases procs_cases procs hi with ⟨rfl, rfl⟩ | ⟨_, hi⟩
    · rcases procs_cases procs hj with ⟨rfl, rfl⟩ | ⟨_, hj⟩
      · rfl
      · exact absurd hagent.symm (hnone j r' hj hr')
    · rcases procs_cases procs hj with ⟨rfl, rfl⟩ | ⟨_, hj⟩
      · exact absurd hagent (hnone i r hi hr)
      · exact h.writer i j r r' hi hj hr hr' hagent
  · intro i r hi hr
    rw [pods]
    rcases procs_cases procs hi with ⟨rfl, rfl⟩ | ⟨_, hi⟩
    · rw [listing] at hr
      cases hr
    · exact h.empty i r hi hr

theorem Inv.spawn {id : Nat} {p q : Proc} {agentId : String} (slot : w.procs id = some p)
    (phase : p.phase = .spawning) (agent : q.agent = p.agent) (done : q.phase ≠ .spawning)
    (procs : w'.procs = Function.update w.procs id (some q))
    (pods : w'.pods = (w.setPod p.agent p.addr
      ⟨(w.pods p.agent p.addr).registry ++ [⟨agentId, .spawning⟩],
        (w.pods p.agent p.addr).spawns + 1⟩).pods) : Inv w' := by
  have hlive : p.phase.isLive = true := by rw [phase]; rfl
  have hempty := h.empty id p slot phase
  have hpod := h.pods p.agent p.addr
  have hnone : (w.pods p.agent p.addr).spawns = 0 := by
    by_contra hne
    have hlen := hpod.alone (by omega)
    rw [hempty] at hlen
    cases hlen
  have hold : ∀ i r, w'.procs i = some r → r.phase.isLive = true →
      ∃ r', w.procs i = some r' ∧ r'.phase.isLive = true ∧ r'.agent = r.agent := by
    intro i r hi hr
    rcases procs_cases procs hi with ⟨rfl, rfl⟩ | ⟨_, hi⟩
    · exact ⟨p, slot, hlive, agent.symm⟩
    · exact ⟨r, hi, hr, rfl⟩
  refine ⟨?_, ?_, ?_⟩
  · intro i j r r' hi hj hr hr' hagent
    obtain ⟨o, ho, holive, hoagent⟩ := hold i r hi hr
    obtain ⟨o', ho', holive', hoagent'⟩ := hold j r' hj hr'
    exact h.writer i j o o' ho ho' holive holive' (hoagent.trans (hagent.trans hoagent'.symm))
  · intro i r hi hr
    rcases procs_cases procs hi with ⟨rfl, rfl⟩ | ⟨hie, hi⟩
    · exact absurd hr done
    · have hne : r.agent ≠ p.agent := fun hagent =>
        hie (h.writer i id r p hi slot (by rw [hr]; rfl) hlive hagent)
      rw [pods, setPod_pods, if_neg (fun hkey => hne hkey.1)]
      exact h.empty i r hi hr
  · intro agent' addr'
    rw [pods, setPod_pods]
    split
    · rw [hempty, hnone]
      exact ⟨Nat.le_refl 1, fun _ => rfl⟩
    · exact h.pods agent' addr'

theorem Inv.pod {agent addr : String} {pod : Pod} (procs : w'.procs = w.procs)
    (pods : w'.pods = (w.setPod agent addr pod).pods)
    (ok : PodOk (w.pods agent addr) → PodOk pod)
    (empty : (w.pods agent addr).registry = [] → pod.registry = []) : Inv w' := by
  refine ⟨?_, ?_, ?_⟩
  · rw [procs]
    exact h.writer
  · intro i r hi hr
    rw [procs] at hi
    have hempty := h.empty i r hi hr
    rw [pods, setPod_pods]
    split
    · rename_i hkey
      rw [hkey.1, hkey.2] at hempty
      exact empty hempty
    · exact hempty
  · intro agent' addr'
    rw [pods, setPod_pods]
    split
    · exact ok (h.pods agent addr)
    · exact h.pods agent' addr'

theorem Inv.effect {a : Action} (hok : Sole w a) (he : Effect w w' a) : Inv w' := by
  cases he with
  | calm calm pods => exact h.calm calm pods
  | reserve q slot phase free agent listing procs pods =>
    exact h.reserve agent listing procs pods (hok _ slot phase free)
  | spawn q slot phase agent done procs pods => exact h.spawn slot phase agent done procs pods
  | pod agent addr pod procs pods ok empty => exact h.pod procs pods ok empty

end Keep

/-- A slot reserved beside a live task makes two of them. -/
theorem not_single_of_reserve {a : Action} (hbad : ¬Sole w a) (hs : w.step a = some w') :
    ¬SingleSession w' := by
  cases a with
  | reserve id =>
    simp only [Sole, not_forall, Bool.not_eq_false] at hbad
    obtain ⟨p, hat, hphase, hfree, i, q, hi, hagent, hlive⟩ := hbad
    have hne : i ≠ id := by
      intro he
      rw [he, hat] at hi
      cases hi
      rw [hphase] at hlive
      cases hlive
    simp only [World.step, World.proceed, hat, hphase, if_true, hfree, Option.some.injEq] at hs
    subst hs
    intro hgood
    apply hne
    apply hgood.writer i id q _ ((Function.update_of_ne hne _ _).trans hi)
      (Function.update_self ..) hlive rfl hagent
  | _ => exact absurd trivial hbad

theorem Inv.start (now : Int) (table : Leases.Table) (ttl : ReplicaId → Int)
    (registry : String → String → List AgentRecord) :
    Inv (World.start now table ttl registry) := by
  constructor
  · intro i j p q hi
    cases hi
  · intro i p hi
    cases hi
  · intro agent addr
    exact ⟨Nat.zero_le _, by simp [World.start]⟩

end Step

end Prospero.Proofs.SessionTasks
