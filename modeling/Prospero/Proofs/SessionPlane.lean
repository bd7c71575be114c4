import Prospero.Proofs.Leases
import Prospero.Proofs.SessionTasks

namespace Prospero.Proofs.SessionPlane
open Prospero.SessionPlane
open Prospero.Proofs.Leases (Owns TakesOver owns_step calls_frame callOf forgetHeld_calls
  released_frame)
open Prospero.Proofs.SessionTasks (SingleSession Sole proceed_spec step_turn step_effect
  not_single_of_reserve)

/-- The replica has a live attach task for the agent. -/
def LiveOn (w : World) (me : ReplicaId) (agent : String) : Prop :=
  ∃ id p, w.procs id = some p ∧ p.replica = me ∧ p.agent = agent ∧ p.phase.isLive = true

/-- No lease is deleted or taken over from under a live task, and a slot is
reserved only by the lease's owner once its stopped tasks have ended. -/
def Sound (w : World) : Action → Prop
  | .tryAcquire id true => ∀ p, w.procs id = some p → p.phase = .checked →
      ∀ owner, TakesOver w.leases p.agent p.replica owner → ¬LiveOn w owner p.agent
  | .reserve id => ∀ p, w.procs id = some p → p.phase = .owned →
      w.attached p.replica p.agent = none → Owns w.leases.table p.replica p.agent ∧
      ∀ i q, w.procs i = some q → q.replica = p.replica → q.agent = p.agent →
        q.stopped = true → q.phase.isLive = false
  | .release id true => ∀ p, w.procs id = some p → p.phase = .releasing →
      ¬LiveOn w p.replica p.agent
  | _ => True

/-- What is known of the process with a number, as long as leases are kept. -/
structure ProcOk (w : World) (id : Nat) (p : Proc) : Prop where
  owner : p.phase.isLive = true → Owns w.leases.table p.replica p.agent
  slot : p.phase.isLive = true → p.stopped = false →
    ∃ t, w.attached p.replica p.agent = some t ∧ t.task = id
  outstanding : p.phase = .releasing → w.leases.calls id = some (p.replica, .released p.agent)

def ProcsOk (w : World) : Prop := ∀ i p, w.procs i = some p → ProcOk w i p

structure Leased (w : World) : Prop extends SessionTasks.Inv w where
  procs : ProcsOk w

section Procs

variable {w w' : World}

theorem ProcOk.congr {i : Nat} {p : Proc} (h : ProcOk w i p) (hleases : w'.leases = w.leases)
    (hattached : w'.attached = w.attached) : ProcOk w' i p := by
  constructor
  · rw [hleases]
    exact h.owner
  · rw [hattached]
    exact h.slot
  · rw [hleases]
    exact h.outstanding

theorem ProcOk.of_idle {i : Nat} {p : Proc} (hidle : p.phase.isLive = false)
    (hrel : p.phase = .releasing → w.leases.calls i = some (p.replica, .released p.agent)) :
    ProcOk w i p := by
  refine ⟨?_, ?_, hrel⟩
  · intro hlive
    rw [hidle] at hlive
    cases hlive
  · intro hlive
    rw [hidle] at hlive
    cases hlive

/-- One process changes, and the others stay all right. -/
theorem ProcsOk.change (id : Nat) (hsame : ∀ i, i ≠ id → w'.procs i = w.procs i)
    (hkeep : ∀ i p, i ≠ id → w.procs i = some p → ProcOk w' i p)
    (hnew : ∀ q, w'.procs id = some q → ProcOk w' id q) : ProcsOk w' := by
  intro i p hi
  by_cases he : i = id
  · subst he
    exact hnew p hi
  · rw [hsame i he] at hi
    exact hkeep i p he hi

theorem ProcsOk.setProc (h : ProcsOk w) {id : Nat} {q : Proc} (hq : ProcOk w id q) :
    ProcsOk (w.setProc id q) := by
  refine .change id (fun i hne => Function.update_of_ne hne _ _) ?_ ?_
  · intro i p _ hi
    exact (h i p hi).congr rfl rfl
  · intro r hr
    simp only [World.setProc, Function.update_self, Option.some.injEq] at hr
    subst hr
    exact hq.congr rfl rfl

theorem ProcsOk.modifyProc (h : ProcsOk w) (id : Nat) {f : Proc → Proc}
    (hf : ∀ p, (f p).replica = p.replica ∧ (f p).agent = p.agent ∧ (f p).phase = p.phase ∧
      ((f p).stopped = false → p.stopped = false)) : ProcsOk (w.modifyProc id f) := by
  refine .change id (fun i hne => Function.update_of_ne hne _ _) ?_ ?_
  · intro i p _ hi
    exact (h i p hi).congr rfl rfl
  · intro r hr
    simp only [World.modifyProc, Function.update_self] at hr
    obtain ⟨p, hp, rfl⟩ := Option.map_eq_some_iff.mp hr
    obtain ⟨hreplica, hagent, hphase, hstopped⟩ := hf p
    have hok := h id p hp
    constructor
    · rw [hreplica, hagent, hphase]
      exact hok.owner
    · intro hlive hs
      rw [hreplica, hagent]
      exact hok.slot (hphase ▸ hlive) (hstopped hs)
    · rw [hreplica, hagent, hphase]
      exact hok.outstanding

/-- A live process that goes on as one keeps its row and its slot. -/
theorem ProcOk.goOn {id : Nat} {p : Proc} (h : ProcOk w id p) (hlive : p.phase.isLive = true)
    {phase : Phase} (hphase : phase ≠ .releasing) : ProcOk w id { p with phase := phase } :=
  ⟨fun _ => h.owner hlive, fun _ hs => h.slot hlive hs, fun hr => absurd hr hphase⟩

/-- A slot may be emptied or filled anew once no live task counts on it. -/
theorem ProcsOk.setSlot (h : ProcsOk w) {me : ReplicaId} {agent : String} (t : Option AttachTask)
    (hfree : ∀ i p, w.procs i = some p → p.phase.isLive = true → p.stopped = false →
      p.replica = me → p.agent = agent → ∃ t', t = some t' ∧ t'.task = i) :
    ProcsOk (w.setSlot me agent t) := by
  intro i p hi
  refine ⟨(h i p hi).owner, ?_, (h i p hi).outstanding⟩
  intro hlive hstopped
  by_cases hkey : p.replica = me ∧ p.agent = agent
  · obtain ⟨rfl, rfl⟩ := hkey
    obtain ⟨t', ht, htask⟩ := hfree i p hi hlive hstopped rfl rfl
    exact ⟨t', by simp [World.setSlot, ht], htask⟩
  · obtain ⟨t', ht, htask⟩ := (h i p hi).slot hlive hstopped
    refine ⟨t', ?_, htask⟩
    rw [← ht]
    simp only [World.setSlot]
    by_cases hme : p.replica = me
    · subst hme
      have hne : p.agent ≠ agent := fun he => hkey ⟨rfl, he⟩
      simp [hne]
    · simp [hme]

/-- The agent's only live task takes no other task's slot with it. -/
theorem ProcsOk.cleanupAttach (h : ProcsOk w) {id : Nat} {p : Proc}
    (honly : ∀ i q, w.procs i = some q → q.phase.isLive = true → q.agent = p.agent → i = id) :
    ProcsOk (w.cleanupAttach id p) := by
  have hdone : ProcsOk (w.setProc id { p with phase := .detached }) :=
    h.setProc (.of_idle rfl (by simp))
  unfold World.cleanupAttach
  split
  · apply hdone.setSlot none
    intro i q hi hq _ _ hagent
    exfalso
    by_cases he : i = id
    · subst he
      simp only [World.setProc, Function.update_self, Option.some.injEq] at hi
      subst hi
      cases hq
    · simp only [World.setProc, Function.update_of_ne he] at hi
      exact he (honly i q hi hq hagent)
  · exact hdone

theorem ProcsOk.takeSlot (h : ProcsOk w) (me : ReplicaId) (agent : String) :
    ProcsOk (w.takeSlot me agent) := by
  unfold World.takeSlot
  cases ht : w.attached me agent with
  | none => exact h
  | some t =>
    have hstop : ProcsOk ((w.modifyProc t.task fun p => { p with stopped := true }).setSlot me
        agent none) := by
      apply (h.modifyProc t.task (by simp)).setSlot none
      intro i p hi hlive hstopped hreplica hagent
      exfalso
      by_cases he : i = t.task
      · subst he
        simp only [World.modifyProc, Function.update_self] at hi
        obtain ⟨q, _, rfl⟩ := Option.map_eq_some_iff.mp hi
        cases hstopped
      · simp only [World.modifyProc, Function.update_of_ne he] at hi
        obtain ⟨t', ht', htask⟩ := (h i p hi).slot hlive hstopped
        rw [hreplica, hagent, ht] at ht'
        cases ht'
        exact he htask.symm
    simp only
    split
    · exact hstop.modifyProc _ (by simp)
    · exact hstop

/-- The generation counters, terminal marks and pods bear on nothing here. -/
theorem ProcsOk.memo (h : ProcsOk w) (generation : ReplicaId → Nat)
    (terminal : ReplicaId → List String) (pods : String → String → Pod) :
    ProcsOk { w with generation := generation, terminal := terminal, pods := pods } :=
  fun i p hi => (h i p hi).congr rfl rfl

/-- The processes over a statement, from what the statement does to the rows and
to its own call. -/
theorem ProcsOk.statement (h : ProcsOk w) {id : Nat} {source : Phase}
    {a : Proc → Leases.Action} {target : Leases.World → Phase}
    (hs : w.statement id source a target = some w')
    (htarget : ∀ l, (target l).isLive = false) (hcall : ∀ p, callOf (a p) = some id)
    (hdel : ∀ p, w.procs id = some p → p.phase = source → ∀ me agent, LiveOn w me agent →
      ∀ call, a p = .release call true → w.leases.calls call ≠ some (me, .released agent))
    (htake : ∀ p, w.procs id = some p → p.phase = source → ∀ me agent, LiveOn w me agent →
      ∀ call other, a p = .tryAcquire call other agent true →
        ¬TakesOver w.leases agent other me)
    (hout : ∀ p, w.procs id = some p → target w'.leases = .releasing →
      w.leases.step (a p) = some w'.leases →
      w'.leases.calls id = some (p.replica, .released p.agent)) : ProcsOk w' := by
  obtain ⟨p, hat, hphase, hf⟩ := proceed_spec hs
  obtain ⟨l, hstep, rfl⟩ := Option.map_eq_some_iff.mp hf
  refine .change id (fun i hne => Function.update_of_ne hne _ _) ?_ ?_
  · intro i q hne hi
    have hok := h i q hi
    refine ⟨?_, hok.slot, ?_⟩
    · intro hlive
      have hliveOn : LiveOn w q.replica q.agent := ⟨i, q, hi, rfl, rfl, hlive⟩
      exact owns_step hstep (hok.owner hlive) (hdel p hat hphase _ _ hliveOn)
        (htake p hat hphase _ _ hliveOn)
    · intro hrel
      have hframe : l.calls i = w.leases.calls i := by
        apply calls_frame hstep
        rw [hcall p]
        exact fun he => hne (Option.some.inj he).symm
      exact hframe.trans (hok.outstanding hrel)
  · intro q hq
    simp only [World.setProc, Function.update_self, Option.some.injEq] at hq
    subst hq
    exact .of_idle (htarget l) fun hrel => hout p hat hrel hstep

/-- A slot is reserved for an agent none of whose tasks is live. -/
theorem ProcsOk.reserve (h : ProcsOk w) {id : Nat} {p : Proc} {generation : Nat}
    (hrow : Owns w.leases.table p.replica p.agent)
    (hnone : ∀ i q, w.procs i = some q → q.agent = p.agent → q.phase.isLive = false) :
    ProcsOk ((w.setProc id { p with
        generation := generation, spawned := true, phase := .listing })
      |>.setSlot p.replica p.agent (some ⟨none, generation, id⟩)) := by
  refine .change id (fun i hne => Function.update_of_ne hne _ _) ?_ ?_
  · intro i q hne hi
    have hok := h i q hi
    refine ⟨hok.owner, ?_, hok.outstanding⟩
    intro hlive hs
    obtain ⟨t, ht, htask⟩ := hok.slot hlive hs
    refine ⟨t, ?_, htask⟩
    have hagent : q.agent ≠ p.agent := by
      intro he
      rw [hnone i q hi he] at hlive
      cases hlive
    rw [← ht]
    simp only [World.setSlot, World.setProc]
    by_cases hreplica : q.replica = p.replica
    · rw [hreplica]
      simp [hagent]
    · simp [hreplica]
  · intro q hq
    simp only [World.setSlot, World.setProc, Function.update_self, Option.some.injEq] at hq
    subst hq
    refine ⟨fun _ => hrow, fun _ _ => ⟨⟨none, generation, id⟩, ?_, rfl⟩, by simp⟩
    simp [World.setSlot]

theorem ProcsOk.unspawned (h : ProcsOk w) {id : Nat} {p : Proc} (hat : w.procs id = some p) :
    ProcsOk (w.setProc id { p with spawned := false }) :=
  h.setProc ⟨(h id p hat).owner, (h id p hat).slot, (h id p hat).outstanding⟩

/-- The handle goes into the slot, which stays the same task's. -/
theorem ProcsOk.recordAbort (h : ProcsOk w) {id : Nat} {p : Proc} {t : AttachTask}
    (hat : w.procs id = some p) (hheld : w.attached p.replica p.agent = some t) :
    ProcsOk ((w.setProc id { p with spawned := false }).setSlot p.replica p.agent
      (some { t with abort := some id })) := by
  apply (h.unspawned hat).setSlot
  intro i q hi hlive hstopped hreplica hagent
  obtain ⟨t', ht', htask⟩ := (h.unspawned hat i q hi).slot hlive hstopped
  rw [hreplica, hagent] at ht'
  cases hheld.symm.trans ht'
  exact ⟨_, rfl, htask⟩

theorem ProcsOk.restart (h : ProcsOk w) (me : ReplicaId) : ProcsOk (w.restart me) := by
  intro i p hi
  obtain ⟨q, hq, he⟩ := Option.map_eq_some_iff.mp hi
  split at he
  · subst he
    exact .of_idle rfl (by simp)
  · rename_i hne
    subst he
    have hok := h i q hq
    refine ⟨hok.owner, ?_, ?_⟩
    · intro hlive hs
      obtain ⟨t, ht, htask⟩ := hok.slot hlive hs
      exact ⟨t, by simp [World.restart, hne, ht], htask⟩
    · intro hrel
      simp [World.restart, hok.outstanding hrel, hne]

end Procs

section Step

variable {w w' : World}

/-- Under the leases, a task is live beside a reservation only if it was
stopped and has not ended. -/
theorem Leased.sole (h : Leased w) {a : Action} (hok : Sound w a) : Sole w a := by
  cases a with
  | reserve id =>
    intro p hat hphase hfree i q hi hagent
    by_contra hidle
    have hlive : q.phase.isLive = true := by simpa using hidle
    obtain ⟨hrow, hstopped⟩ := hok p hat hphase hfree
    have howner := (h.procs i q hi).owner hlive
    rw [hagent] at howner
    have hreplica := howner.unique hrow
    cases hs : q.stopped with
    | true => exact hidle (hstopped i q hi hreplica hagent hs)
    | false =>
      obtain ⟨t, ht, _⟩ := (h.procs i q hi).slot hlive hs
      rw [hreplica, hagent, hfree] at ht
      cases ht
  | _ => trivial

/-- A live task ends, whatever has become of the marks and the pods. -/
theorem Leased.cleanupAttach (h : Leased w) {id : Nat} {p : Proc} (hat : w.procs id = some p)
    (hlive : p.phase.isLive = true) (terminal : ReplicaId → List String)
    (pods : String → String → Pod) :
    ProcsOk (World.cleanupAttach { w with terminal := terminal, pods := pods } id p) := by
  apply ProcsOk.cleanupAttach (h.procs.memo w.generation terminal pods)
  intro i q hi hq hagent
  exact h.writer i id q p hi hat hq hlive hagent

theorem Leased.lease (h : Leased w) {a : Leases.Action} {l : Leases.World}
    (hadmitted : w.admits a = true) (hmoved : w.leases.step a = some l) :
    ProcsOk { w with leases := l } := by
  intro i p hi
  have hproc := h.procs i p hi
  refine ⟨?_, hproc.slot, ?_⟩
  · intro hlive
    apply owns_step hmoved (hproc.owner hlive)
    · rintro call rfl
      cases hadmitted
    · rintro call other rfl
      cases hadmitted
  · intro hrel
    apply released_frame hmoved (hproc.outstanding hrel)
    rintro ok rfl
    cases hadmitted

/-- Every sound step keeps what the leases promise. -/
theorem Leased.procs_step (h : Leased w) {a : Action} (hok : Sound w a)
    (hs : w.step a = some w') : ProcsOk w' := by
  cases step_turn hs with
  | lease a l admitted moved => exact h.lease admitted moved
  | spared => exact h.procs
  | dial | cancel => exact h.procs.setProc (.of_idle rfl (by simp))
  | dedup id p slot phase =>
    refine h.procs.setProc (.of_idle ?_ ?_)
    · simp only
      split <;> rfl
    · simp only
      split <;> simp
  | tryAcquire id ok w' taken =>
    refine h.procs.statement taken (fun l => by split <;> rfl) (fun _ => rfl) (by simp) ?_ ?_
    · intro p hat hphase me agent hlive call other ha htake
      cases ha
      exact hok p hat hphase me htake hlive
    · intro p hat hrel
      split at hrel <;> cases hrel
  | recordHeld id w' taken =>
    exact h.procs.statement taken (fun _ => rfl) (fun _ => rfl) (by simp) (by simp) (by simp)
  | occupied id p t slot phase held =>
    exact (h.procs.memo _ w.terminal w.pods).setProc (.of_idle rfl (by simp))
  | reserve id p slot phase free =>
    apply (h.procs.memo _ w.terminal w.pods).reserve
    · exact (hok p slot phase free).1
    · exact h.sole hok p slot phase free
  | recordAbort id p t slot spawned held same => exact h.procs.recordAbort slot held
  | superseded id p slot spawned other => exact h.procs.unspawned slot
  | adopt id p attachId slot phase found =>
    exact h.procs.setProc ((h.procs id p slot).goOn (by rw [phase]; rfl) (by simp))
  | vacant id p slot phase found =>
    exact h.procs.setProc ((h.procs id p slot).goOn (by rw [phase]; rfl) (by simp))
  | mark id p slot phase found =>
    exact h.cleanupAttach slot (by rw [phase]; rfl) _ w.pods
  | unlisted id ok p slot phase found =>
    exact h.cleanupAttach slot (by rw [phase]; rfl) w.terminal w.pods
  | spawn id agentId p slot phase =>
    apply (h.procs.memo w.generation w.terminal _).setProc
    exact ((h.procs id p slot).goOn (by rw [phase]; rfl) (by simp)).congr rfl rfl
  | unanswered id agentId p slot phase =>
    exact h.cleanupAttach slot (by rw [phase]; rfl) w.terminal _
  | unsent id agentId replied p slot phase =>
    exact h.cleanupAttach slot (by rw [phase]; rfl) w.terminal w.pods
  | finish id p attachId slot phase =>
    exact h.cleanupAttach slot (by rw [phase]; rfl) w.terminal w.pods
  | stop id me agent slot =>
    exact (h.procs.takeSlot me agent).setProc (.of_idle rfl (by simp))
  | forgetTerminal id p slot phase =>
    have hdone : ProcsOk (w.setProc id { p with phase := .detached }) :=
      h.procs.setProc (.of_idle rfl (by simp))
    exact hdone.memo w.generation _ w.pods
  | forgetHeld id w' taken =>
    apply h.procs.statement taken (fun _ => rfl) (fun _ => rfl) (by simp) (by simp)
    exact fun p _ _ hstep => forgetHeld_calls hstep
  | release id ok w' taken =>
    refine h.procs.statement taken (fun _ => rfl) (fun _ => rfl) ?_ (by simp) (by simp)
    intro p hat hphase me agent hlive call ha hcall
    cases ha
    rw [(h.procs id p hat).outstanding hphase] at hcall
    cases hcall
    exact hok p hat hphase hlive
  | forgetGone me agent => exact h.procs.memo w.generation _ w.pods
  | status agent addr place status => exact h.procs.memo w.generation w.terminal _
  | replacePod agent addr => exact h.procs.memo w.generation w.terminal _
  | restart me => exact h.procs.restart me

theorem Leased.step (h : Leased w) {a : Action} (hok : Sound w a) (hs : w.step a = some w') :
    Leased w' :=
  ⟨h.toInv.effect (h.sole hok) (step_effect hs), h.procs_step hok hs⟩

theorem Leased.start (now : Int) (table : Leases.Table) (ttl : ReplicaId → Int)
    (registry : String → String → List AgentRecord) :
    Leased (World.start now table ttl registry) := by
  refine ⟨.start now table ttl registry, ?_⟩
  intro i p hi
  cases hi

end Step

/-- A run has one live attach task an agent and one `Spawn` a pod throughout
exactly when no slot is reserved beside a live task. The leases see to that as
long as none is deleted or taken over from under a live task, and a slot is
reserved only by the lease's owner once its stopped tasks have ended. -/
theorem single_session_iff (now : Int) (table : Leases.Table) (ttl : ReplicaId → Int)
    (registry : String → String → List AgentRecord) (as : List Action) (w : World)
    (h : Machine.run World.step (World.start now table ttl registry) as = some w) :
    (Machine.Always World.step SingleSession (World.start now table ttl registry) as ↔
      Machine.Steps World.step Sole (World.start now table ttl registry) as) ∧
    (Machine.Steps World.step Sound (World.start now table ttl registry) as →
      Machine.Steps World.step Sole (World.start now table ttl registry) as) := by
  constructor
  · apply Machine.always_iff_steps (P := SessionTasks.Inv) (fun _ => SessionTasks.Inv.single)
        ?_ ?_ (.start now table ttl registry) h
    · intro s a s' hi hok hs
      exact hi.effect hok (step_effect hs)
    · intro s a s' _ hbad hs
      exact not_single_of_reserve hbad hs
  · apply Machine.steps_of_steps (P := Leased) ?_ ?_ (.start now table ttl registry)
    · intro s a hl hok
      exact hl.sole hok
    · intro s a s' hl hok hs
      exact hl.step hok hs

def emptyPods : World :=
  World.start 0 (fun _ => none) (fun _ => 30) fun _ _ => []

def attachOn (id : Nat) (me : ReplicaId) : List Action :=
  [.attach id me "x" (.tcp "x:7070") true, .dedup id, .tryAcquire id true, .recordHeld id,
    .reserve id]

theorem attach_sound : Machine.Steps World.step Sound emptyPods
    (attachOn 0 "a" ++ [.recordAbort 0, .list 0 true, .spawn 0 "agent001" true true]) := by
  refine Machine.steps_cons trivial rfl (Machine.steps_cons trivial rfl ?_)
  refine Machine.steps_cons ?_ rfl (Machine.steps_cons trivial rfl ?_)
  · intro p hp _ owner htake
    obtain ⟨row, hrow, _⟩ := htake
    cases hrow
  · refine Machine.steps_cons ?_ rfl (Machine.steps_cons trivial rfl ?_)
    · intro p hp _ _
      cases hp
      refine ⟨⟨_, rfl, rfl⟩, ?_⟩
      intro i q hq _ _ hstopped
      cases i with
      | zero =>
        cases hq
        cases hstopped
      | succ i => cases hq
    · exact Machine.steps_cons trivial rfl (Machine.steps_cons trivial rfl trivial)

theorem attach_single_session : ∃ w, Machine.run World.step emptyPods
      (attachOn 0 "a" ++ [.recordAbort 0, .list 0 true, .spawn 0 "agent001" true true]) = some w ∧
    Machine.Always World.step SingleSession emptyPods
      (attachOn 0 "a" ++ [.recordAbort 0, .list 0 true, .spawn 0 "agent001" true true]) := by
  have hexact := single_session_iff 0 (fun _ => none) (fun _ => 30) (fun _ _ => [])
    (attachOn 0 "a" ++ [.recordAbort 0, .list 0 true, .spawn 0 "agent001" true true]) _ rfl
  exact ⟨_, rfl, hexact.1.mpr (hexact.2 attach_sound)⟩

/-- `stop` finds the slot before the abort handle is recorded in it, so the
task lives on; a later attach starts another, and both find the pod empty. -/
def stoppedUnrecorded : List Action :=
  attachOn 0 "a" ++ [.stop 1 "a" "x", .recordAbort 0, .forgetTerminal 1, .forgetHeld 1,
    .release 1 true] ++ attachOn 2 "a" ++ [.list 0 true, .list 2 true,
    .spawn 0 "agent001" true true, .spawn 2 "agent002" true true]

theorem stopped_task_spawns_too :
    ¬∀ (now : Int) (table : Leases.Table) (ttl : ReplicaId → Int)
      (registry : String → String → List AgentRecord) (as : List Action) (w : World),
      Machine.run World.step (World.start now table ttl registry) as = some w →
      Machine.Always World.step SingleSession (World.start now table ttl registry) as := by
  intro h
  have hall := h 0 (fun _ => none) (fun _ => 30) (fun _ _ => []) stoppedUnrecorded _ rfl
  have hend := Machine.always_end hall rfl
  have htwo : ¬2 ≤ 1 := by decide
  exact htwo (hend.spawn "x" "x:7070").1

end Prospero.Proofs.SessionPlane
