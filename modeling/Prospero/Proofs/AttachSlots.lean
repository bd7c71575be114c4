import Prospero.Proofs.SessionTasks

namespace Prospero.Proofs.AttachSlots
open Prospero.SessionPlane
open Prospero.Proofs.SessionTasks (step_turn proceed_spec procs_cases cleanupAttach_procs)

/-- The slot is reserved for this task, which has neither ended nor been stopped, and has no
other task's abort handle. -/
structure Holds (w : World) (me : ReplicaId) (agent : String) (t : AttachTask) (p : Proc) :
    Prop where
  task : w.procs t.task = some p
  replica : p.replica = me
  agent : p.agent = agent
  generation : p.generation = t.generation
  live : p.phase.isLive = true
  kept : p.stopped = false
  handle : ∀ j, t.abort = some j → j = t.task

def SlotsOk (w : World) : Prop :=
  ∀ me agent t, w.attached me agent = some t → ∃ p, Holds w me agent t p

/-- The generation of a process is in use while it is live or its handle is still to be
recorded. -/
def Issued (p : Proc) : Prop := p.phase.isLive = true ∨ p.spawned = true

/-- The call has yet to reserve a slot. -/
def Waiting : Phase → Prop
  | .dedup | .checked | .acquired | .owned => True
  | _ => False

structure Inv (w : World) : Prop where
  slots : SlotsOk w
  bound : ∀ i p, w.procs i = some p → Issued p → p.generation < w.generation p.replica
  apart : ∀ i j p q, w.procs i = some p → w.procs j = some q → Issued p → Issued q →
    p.replica = q.replica → p.generation = q.generation → i = j
  aborted : ∀ i p, w.procs i = some p → p.aborting = true → p.stopped = true
  waiting : ∀ i p, w.procs i = some p → Waiting p.phase → p.stopped = false

section Keep

variable {w w' : World} {id : Nat} {p q : Proc}

/-- What a process keeps that goes on, is stopped or ends. -/
structure Continues (p q : Proc) : Prop where
  replica : q.replica = p.replica
  agent : q.agent = p.agent
  generation : q.generation = p.generation
  issued : Issued q → Issued p
  aborted : (p.aborting = true → p.stopped = true) → q.aborting = true → q.stopped = true
  waiting : (Waiting p.phase → p.stopped = false) → Waiting q.phase → q.stopped = false

/-- One process moves on, and no slot is left to it if it is stopped or has ended. -/
theorem Inv.set (h : Inv w) (hat : w.procs id = some p)
    (hprocs : w'.procs = Function.update w.procs id (some q)) (hpq : Continues p q)
    (hgeneration : ∀ r, w.generation r ≤ w'.generation r)
    (hslots : ∀ me agent t, w'.attached me agent = some t →
      w.attached me agent = some t ∧
        (t.task = id → q.phase.isLive = true ∧ q.stopped = p.stopped)) : Inv w' := by
  have hissued : ∀ i r, w'.procs i = some r → Issued r →
      ∃ s, w.procs i = some s ∧ Issued s ∧ s.replica = r.replica ∧ s.generation = r.generation := by
    intro i r hi hr
    rcases procs_cases hprocs hi with ⟨rfl, rfl⟩ | ⟨_, hi⟩
    · exact ⟨p, hat, hpq.issued hr, hpq.replica.symm, hpq.generation.symm⟩
    · exact ⟨r, hi, hr, rfl, rfl⟩
  refine ⟨?_, ?_, ?_, ?_, ?_⟩
  · intro me agent t ht
    obtain ⟨hold, hkept⟩ := hslots me agent t ht
    obtain ⟨s, hs⟩ := h.slots me agent t hold
    by_cases hid : t.task = id
    · have hsp : s = p := Option.some.inj (hs.task.symm.trans (hid ▸ hat))
      subst hsp
      refine ⟨q, ?_, hpq.replica.trans hs.replica, hpq.agent.trans hs.agent,
        hpq.generation.trans hs.generation, (hkept hid).1, (hkept hid).2.trans hs.kept, hs.handle⟩
      rw [hprocs, hid, Function.update_self]
    · refine ⟨s, ?_, hs.replica, hs.agent, hs.generation, hs.live, hs.kept, hs.handle⟩
      rw [hprocs, Function.update_of_ne hid, hs.task]
  · intro i r hi hr
    obtain ⟨s, hs, hsi, hreplica, hgen⟩ := hissued i r hi hr
    have hlt := h.bound i s hs hsi
    have hle := hgeneration r.replica
    rw [hreplica, hgen] at hlt
    exact lt_of_lt_of_le hlt hle
  · intro i j r s hi hj hr hs hreplica hgen
    obtain ⟨r', hr', hri, hrr, hrg⟩ := hissued i r hi hr
    obtain ⟨s', hs', hsi, hsr, hsg⟩ := hissued j s hj hs
    exact h.apart i j r' s' hr' hs' hri hsi (hrr.trans (hreplica.trans hsr.symm))
      (hrg.trans (hgen.trans hsg.symm))
  · intro i r hi hr
    rcases procs_cases hprocs hi with ⟨rfl, rfl⟩ | ⟨_, hi⟩
    · exact hpq.aborted (h.aborted i p hat) hr
    · exact h.aborted i r hi hr
  · intro i r hi hr
    rcases procs_cases hprocs hi with ⟨rfl, rfl⟩ | ⟨_, hi⟩
    · exact hpq.waiting (h.waiting i p hat) hr
    · exact h.waiting i r hi hr

/-- No slot is reserved for a process that is not live. -/
theorem Inv.not_task (h : Inv w) (hat : w.procs id = some p) (hidle : p.phase.isLive = false)
    {me : ReplicaId} {agent : String} {t : AttachTask} (ht : w.attached me agent = some t) :
    t.task ≠ id := by
  intro hid
  obtain ⟨s, hs⟩ := h.slots me agent t ht
  have hsp : s = p := Option.some.inj (hs.task.symm.trans (hid ▸ hat))
  rw [hsp] at hs
  exact absurd (hs.live.symm.trans hidle) (by decide)

/-- A process without a slot goes from one phase to another. -/
theorem Inv.idle (h : Inv w) (hat : w.procs id = some p) (hidle : p.phase.isLive = false)
    (phase : Phase) (hphase : phase.isLive = false) (hwaiting : Waiting phase → Waiting p.phase)
    (hprocs : w'.procs = Function.update w.procs id (some { p with phase := phase }))
    (hgeneration : ∀ r, w.generation r ≤ w'.generation r) (hattached : w'.attached = w.attached) :
    Inv w' := by
  apply h.set hat hprocs ⟨rfl, rfl, rfl, ?_, fun hp => hp, fun hp hw => hp (hwaiting hw)⟩
    hgeneration
  · intro me agent t ht
    rw [hattached] at ht
    exact ⟨ht, fun hid => absurd hid (h.not_task hat hidle ht)⟩
  · rintro (hlive | hspawned)
    · exact absurd (hlive.symm.trans hphase) (by decide)
    · exact Or.inr hspawned

theorem not_waiting {phase : Phase} (h : phase.isLive = true) : ¬Waiting phase := by
  intro hw
  cases phase <;> first | exact hw | cases h

/-- A live task goes on. -/
theorem Inv.goOn (h : Inv w) (hat : w.procs id = some p) (hlive : p.phase.isLive = true)
    (phase : Phase) (hphase : phase.isLive = true)
    (hprocs : w'.procs = Function.update w.procs id (some { p with phase := phase }))
    (hgeneration : w'.generation = w.generation) (hattached : w'.attached = w.attached) :
    Inv w' := by
  apply h.set hat hprocs ⟨rfl, rfl, rfl, fun _ => Or.inl hlive, fun hp => hp,
    fun _ hw => absurd hw (not_waiting hphase)⟩
  · intro r
    rw [hgeneration]
  · intro me agent t ht
    rw [hattached] at ht
    exact ⟨ht, fun _ => ⟨hphase, rfl⟩⟩

/-- Of two reservations with one generation on a replica the tasks are the same. -/
theorem Inv.task_eq (h : Inv w) (hat : w.procs id = some p) (hissued : Issued p) {agent : String}
    {t : AttachTask} (ht : w.attached p.replica agent = some t)
    (hgen : t.generation = p.generation) : t.task = id := by
  obtain ⟨s, hs⟩ := h.slots p.replica agent t ht
  exact h.apart t.task id s p hs.task hat (Or.inl hs.live) hissued hs.replica
    (hs.generation.trans hgen)

theorem setSlot_attached (w : World) (me : ReplicaId) (agent : String) (slot : Option AttachTask)
    (me' : ReplicaId) (agent' : String) : (w.setSlot me agent slot).attached me' agent' =
      if me' = me ∧ agent' = agent then slot else w.attached me' agent' := by
  simp only [World.setSlot, Function.update_apply]
  by_cases hme : me' = me
  · subst hme
    simp [Function.update_apply]
  · simp [hme]

theorem setSlot_cases {me me' : ReplicaId} {agent agent' : String} {slot : Option AttachTask}
    {t : AttachTask} (ht : (w.setSlot me agent slot).attached me' agent' = some t) :
    (me' = me ∧ agent' = agent ∧ slot = some t) ∨
      (¬(me' = me ∧ agent' = agent) ∧ w.attached me' agent' = some t) := by
  rw [setSlot_attached] at ht
  split at ht
  · rename_i hslot
    exact Or.inl ⟨hslot.1, hslot.2, ht⟩
  · rename_i hslot
    exact Or.inr ⟨hslot, ht⟩

/-- `cleanup_attach` frees the slot of the generation, if it is still there. -/
theorem cleanupAttach_attached (w : World) (id : Nat) (p : Proc) {me : ReplicaId} {agent : String}
    {t : AttachTask} (ht : (w.cleanupAttach id p).attached me agent = some t) :
    w.attached me agent = some t ∧
      ¬(me = p.replica ∧ agent = p.agent ∧ t.generation = p.generation) := by
  unfold World.cleanupAttach at ht
  split at ht
  · rcases setSlot_cases ht with ⟨-, -, hnone⟩ | ⟨hother, hold⟩
    · cases hnone
    · exact ⟨hold, fun hall => hother ⟨hall.1, hall.2.1⟩⟩
  · rename_i hgen
    refine ⟨ht, ?_⟩
    rintro ⟨rfl, rfl, hsame⟩
    have hslot : w.attached p.replica p.agent = some t := ht
    rw [hslot, Option.map_some, hsame] at hgen
    exact hgen rfl

theorem cleanupAttach_generation (w : World) (id : Nat) (p : Proc) :
    (w.cleanupAttach id p).generation = w.generation := by
  unfold World.cleanupAttach
  split <;> rfl

theorem Inv.cleanup (h : Inv w) (hat : w.procs id = some p) (hlive : p.phase.isLive = true) :
    Inv (w.cleanupAttach id p) := by
  apply h.set hat (cleanupAttach_procs w id p) ⟨rfl, rfl, rfl, fun _ => Or.inl hlive,
    fun hp => hp, fun _ hw => hw.elim⟩
  · intro r
    rw [cleanupAttach_generation]
  · intro me agent t ht
    obtain ⟨hold, hother⟩ := cleanupAttach_attached w id p ht
    refine ⟨hold, ?_⟩
    intro hid
    obtain ⟨s, hs⟩ := h.slots me agent t hold
    have hsp : s = p := Option.some.inj (hs.task.symm.trans (hid ▸ hat))
    rw [hsp] at hs
    exact absurd ⟨hs.replica.symm, hs.agent.symm, hs.generation.symm⟩ hother

/-- The terminal marks and the pods bear on nothing here. -/
theorem Inv.congr (h : Inv w) (hprocs : w'.procs = w.procs) (hattached : w'.attached = w.attached)
    (hgeneration : w'.generation = w.generation) : Inv w' := by
  refine ⟨?_, ?_, ?_, ?_, ?_⟩
  · intro me agent t ht
    rw [hattached] at ht
    obtain ⟨p, hp⟩ := h.slots me agent t ht
    exact ⟨p, hprocs ▸ hp.task, hp.replica, hp.agent, hp.generation, hp.live, hp.kept, hp.handle⟩
  · rw [hprocs, hgeneration]
    exact h.bound
  · rw [hprocs]
    exact h.apart
  · rw [hprocs]
    exact h.aborted
  · rw [hprocs]
    exact h.waiting

/-- A call begins. -/
theorem Inv.fresh (h : Inv w) (hat : w.procs id = none)
    (hprocs : w'.procs = Function.update w.procs id (some q)) (hidle : ¬Issued q)
    (hcalm : q.aborting = false ∧ q.stopped = false) (hattached : w'.attached = w.attached)
    (hgeneration : w'.generation = w.generation) : Inv w' := by
  have hother : ∀ i r, w'.procs i = some r → Issued r → w.procs i = some r := by
    intro i r hi hr
    rcases procs_cases hprocs hi with ⟨rfl, rfl⟩ | ⟨_, hi⟩
    · exact absurd hr hidle
    · exact hi
  refine ⟨?_, ?_, ?_, ?_, ?_⟩
  · intro me agent t ht
    rw [hattached] at ht
    obtain ⟨s, hs⟩ := h.slots me agent t ht
    refine ⟨s, ?_, hs.replica, hs.agent, hs.generation, hs.live, hs.kept, hs.handle⟩
    have hid : t.task ≠ id := by
      intro hid
      rw [← hid, hs.task] at hat
      cases hat
    rw [hprocs, Function.update_of_ne hid, hs.task]
  · intro i r hi hr
    rw [hgeneration]
    exact h.bound i r (hother i r hi hr) hr
  · intro i j r s hi hj hr hs
    exact h.apart i j r s (hother i r hi hr) (hother j s hj hs) hr hs
  · intro i r hi hr
    rcases procs_cases hprocs hi with ⟨rfl, rfl⟩ | ⟨_, hi⟩
    · exact absurd (hr.symm.trans hcalm.1) (by decide)
    · exact h.aborted i r hi hr
  · intro i r hi hr
    rcases procs_cases hprocs hi with ⟨rfl, rfl⟩ | ⟨_, hi⟩
    · exact hcalm.2
    · exact h.waiting i r hi hr

theorem bump_le (w : World) (me r : ReplicaId) :
    w.generation r ≤ Function.update w.generation me (w.generation me + 1) r := by
  rw [Function.update_apply]
  split
  · rename_i hr
    rw [hr]
    exact Nat.le_succ _
  · exact Nat.le_refl _

/-- A free slot is reserved with a generation that nobody has. -/
theorem Inv.reserve (h : Inv w) (hat : w.procs id = some p) (hphase : p.phase = .owned) :
    Inv ((World.setProc { w with
        generation := Function.update w.generation p.replica (w.generation p.replica + 1) } id
      { p with generation := w.generation p.replica, spawned := true, phase := .listing }).setSlot
        p.replica p.agent (some ⟨none, w.generation p.replica, id⟩)) := by
  have hkept : p.stopped = false := h.waiting id p hat (by rw [hphase]; trivial)
  have hidle : p.phase.isLive = false := by rw [hphase]; rfl
  have hself : Function.update w.generation p.replica (w.generation p.replica + 1) p.replica =
      w.generation p.replica + 1 := Function.update_self ..
  refine ⟨?_, ?_, ?_, ?_, ?_⟩
  · intro me agent t ht
    rcases setSlot_cases ht with ⟨rfl, rfl, hslot⟩ | ⟨-, hold⟩
    · cases hslot
      exact ⟨_, Function.update_self .., rfl, rfl, rfl, rfl, hkept, nofun⟩
    · obtain ⟨s, hs⟩ := h.slots me agent t hold
      refine ⟨s, ?_, hs.replica, hs.agent, hs.generation, hs.live, hs.kept, hs.handle⟩
      exact (Function.update_of_ne (h.not_task hat hidle hold) ..).trans hs.task
  · intro i r hi hr
    rcases Slots.update_some hi with ⟨rfl, rfl⟩ | ⟨_, hi⟩
    · exact lt_of_lt_of_eq (Nat.lt_succ_self _) hself.symm
    · exact lt_of_lt_of_le (h.bound i r hi hr) (bump_le w p.replica r.replica)
  · intro i j r s hi hj hr hs hreplica hgen
    rcases Slots.update_some hi with ⟨rfl, rfl⟩ | ⟨_, hi'⟩
    · rcases Slots.update_some hj with ⟨rfl, -⟩ | ⟨_, hj'⟩
      · rfl
      · have hlt := h.bound j s hj' hs
        rw [← hreplica, ← hgen] at hlt
        exact absurd hlt (Nat.lt_irrefl _)
    · rcases Slots.update_some hj with ⟨rfl, rfl⟩ | ⟨_, hj'⟩
      · have hlt := h.bound i r hi' hr
        rw [hreplica, hgen] at hlt
        exact absurd hlt (Nat.lt_irrefl _)
      · exact h.apart i j r s hi' hj' hr hs hreplica hgen
  · intro i r hi hr
    rcases Slots.update_some hi with ⟨rfl, rfl⟩ | ⟨_, hi⟩
    · exact h.aborted i p hat hr
    · exact h.aborted i r hi hr
  · intro i r hi hr
    rcases Slots.update_some hi with ⟨rfl, rfl⟩ | ⟨_, hi⟩
    · exact hkept
    · exact h.waiting i r hi hr

/-- The caller of `tokio::spawn` is done with the handle. -/
theorem Inv.unspawned (h : Inv w) (hat : w.procs id = some p) :
    Inv (w.setProc id { p with spawned := false }) := by
  refine h.set hat rfl ⟨rfl, rfl, rfl, ?_, fun hp => hp, fun hp => hp⟩ (fun _ => Nat.le_refl _) ?_
  · rintro (hlive | hspawned)
    · exact Or.inl hlive
    · cases hspawned
  · intro me agent t ht
    refine ⟨ht, fun hid => ⟨?_, rfl⟩⟩
    obtain ⟨s, hs⟩ := h.slots me agent t ht
    have hsp : s = p := Option.some.inj (hs.task.symm.trans (hid ▸ hat))
    exact hsp ▸ hs.live

/-- An aborted task has no slot any more. -/
theorem Inv.cancel (h : Inv w) (hat : w.procs id = some p) (haborting : p.aborting = true) :
    Inv (w.setProc id { p with phase := .gone }) := by
  refine h.set hat rfl ⟨rfl, rfl, rfl, ?_, fun hp => hp, fun _ hw => hw.elim⟩
    (fun _ => Nat.le_refl _) ?_
  · rintro (hlive | hspawned)
    · cases hlive
    · exact Or.inr hspawned
  · intro me agent t ht
    refine ⟨ht, fun hid => ?_⟩
    obtain ⟨s, hs⟩ := h.slots me agent t ht
    have hsp : s = p := Option.some.inj (hs.task.symm.trans (hid ▸ hat))
    have hstopped := h.aborted id p hat haborting
    rw [← hsp, hs.kept] at hstopped
    cases hstopped

/-- The slot gets its own task's handle. -/
theorem Inv.handle (h : Inv w) {t : AttachTask} {me : ReplicaId} {agent : String}
    (ht : w.attached me agent = some t) (hid : t.task = id) :
    Inv (w.setSlot me agent (some { t with abort := some id })) := by
  refine ⟨?_, h.bound, h.apart, h.aborted, h.waiting⟩
  intro me' agent' t' ht'
  rcases setSlot_cases ht' with ⟨rfl, rfl, hslot⟩ | ⟨-, hold⟩
  · cases hslot
    obtain ⟨s, hs⟩ := h.slots _ _ t ht
    refine ⟨s, hs.task, hs.replica, hs.agent, hs.generation, hs.live, hs.kept, ?_⟩
    intro j hj
    cases hj
    exact hid.symm
  · obtain ⟨s, hs⟩ := h.slots me' agent' t' hold
    exact ⟨s, hs.task, hs.replica, hs.agent, hs.generation, hs.live, hs.kept, hs.handle⟩

theorem modifyProc_procs {f : Proc → Proc} (hat : w.procs id = some p) :
    (w.modifyProc id f).procs = Function.update w.procs id (some (f p)) := by
  rw [World.modifyProc, hat]
  rfl

theorem takeSlot_none (hat : w.procs id = none) (me : ReplicaId) (agent : String) :
    (w.takeSlot me agent).procs id = none := by
  have hmodify : ∀ (w : World) (task : Nat) (f : Proc → Proc), w.procs id = none →
      (w.modifyProc task f).procs id = none := by
    intro w task f hnone
    simp only [World.modifyProc, Function.update_apply]
    split
    · rename_i hid
      rw [← hid, hnone, Option.map_none]
    · exact hnone
  unfold World.takeSlot
  split
  · exact hat
  · simp only
    split
    · exact hmodify _ _ _ (hmodify _ _ _ hat)
    · exact hmodify _ _ _ hat

/-- `stop` leaves no slot to the task it stops. -/
theorem Inv.takeSlot (h : Inv w) (me : ReplicaId) (agent : String) :
    Inv (w.takeSlot me agent) := by
  unfold World.takeSlot
  cases ht : w.attached me agent with
  | none => exact h
  | some t =>
    obtain ⟨p, hp⟩ := h.slots me agent t ht
    have hslots : ∀ me' agent' t', (w.setSlot me agent none).attached me' agent' = some t' →
        w.attached me' agent' = some t' ∧ t'.task ≠ t.task := by
      intro me' agent' t' ht'
      rcases setSlot_cases ht' with ⟨-, -, hnone⟩ | ⟨hother, hold⟩
      · cases hnone
      · refine ⟨hold, ?_⟩
        intro htask
        obtain ⟨q, hq⟩ := h.slots me' agent' t' hold
        have hqp : q = p := Option.some.inj (hq.task.symm.trans (htask ▸ hp.task))
        rw [hqp] at hq
        exact hother ⟨hq.replica.symm.trans hp.replica, hq.agent.symm.trans hp.agent⟩
    have hat : (w.setSlot me agent none).procs t.task = some p := hp.task
    have hnot := not_waiting hp.live
    have hstop : Inv ((w.setSlot me agent none).modifyProc t.task
        fun p => { p with stopped := true }) := by
      have hprocs := modifyProc_procs (f := fun p => { p with stopped := true }) hat
      apply h.set hp.task hprocs ⟨rfl, rfl, rfl, fun hq => hq, fun _ _ => rfl,
        fun _ hw => absurd hw hnot⟩ (fun _ => Nat.le_refl _)
      intro me' agent' t' ht'
      obtain ⟨hold, hne⟩ := hslots me' agent' t' ht'
      exact ⟨hold, fun hid => absurd hid hne⟩
    simp only
    split
    · rename_i task habort
      obtain rfl := hp.handle task habort
      have hat' : ((w.setSlot me agent none).modifyProc t.task
          fun p => { p with stopped := true }).procs t.task = some { p with stopped := true } := by
        rw [modifyProc_procs hat, Function.update_self]
      have hprocs := modifyProc_procs (f := fun p => { p with aborting := true }) hat'
      apply hstop.set hat' hprocs ⟨rfl, rfl, rfl, fun hq => hq, fun _ _ => rfl,
        fun _ hw => absurd hw hnot⟩ (fun _ => Nat.le_refl _)
      intro me' agent' t' ht'
      exact ⟨ht', fun hid => absurd hid (hslots me' agent' t' ht').2⟩
    · exact hstop

theorem Inv.restart (h : Inv w) (me : ReplicaId) : Inv (w.restart me) := by
  have hold : ∀ i q, (w.restart me).procs i = some q →
      q = { q with spawned := false, aborting := false, phase := .gone } ∨
        w.procs i = some q ∧ q.replica ≠ me := by
    intro i q hi
    obtain ⟨p, hp, he⟩ := Option.map_eq_some_iff.mp hi
    split at he
    · subst he
      exact Or.inl rfl
    · rename_i hne
      subst he
      exact Or.inr ⟨hp, hne⟩
  have hissued : ∀ i q, (w.restart me).procs i = some q → Issued q →
      w.procs i = some q ∧ q.replica ≠ me := by
    intro i q hi hq
    rcases hold i q hi with hgone | hkept
    · rw [hgone] at hq
      rcases hq with hlive | hspawned
      · cases hlive
      · cases hspawned
    · exact hkept
  refine ⟨?_, ?_, ?_, ?_, ?_⟩
  · intro me' agent t ht
    simp only [World.restart, Function.update_apply] at ht
    split at ht
    · cases ht
    · rename_i hne
      obtain ⟨p, hp⟩ := h.slots me' agent t ht
      refine ⟨p, ?_, hp.replica, hp.agent, hp.generation, hp.live, hp.kept, hp.handle⟩
      have hother : p.replica ≠ me := hp.replica ▸ hne
      simp [World.restart, hp.task, hother]
  · intro i q hi hq
    obtain ⟨hi, hne⟩ := hissued i q hi hq
    have hgen : (w.restart me).generation q.replica = w.generation q.replica :=
      Function.update_of_ne hne ..
    rw [hgen]
    exact h.bound i q hi hq
  · intro i j p q hi hj hp hq
    exact h.apart i j p q (hissued i p hi hp).1 (hissued j q hj hq).1 hp hq
  · intro i q hi hq
    rcases hold i q hi with hgone | hkept
    · rw [hgone] at hq
      cases hq
    · exact h.aborted i q hkept.1 hq
  · intro i q hi hq
    rcases hold i q hi with hgone | hkept
    · rw [hgone] at hq
      exact hq.elim
    · exact h.waiting i q hkept.1 hq

end Keep

section Step

variable {w w' : World}

theorem Inv.statement (h : Inv w) {id : Nat} {source : Phase} {a : Proc → Leases.Action}
    {target : Leases.World → Phase} (hs : w.statement id source a target = some w')
    (hsource : source.isLive = false) (htarget : ∀ l, (target l).isLive = false)
    (hwaiting : ∀ l, Waiting (target l) → Waiting source) : Inv w' := by
  obtain ⟨p, hat, hphase, hf⟩ := proceed_spec hs
  obtain ⟨l, -, rfl⟩ := Option.map_eq_some_iff.mp hf
  exact h.idle hat (hphase ▸ hsource) (target l) (htarget l) (hphase ▸ hwaiting l) rfl
    (fun _ => Nat.le_refl _) rfl

theorem Inv.step (h : Inv w) {a : Action} (hs : w.step a = some w') : Inv w' := by
  cases step_turn hs with
  | lease a l admitted moved => exact h.congr rfl rfl rfl
  | spared id me agent endpoint hasSpec => exact h
  | dial id me agent addr hasSpec slot unmarked =>
    exact h.fresh slot rfl (by simp [Issued, Phase.isLive]) ⟨rfl, rfl⟩ rfl rfl
  | dedup id p slot phase =>
    refine h.idle slot (by rw [phase]; rfl) _ ?_ (fun _ => by rw [phase]; trivial) rfl
      (fun _ => Nat.le_refl _) rfl
    split <;> rfl
  | tryAcquire id ok w' taken =>
    refine h.statement taken rfl ?_ (fun _ _ => trivial)
    intro l
    split <;> rfl
  | recordHeld id w' taken => exact h.statement taken rfl (fun _ => rfl) fun _ _ => trivial
  | occupied id p t slot phase held =>
    exact h.idle slot (by rw [phase]; rfl) .gone rfl nofun rfl (bump_le w p.replica) rfl
  | reserve id p slot phase free => exact h.reserve slot phase
  | recordAbort id p t slot spawned held same =>
    exact (h.unspawned slot).handle held (h.task_eq slot (Or.inr spawned) held same)
  | superseded id p slot spawned other => exact h.unspawned slot
  | adopt id p attachId slot phase found =>
    exact h.goOn slot (by rw [phase]; rfl) (.streaming attachId) rfl rfl rfl rfl
  | mark id p slot phase found =>
    exact Inv.cleanup (h.congr rfl rfl rfl) slot (by rw [phase]; rfl)
  | vacant id p slot phase found =>
    exact h.goOn slot (by rw [phase]; rfl) .spawning rfl rfl rfl rfl
  | unlisted id ok p slot phase found => exact h.cleanup slot (by rw [phase]; rfl)
  | spawn id agentId p slot phase =>
    exact h.goOn slot (by rw [phase]; rfl) (.streaming agentId) rfl rfl rfl rfl
  | unanswered id agentId p slot phase =>
    exact Inv.cleanup (h.congr rfl rfl rfl) slot (by rw [phase]; rfl)
  | unsent id agentId replied p slot phase => exact h.cleanup slot (by rw [phase]; rfl)
  | finish id p attachId slot phase => exact h.cleanup slot (by rw [phase]; rfl)
  | cancel id p slot aborting => exact h.cancel slot aborting
  | stop id me agent slot =>
    exact (h.takeSlot me agent).fresh (takeSlot_none slot me agent) rfl
      (by simp [Issued, Phase.isLive]) ⟨rfl, rfl⟩ rfl rfl
  | forgetTerminal id p slot phase =>
    exact h.idle slot (by rw [phase]; rfl) .detached rfl nofun rfl (fun _ => Nat.le_refl _) rfl
  | forgetHeld id w' taken => exact h.statement taken rfl (fun _ => rfl) fun _ => nofun
  | release id ok w' taken => exact h.statement taken rfl (fun _ => rfl) fun _ => nofun
  | forgetGone me agent => exact h.congr rfl rfl rfl
  | status agent addr place status => exact h.congr rfl rfl rfl
  | replacePod agent addr => exact h.congr rfl rfl rfl
  | restart me => exact h.restart me

theorem Inv.start (now : Int) (table : Leases.Table) (ttl : ReplicaId → Int)
    (registry : String → String → List AgentRecord) : Inv (World.start now table ttl registry) := by
  constructor
  · intro me agent t ht
    cases ht
  · intro i p hi
    cases hi
  · intro i j p q hi
    cases hi
  · intro i p hi
    cases hi
  · intro i p hi
    cases hi

/-- Who may take a reservation off the map: its own task, as it ends, a `stop` of the agent
and the end of the replica's process. -/
def Removes (w : World) (me : ReplicaId) (agent : String) (t : AttachTask) : Action → Prop
  | .list id _ | .spawn id _ _ _ | .finish id =>
    t.task = id ∧ ∃ p, w.procs id = some p ∧ p.generation = t.generation
  | .stop _ me' agent' => me' = me ∧ agent' = agent
  | .restart me' => me' = me
  | _ => False

/-- Any other action leaves the reservation, and only its own task's handle is recorded. -/
def KeepsOthers (w : World) (a : Action) : Prop :=
  ∀ w', w.step a = some w' → ∀ me agent t, w.attached me agent = some t →
    w'.attached me agent = some t ∨
    a = .recordAbort t.task ∧ w'.attached me agent = some { t with abort := some t.task } ∨
    w'.attached me agent = none ∧ Removes w me agent t a

theorem statement_attached {id : Nat} {source : Phase} {a : Proc → Leases.Action}
    {target : Leases.World → Phase} (hs : w.statement id source a target = some w') :
    w'.attached = w.attached := by
  obtain ⟨p, -, -, hf⟩ := proceed_spec hs
  obtain ⟨l, -, rfl⟩ := Option.map_eq_some_iff.mp hf
  rfl

variable {me : ReplicaId} {agent : String} {t : AttachTask}

/-- A task that ends takes no reservation but its own. -/
theorem Inv.cleanup_attached (h : Inv w) {id : Nat} {p : Proc} (hat : w.procs id = some p)
    (hlive : p.phase.isLive = true) (ht : w.attached me agent = some t) :
    (w.cleanupAttach id p).attached me agent = some t ∨
      (w.cleanupAttach id p).attached me agent = none ∧ t.task = id ∧
        ∃ p, w.procs id = some p ∧ p.generation = t.generation := by
  unfold World.cleanupAttach
  split
  · rename_i hgen
    rw [setSlot_attached]
    split
    · rename_i hplace
      obtain ⟨rfl, rfl⟩ := hplace
      have hsame : t.generation = p.generation := by
        have hmap : (w.attached p.replica p.agent).map AttachTask.generation =
            some p.generation := hgen
        rw [ht, Option.map_some] at hmap
        exact Option.some.inj hmap
      exact Or.inr ⟨rfl, h.task_eq hat (Or.inl hlive) ht hsame, p, hat, hsame.symm⟩
    · exact Or.inl ht
  · exact Or.inl ht

theorem takeSlot_attached (w : World) (me' : ReplicaId) (agent' : String) :
    (w.takeSlot me' agent').attached me agent =
      if me = me' ∧ agent = agent' then none else w.attached me agent := by
  unfold World.takeSlot
  cases ht : w.attached me' agent' with
  | none =>
    simp only
    split
    · rename_i hplace
      rw [hplace.1, hplace.2, ht]
    · rfl
  | some t =>
    simp only
    split <;> exact setSlot_attached ..

theorem Inv.keepsOthers (h : Inv w) (a : Action) : KeepsOthers w a := by
  intro w' hs me agent t ht
  cases step_turn hs with
  | lease | spared | dial | dedup | occupied | superseded | adopt | vacant | spawn | cancel
  | forgetTerminal | forgetGone | status | replacePod => exact Or.inl ht
  | tryAcquire id ok w' taken | recordHeld id w' taken | forgetHeld id w' taken
  | release id ok w' taken =>
    rw [statement_attached taken]
    exact Or.inl ht
  | reserve id p slot phase free =>
    rw [setSlot_attached]
    split
    · rename_i hplace
      rw [hplace.1, hplace.2, free] at ht
      cases ht
    · exact Or.inl ht
  | recordAbort id p t' slot spawned held same =>
    rw [setSlot_attached]
    split
    · rename_i hplace
      rw [hplace.1, hplace.2, held] at ht
      cases ht
      have htask := h.task_eq slot (Or.inr spawned) held same
      exact Or.inr (Or.inl ⟨by rw [htask], by rw [htask]⟩)
    · exact Or.inl ht
  | mark id p slot phase found =>
    have hsame : Inv { w with
        terminal := Function.update w.terminal p.replica (p.agent :: w.terminal p.replica) } :=
      h.congr rfl rfl rfl
    exact (hsame.cleanup_attached slot (by rw [phase]; rfl) ht).imp_right Or.inr
  | unanswered id agentId p slot phase =>
    have hsame : Inv (w.setPod p.agent p.addr
        ⟨(w.pods p.agent p.addr).registry ++ [⟨agentId, .spawning⟩],
          (w.pods p.agent p.addr).spawns + 1⟩) := h.congr rfl rfl rfl
    exact (hsame.cleanup_attached slot (by rw [phase]; rfl) ht).imp_right Or.inr
  | unlisted id ok p slot phase found =>
    exact (h.cleanup_attached slot (by rw [phase]; rfl) ht).imp_right Or.inr
  | unsent id agentId replied p slot phase =>
    exact (h.cleanup_attached slot (by rw [phase]; rfl) ht).imp_right Or.inr
  | finish id p attachId slot phase =>
    exact (h.cleanup_attached slot (by rw [phase]; rfl) ht).imp_right Or.inr
  | stop id me' agent' slot =>
    have hslot : (w.takeSlot me' agent').attached me agent = _ := takeSlot_attached w me' agent'
    split at hslot
    · rename_i hplace
      exact Or.inr (Or.inr ⟨hslot, hplace.1.symm, hplace.2.symm⟩)
    · exact Or.inl (hslot.trans ht)
  | restart me' =>
    by_cases hme : me = me'
    · subst hme
      exact Or.inr (Or.inr ⟨by simp [World.restart], rfl⟩)
    · refine Or.inl ?_
      simp [World.restart, hme, ht]

end Step

/-- In every run each reservation is that of a task that has not ended and was not stopped,
with no handle but its own, and a task that ends takes no other reservation with it. -/
theorem stale_exit_harmless (now : Int) (table : Leases.Table) (ttl : ReplicaId → Int)
    (registry : String → String → List AgentRecord) (as : List Action) :
    Machine.Always World.step SlotsOk (World.start now table ttl registry) as ∧
      Machine.Steps World.step KeepsOthers (World.start now table ttl registry) as := by
  have hstart := Inv.start now table ttl registry
  have hkeep : ∀ w a w', Inv w → World.step w a = some w' → Inv w' := fun _ _ _ h hs => h.step hs
  exact ⟨Machine.always_mono (fun _ h => h.slots) (Machine.always_of_invariant hkeep hstart as),
    Machine.steps_of_invariant hkeep (fun _ a h => h.keepsOthers a) hstart as⟩

end Prospero.Proofs.AttachSlots
