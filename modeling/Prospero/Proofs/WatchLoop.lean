import Prospero.Lib.Machine
import Prospero.WatchLoop

namespace Prospero.Proofs.WatchLoop
open Prospero.WatchLoop

variable {π : Type}

/-- The incarnation reaches a terminal status by the change. -/
def finishes (uid : String) (c : StatusChange) : Bool := c.uid = uid && c.toStatus.isTerminal

/-- The row is a terminal transition of the incarnation. -/
def isRecord (uid : String) (e : Entry) : Bool :=
  e.uid = uid &&
    match e.kind with
    | .statusChanged _ toStatus => toStatus.isTerminal
    | _ => false

theorem finishes_iff {uid : String} {c : StatusChange} :
    finishes uid c = true ↔ c.uid = uid ∧ c.toStatus.isTerminal = true := by
  simp [finishes]

def recorded (w : World π) (uid : String) : Nat := w.log.countP (isRecord uid)

/-- One terminal transition an incarnation, and for each whose pod has reported
one in time for a whole poll of the lease's holder, exactly one. -/
structure RecordedOnce (w : World π) : Prop where
  once : ∀ uid, recorded w uid ≤ 1
  due : ∀ uid ∈ w.due, recorded w uid = 1

/-- Some process is about to emit a terminal transition of the incarnation. -/
def AboutToRecord (w : World π) (uid : String) : Prop :=
  ∃ process change rest, (w.loops process).phase = .emitting change rest ∧
    finishes uid change = true

/-- The incarnation is listed under a name that was known with another status than
the terminal one it has now. -/
def Turns (pass : Pass) (uid : String) : Prop :=
  ∃ task ∈ pass.tasks, task.uid = uid ∧
    (overlaid pass.known pass.answers task).status.isTerminal = true ∧
    ∃ prev, pass.known.find? (fun a => a.id = task.name) = some prev ∧
      prev.status ≠ (overlaid pass.known pass.answers task).status

theorem changeOf_eq {known : List Agent} {answers : List (String × AgentStatus)}
    {task : CalibanTask} {c : StatusChange} :
    changeOf known answers task = some c ↔
      ∃ prev, known.find? (fun a => a.id = task.name) = some prev ∧
        prev.status ≠ (overlaid known answers task).status ∧
        (⟨task.name, (overlaid known answers task).workspace, prev.status,
          (overlaid known answers task).status, task.uid⟩ : StatusChange) = c := by
  unfold changeOf
  cases known.find? (fun a => a.id = task.name) with
  | none => simp
  | some prev => simp

/-- An incarnation finishes by a change of the pass exactly if it turns in it. -/
theorem finishes_iff_turns {pass : Pass} {uid : String} :
    (∃ c ∈ pass.changes, finishes uid c = true) ↔ Turns pass uid := by
  constructor
  · rintro ⟨c, hc, hf⟩
    obtain ⟨task, htask, hchange⟩ := List.mem_filterMap.mp hc
    obtain ⟨prev, hprev, hne, rfl⟩ := changeOf_eq.mp hchange
    obtain ⟨huid, hterm⟩ := finishes_iff.mp hf
    exact ⟨task, htask, huid, hterm, prev, hprev, hne⟩
  · rintro ⟨task, htask, huid, hterm, prev, hprev, hne⟩
    exact ⟨_, List.mem_filterMap.mpr ⟨task, htask, changeOf_eq.mpr ⟨prev, hprev, hne, rfl⟩⟩,
      finishes_iff.mpr ⟨huid, hterm⟩⟩

/-- When a poll acquires the lease, every incarnation it has seen finish is on
record or was known with another status. What the check by name says of a terminal
change is true of the incarnation, nobody else is about to record it, and its
append succeeds. -/
def Tracks [DecidableEq π] (w : World π) : Action π → Prop
  | .acquire process => ∀ pass, (w.loops process).phase = .observed pass →
      (w.observer = none ∨ w.observer = some process) → ∀ uid ∈ (w.loops process).seen,
      0 < recorded w uid ∨ Turns pass uid
  | .check process readOk => ∀ change rest,
      (w.loops process).phase = .recording (change :: rest) → change.toStatus.isTerminal →
      (alreadyRecordedTerminal w.log (w.loops process).terminalRecorded change.id readOk = true ↔
        0 < recorded w change.uid) ∧ ¬AboutToRecord w change.uid
  | .emit process stored => ∀ change rest, (w.loops process).phase = .emitting change rest →
      change.toStatus.isTerminal → stored = true
  | _ => True

/-- What a poll still has to do about its changes. -/
def leftOf : Phase → Option (List StatusChange)
  | .recording changes => some changes
  | .emitting change rest => some (change :: rest)
  | _ => none

section Step

variable [DecidableEq π]

/-- What an action does to the one loop that takes it, and to the log. -/
inductive Effect (w w' : World π) : Action π → Prop
  | around {a : Action π} (loops : w'.loops = w.loops) (log : w'.log = w.log)
      (due : w'.due = w.due) : Effect w w' a
  | turn {a : Action π} (process : π) (x : Loop) (idle : leftOf x.phase = none)
      (loops : w'.loops = Function.update w.loops process x) (log : w'.log = w.log)
      (due : w'.due = w.due) : Effect w w' a
  | acquired (process : π) (pass : Pass) (x : Loop)
      (slot : (w.loops process).phase = .observed pass)
      (own : w.observer = none ∨ w.observer = some process)
      (loops : w'.loops = Function.update w.loops process x)
      (phase : x.phase = .recording pass.changes) (seen : x.seen = (w.loops process).seen)
      (log : w'.log = w.log) (due : w'.due = w.due) : Effect w w' (.acquire process)
  | checked (process : π) (readOk : Bool) (change : StatusChange) (rest : List StatusChange)
      (x : Loop) (slot : (w.loops process).phase = .recording (change :: rest))
      (loops : w'.loops = Function.update w.loops process x)
      (phase : x.phase = if change.toStatus.isTerminal = true ∧
        alreadyRecordedTerminal w.log (w.loops process).terminalRecorded change.id readOk = true
        then .recording rest else .emitting change rest)
      (seen : x.seen = (w.loops process).seen)
      (log : w'.log = w.log) (due : w'.due = w.due) : Effect w w' (.check process readOk)
  | emitted (process : π) (stored : Bool) (change : StatusChange) (rest : List StatusChange)
      (x : Loop) (e : Entry) (slot : (w.loops process).phase = .emitting change rest)
      (loops : w'.loops = Function.update w.loops process x)
      (phase : x.phase = .recording rest) (seen : x.seen = (w.loops process).seen)
      (record : ∀ uid, isRecord uid e = finishes uid change)
      (log : w'.log = if stored then w.log ++ [e] else w.log) (due : w'.due = w.due) :
      Effect w w' (.emit process stored)
  | slept (process : π) (x : Loop) (slot : (w.loops process).phase = .recording [])
      (idle : leftOf x.phase = none)
      (loops : w'.loops = Function.update w.loops process x) (log : w'.log = w.log)
      (due : w'.due = w.due ++ (w.loops process).seen) : Effect w w' (.sleep process)

variable {w w' : World π} {a : Action π}

theorem dial_effect {process : π} {tasks : List CalibanTask}
    {answers : List (String × AgentStatus)} {name : String}
    (h : w.dial process (w.loops process) tasks answers name = some w') :
    Effect w w' (.dial process name) := by
  obtain ⟨task, -, h⟩ := Option.bind_eq_some_iff.mp h
  split at h
  · cases h
  · obtain ⟨addr, -, h⟩ := Option.bind_eq_some_iff.mp h
    obtain ⟨⟨uid, status⟩, -, h⟩ := Option.bind_eq_some_iff.mp h
    cases h
    exact .turn process _ rfl rfl rfl rfl

theorem step_effect (h : w.step a = some w') : Effect w w' a := by
  cases a with
  | create task =>
    simp only [World.step, World.create] at h
    split at h <;> cases h
    exact .around rfl rfl rfl
  | delete name | operator name phase endpoint | pod addr agent | expire =>
    cases h
    exact .around rfl rfl rfl
  | restart process =>
    cases h
    exact .turn process _ rfl rfl rfl rfl
  | list process =>
    simp only [World.step] at h
    split at h <;> cases h
    exact .turn process _ rfl rfl rfl rfl
  | dial process name =>
    simp only [World.step] at h
    split at h
    · exact dial_effect h
    · cases h
  | diff process =>
    simp only [World.step] at h
    split at h <;> cases h
    exact .turn process _ rfl rfl rfl rfl
  | acquire process =>
    simp only [World.step] at h
    split at h <;> cases h
    rename_i pass hphase
    unfold World.acquire
    split
    · exact .acquired process pass _ hphase (Or.inl ‹_›) rfl rfl rfl rfl rfl
    · rename_i owner hown
      by_cases ho : owner = process
      · subst ho
        exact .acquired owner pass _ hphase (Or.inr hown) rfl (if_pos rfl) rfl rfl rfl
      · exact .turn process _ (by simp [ho, leftOf]) rfl rfl rfl
  | check process readOk =>
    simp only [World.step] at h
    split at h <;> cases h
    rename_i change rest hphase
    unfold World.check
    split
    · rename_i hterm
      exact .checked process readOk change rest _ hphase rfl (by simp [hterm]) rfl rfl rfl
    · rename_i hterm
      exact .checked process readOk change rest _ hphase rfl (by simp [hterm]) rfl rfl rfl
  | emit process stored =>
    simp only [World.step] at h
    split at h <;> cases h
    rename_i change rest hphase
    exact .emitted process stored change rest _ _ hphase rfl rfl rfl (fun _ => rfl) rfl rfl
  | sleep process =>
    simp only [World.step] at h
    split at h <;> cases h
    exact .slept process _ ‹_› rfl rfl rfl rfl

end Step

structure Inv (w : World π) : Prop where
  once : ∀ uid, recorded w uid ≤ 1
  due : ∀ uid ∈ w.due, recorded w uid = 1
  unrecorded : ∀ process change rest, (w.loops process).phase = .emitting change rest →
    change.toStatus.isTerminal = true → recorded w change.uid = 0
  alone : ∀ process other change change' rest rest' uid,
    (w.loops process).phase = .emitting change rest →
    (w.loops other).phase = .emitting change' rest' → finishes uid change = true →
    finishes uid change' = true → process = other
  pending : ∀ process changes, leftOf (w.loops process).phase = some changes →
    ∀ uid ∈ (w.loops process).seen,
    0 < recorded w uid ∨ ∃ c ∈ changes, finishes uid c = true

theorem Inv.start [DecidableEq π] : Inv (World.start : World π) := by
  constructor <;> simp [World.start, Loop.new, recorded, leftOf]

theorem Inv.recordedOnce {w : World π} (h : Inv w) : RecordedOnce w := ⟨h.once, h.due⟩

section Keep

variable [DecidableEq π] {w w' : World π} {process : π} {x : Loop}

theorem loop_cases (loops : w'.loops = Function.update w.loops process x) (other : π) :
    (other = process ∧ w'.loops other = x) ∨ (other ≠ process ∧ w'.loops other = w.loops other) := by
  rw [loops]
  by_cases ho : other = process
  · subst ho
    exact Or.inl ⟨rfl, Function.update_self ..⟩
  · exact Or.inr ⟨ho, Function.update_of_ne ho ..⟩

/-- One loop moves on beside the log. What it is about to record is new, and
what it has seen is on record or among what is left to it. -/
theorem Inv.move (h : Inv w) (loops : w'.loops = Function.update w.loops process x)
    (log : w'.log = w.log)
    (hdue : ∀ uid ∈ w'.due, recorded w uid = 1)
    (hemit : ∀ change rest, x.phase = .emitting change rest → change.toStatus.isTerminal = true →
      recorded w change.uid = 0 ∧ ¬AboutToRecord w change.uid)
    (hleft : ∀ changes, leftOf x.phase = some changes → ∀ uid ∈ x.seen,
      0 < recorded w uid ∨ ∃ c ∈ changes, finishes uid c = true) : Inv w' := by
  have hsame : ∀ uid, recorded w' uid = recorded w uid := by
    intro uid
    rw [recorded, log, recorded]
  refine ⟨fun uid => hsame uid ▸ h.once uid, fun uid hu => (hsame uid).trans (hdue uid hu), ?_, ?_, ?_⟩
  · intro other change rest hphase hterm
    rw [hsame]
    rcases loop_cases loops other with ⟨-, heq⟩ | ⟨-, heq⟩
    · rw [heq] at hphase
      exact (hemit change rest hphase hterm).1
    · rw [heq] at hphase
      exact h.unrecorded other change rest hphase hterm
  · intro p q c c' rest rest' uid hp hq hc hc'
    have hfresh : ∀ other d ds, (w.loops other).phase = .emitting d ds → finishes uid d = true →
        ∀ e es, x.phase = .emitting e es → finishes uid e = true → False := by
      intro other d ds hd hfd e es he hfe
      obtain ⟨rfl, hterm⟩ := finishes_iff.mp hfe
      exact (hemit e es he hterm).2 ⟨other, d, ds, hd, hfd⟩
    rcases loop_cases loops p with ⟨hpp, heq⟩ | ⟨-, heq⟩ <;> rw [heq] at hp
    · rcases loop_cases loops q with ⟨hqp, -⟩ | ⟨-, heq'⟩
      · exact hpp.trans hqp.symm
      · rw [heq'] at hq
        exact (hfresh q c' rest' hq hc' c rest hp hc).elim
    · rcases loop_cases loops q with ⟨-, heq'⟩ | ⟨-, heq'⟩ <;> rw [heq'] at hq
      · exact (hfresh p c rest hp hc c' rest' hq hc').elim
      · exact h.alone p q c c' rest rest' uid hp hq hc hc'
  · intro other changes hchanges uid huid
    rw [hsame]
    rcases loop_cases loops other with ⟨-, heq⟩ | ⟨-, heq⟩ <;> rw [heq] at hchanges huid
    · exact hleft changes hchanges uid huid
    · exact h.pending other changes hchanges uid huid

/-- A loop records the change it was about to. -/
theorem Inv.emitted {change : StatusChange} {rest : List StatusChange} {e : Entry} {stored : Bool}
    (h : Inv w) (hslot : (w.loops process).phase = .emitting change rest)
    (loops : w'.loops = Function.update w.loops process x) (hphase : x.phase = .recording rest)
    (hseen : x.seen = (w.loops process).seen) (record : ∀ uid, isRecord uid e = finishes uid change)
    (log : w'.log = if stored then w.log ++ [e] else w.log) (due : w'.due = w.due)
    (hstored : change.toStatus.isTerminal = true → stored = true) : Inv w' := by
  have hsame : ∀ uid, finishes uid change = false → recorded w' uid = recorded w uid := by
    intro uid hf
    rw [recorded, log, recorded]
    split
    · rw [List.countP_append, List.countP_singleton, record, hf]
      simp
    · rfl
  have hnew : ∀ uid, finishes uid change = true →
      recorded w uid = 0 ∧ recorded w' uid = 1 := by
    intro uid hf
    obtain ⟨rfl, hterm⟩ := finishes_iff.mp hf
    have hzero := h.unrecorded process change rest hslot hterm
    refine ⟨hzero, ?_⟩
    rw [recorded, log, if_pos (hstored hterm), List.countP_append, List.countP_singleton, record, hf]
    simp only [if_true]
    rw [recorded] at hzero
    omega
  have hgrows : ∀ uid, recorded w uid ≤ recorded w' uid := by
    intro uid
    cases hf : finishes uid change with
    | false => exact (hsame uid hf).ge
    | true => exact (hnew uid hf).1 ▸ Nat.zero_le _
  have hother : ∀ other c cs, (w'.loops other).phase = .emitting c cs →
      other ≠ process ∧ (w.loops other).phase = .emitting c cs := by
    intro other c cs hc
    rcases loop_cases loops other with ⟨-, heq⟩ | ⟨hne, heq⟩ <;> rw [heq] at hc
    · rw [hphase] at hc
      cases hc
    · exact ⟨hne, hc⟩
  refine ⟨?_, ?_, ?_, ?_, ?_⟩
  · intro uid
    cases hf : finishes uid change with
    | false => exact hsame uid hf ▸ h.once uid
    | true => exact (hnew uid hf).2.le
  · intro uid hu
    have hone := h.due uid (due ▸ hu)
    cases hf : finishes uid change with
    | false => exact (hsame uid hf).trans hone
    | true => exact (hnew uid hf).2
  · intro other c cs hc hterm
    obtain ⟨hne, hold⟩ := hother other c cs hc
    cases hf : finishes c.uid change with
    | false => exact (hsame _ hf).trans (h.unrecorded other c cs hold hterm)
    | true =>
      exact absurd (h.alone other process c change cs rest c.uid hold hslot
        (finishes_iff.mpr ⟨rfl, hterm⟩) hf) hne
  · intro p q c c' cs cs' uid hp hq
    exact h.alone p q c c' cs cs' uid (hother p c cs hp).2 (hother q c' cs' hq).2
  · intro other changes hchanges uid huid
    rcases loop_cases loops other with ⟨rfl, heq⟩ | ⟨-, heq⟩ <;> rw [heq] at hchanges huid
    · rw [hphase] at hchanges
      cases hchanges
      rw [hseen] at huid
      rcases h.pending other (change :: rest) (by rw [hslot]; rfl) uid huid with hr | ⟨c, hc, hf⟩
      · exact Or.inl (lt_of_lt_of_le hr (hgrows uid))
      · rcases List.mem_cons.mp hc with rfl | hc
        · exact Or.inl ((hnew uid hf).2 ▸ Nat.one_pos)
        · exact Or.inr ⟨c, hc, hf⟩
    · rcases h.pending other changes hchanges uid huid with hr | hc
      · exact Or.inl (lt_of_lt_of_le hr (hgrows uid))
      · exact Or.inr hc

theorem Inv.step {a : Action π} (h : Inv w) (hok : Tracks w a) (hs : w.step a = some w') :
    Inv w' := by
  cases step_effect hs with
  | around loops log due =>
    exact ⟨by simpa only [recorded, log] using h.once, by simpa only [recorded, log, due] using h.due,
      by simpa only [recorded, log, loops] using h.unrecorded, by simpa only [loops] using h.alone,
      by simpa only [recorded, log, loops] using h.pending⟩
  | turn process x idle loops log due =>
    apply h.move loops log (due ▸ h.due)
    · intro change rest hphase
      rw [hphase] at idle
      cases idle
    · intro changes hchanges
      rw [idle] at hchanges
      cases hchanges
  | acquired process pass x slot own loops phase seen log due =>
    apply h.move loops log (due ▸ h.due)
    · intro change rest hphase
      rw [phase] at hphase
      cases hphase
    · intro changes' hchanges uid huid
      rw [phase] at hchanges
      cases hchanges
      rcases hok pass slot own uid (seen ▸ huid) with hr | hturns
      · exact Or.inl hr
      · exact Or.inr (finishes_iff_turns.mpr hturns)
  | checked process readOk change rest x slot loops phase seen log due =>
    have hpending := h.pending process (change :: rest) (by rw [slot]; rfl)
    apply h.move loops log (due ▸ h.due)
    · intro c cs hphase hterm
      rw [phase] at hphase
      split at hphase <;> cases hphase
      rename_i hnot
      obtain ⟨hright, halone⟩ := hok change rest slot hterm
      refine ⟨?_, halone⟩
      by_contra hrecorded
      exact hnot ⟨hterm, hright.mpr (Nat.pos_of_ne_zero hrecorded)⟩
    · intro changes hchanges uid huid
      rw [seen] at huid
      rw [phase] at hchanges
      split at hchanges <;> cases hchanges
      · rename_i hskip
        rcases hpending uid huid with hr | ⟨c, hc, hf⟩
        · exact Or.inl hr
        · rcases List.mem_cons.mp hc with rfl | hc
          · obtain ⟨rfl, hterm⟩ := finishes_iff.mp hf
            exact Or.inl ((hok c rest slot hterm).1.mp hskip.2)
          · exact Or.inr ⟨c, hc, hf⟩
      · exact hpending uid huid
  | emitted process stored change rest x e slot loops phase seen record log due =>
    exact h.emitted slot loops phase seen record log due (hok change rest slot)
  | slept process x slot idle loops log due =>
    apply h.move loops log
    · intro uid hu
      rw [due] at hu
      rcases List.mem_append.mp hu with hu | hu
      · exact h.due uid hu
      · have hone := h.once uid
        rcases h.pending process [] (by rw [slot]; rfl) uid hu with hr | ⟨c, hc, -⟩
        · omega
        · cases hc
    · intro change rest hphase
      rw [hphase] at idle
      cases idle
    · intro changes hchanges
      rw [idle] at hchanges
      cases hchanges

end Keep

/-- Every incarnation's outcome is recorded once in a run whose polls keep track of
what they have seen, and are told by name what holds of the incarnation. -/
theorem recorded_once [DecidableEq π] (as : List (Action π))
    (h : Machine.Steps World.step Tracks (World.start : World π) as) :
    Machine.Always World.step RecordedOnce (World.start : World π) as :=
  Machine.always_mono (fun _ => Inv.recordedOnce)
    (Machine.always_of_steps (fun _ _ _ hi hok hs => hi.step hok hs) .start h)

/-- A poll of the agent, up to the recording of its changes. -/
def poll : List (Action Unit) := [.list (), .dial () "a", .diff (), .acquire ()]

def firstTask : CalibanTask := ⟨"a", "u1", "ws", "t1", "Running", some "pod"⟩

/-- An agent is discovered running, finishes, and is found finished. -/
def finishesOnce : List (Action Unit) :=
  [.create firstTask, .pod "pod" (some ("u1", .running))] ++ poll ++ [.sleep ()] ++
    [.pod "pod" (some ("u1", .done))] ++ poll ++ [.check () true, .emit () true, .sleep ()]

section Alone

variable {w : World Unit} {c : StatusChange} {uid : String}

theorem tracks_acquire (seen : List String) (pass : Pass)
    (hphase : (w.loops ()).phase = .observed pass) (hseen : (w.loops ()).seen = seen)
    (h : ∀ uid ∈ seen, ∃ c ∈ pass.changes, finishes uid c = true) : Tracks w (.acquire ()) := by
  intro pass' hpass _ uid hu
  cases hphase.symm.trans hpass
  exact Or.inr (finishes_iff_turns.mp (h uid (hseen ▸ hu)))

/-- With one process, nobody else is about to record. -/
theorem tracks_check (hphase : (w.loops ()).phase = .recording [c])
    (hrecorded : alreadyRecordedTerminal w.log (w.loops ()).terminalRecorded c.id true = false)
    (hzero : recorded w c.uid = 0) : Tracks w (.check () true) := by
  intro change rest hslot _
  cases hphase.symm.trans hslot
  refine ⟨by simp [hrecorded, hzero], ?_⟩
  rintro ⟨process, d, ds, hd, -⟩
  cases hphase.symm.trans hd

theorem tracks_emit (process : Unit) : Tracks w (.emit process true) := fun _ _ _ _ => rfl

end Alone

theorem finishesOnce_tracked : Machine.Steps World.step Tracks World.start finishesOnce := by
  iterate 5 refine Machine.steps_cons trivial rfl ?_
  refine Machine.steps_cons (tracks_acquire [] _ rfl rfl (by simp)) rfl ?_
  iterate 5 refine Machine.steps_cons trivial rfl ?_
  refine Machine.steps_cons (tracks_acquire ["u1"] _ rfl rfl (by decide)) rfl ?_
  refine Machine.steps_cons (tracks_check rfl rfl rfl) rfl ?_
  refine Machine.steps_cons (tracks_emit ()) rfl ?_
  exact Machine.steps_cons trivial rfl trivial

theorem finishes_recorded_once :
    ∃ w, Machine.run World.step World.start finishesOnce = some w ∧ w.due = ["u1"] ∧
      RecordedOnce w :=
  ⟨_, rfl, rfl, Machine.always_end (recorded_once finishesOnce finishesOnce_tracked) rfl⟩

/-- The agent is restarted under its name, runs and finishes a second time. -/
def finishesTwice : List (Action Unit) :=
  finishesOnce ++ restartAgent firstTask "u2" "t2" ++
    [.operator "a" "Running" (some "pod"), .pod "pod" (some ("u2", .running))] ++ poll ++
    [.check () true, .emit () true, .sleep (), .pod "pod" (some ("u2", .done))] ++ poll ++
    [.check () true, .sleep ()]

theorem restarted_agent_unrecorded :
    ¬∀ (as : List (Action Unit)) (w : World Unit),
      Machine.run World.step World.start as = some w →
      Machine.Always World.step RecordedOnce World.start as := by
  intro h
  have hend := Machine.always_end (h finishesTwice _ rfl) rfl
  have hsecond : List.countP (isRecord "u2")
      [⟨"ws", "a", .statusChanged .running .done, "u1"⟩,
        ⟨"ws", "a", .statusChanged .done .running, "u2"⟩] = 1 :=
    hend.due "u2" (by decide)
  cases hsecond

end Prospero.Proofs.WatchLoop
