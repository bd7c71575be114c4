import Prospero.Lib.Machine
import Prospero.Proofs.Reconcile
import Prospero.Spawning

namespace Prospero.Proofs.Spawning
open Prospero.Reconcile (Entry Roster Phase Call diff diffRecord diffGone register)
open Prospero.Proofs.Reconcile (reporting_back call_step Moves)
open Prospero.Spawning

variable {π : Type}

/-- No agent is both spawned and discovered, as one process tells it. -/
def NeverBoth (w : World π) : Prop :=
  ∀ process id, (process, ⟨id, .agentSpawned⟩) ∈ w.emitted →
    (process, (⟨id, .agentDiscovered⟩ : Entry)) ∉ w.emitted

/-- caliband has the agent, and its `AgentSpawned` is yet to come. -/
def Stage.agent : Stage → Option String
  | .registered id | .replied id => some id
  | _ => none

/-- The process has spawned the agent, or is about to tell of it. -/
def Spawns (w : World π) (process : π) (id : String) : Prop :=
  (process, ⟨id, .agentSpawned⟩) ∈ w.emitted ∨
    ∃ call timed stage, w.spawns call = some ⟨process, timed, stage⟩ ∧ Stage.agent stage = some id

/-- The process has told of the agent as discovered, or one of its reconciles will. -/
def Discovers (w : World π) (process : π) (id : String) : Prop :=
  (process, ⟨id, .agentDiscovered⟩) ∈ w.emitted ∨
    ∃ call own records pending,
      w.fleet.calls call = some ⟨process, .reporting own records pending⟩ ∧
      ⟨id, .agentDiscovered⟩ ∈ pending

/-- A reconcile that owns the lifecycle lease has every agent of its process's
own spawns in its previous snapshot or in the attached set, and caliband answers
a spawn with an id that the process has not announced. -/
def Shows (w : World π) : Action π → Prop
  | .fleet (.diff call) => ∀ process records prior,
      w.fleet.calls call = some ⟨process, .compared true records prior⟩ →
      ∀ id ∈ records.map Prod.fst, Spawns w process id →
        id ∈ prior.map Prod.fst ∨ id ∈ w.fleet.attached process
  | .register call id => ∀ process timed,
      w.spawns call = some ⟨process, timed, .requested⟩ → ¬Discovers w process id
  | _ => True

/-- What a reconcile or a removal is yet to emit is not about a spawn, and what
it emits last not about a discovery either. -/
def Quiet : Phase → Prop
  | .reporting _ _ pending => ∀ e ∈ pending, e.kind ≠ .agentSpawned
  | .last e => e.kind ≠ .agentSpawned ∧ e.kind ≠ .agentDiscovered
  | _ => True

structure Apart (w : World π) : Prop where
  quiet : ∀ call x, w.fleet.calls call = some x → Quiet x.phase
  apart : ∀ process id, Discovers w process id → ¬Spawns w process id

theorem Apart.neverBoth {w : World π} (h : Apart w) : NeverBoth w :=
  fun process id hs hd => h.apart process id (Or.inl hd) (Or.inl hs)

theorem Apart.start [DecidableEq π] (registry : Roster) (log : List Entry) :
    Apart (World.start registry log : World π) := by
  constructor
  · intro call x hx
    cases hx
  · rintro process id (h | ⟨call, own, records, pending, hx, -⟩)
    · cases h
    · cases hx

section Diff

variable {own : Bool} {prior records : Roster} {attachedNow : List String} {e : Entry}

theorem diff_not_spawned (h : e ∈ diff own prior attachedNow records) : e.kind ≠ .agentSpawned := by
  rcases List.mem_append.mp h with h | h
  · obtain ⟨rec, -, h⟩ := List.mem_filterMap.mp h
    unfold diffRecord at h
    split at h <;> cases (Option.ite_none_right_eq_some.mp h).2 <;> simp
  · obtain ⟨old, -, h⟩ := List.mem_filterMap.mp h
    cases (Option.ite_none_right_eq_some.mp h).2
    simp

/-- Only what is listed, new to the snapshot and not attached is discovered. -/
theorem diff_discovered {id : String}
    (h : ⟨id, .agentDiscovered⟩ ∈ diff own prior attachedNow records) :
    own = true ∧ id ∈ records.map Prod.fst ∧ id ∉ prior.map Prod.fst ∧ id ∉ attachedNow := by
  rcases List.mem_append.mp h with h | h
  · obtain ⟨rec, hrec, h⟩ := List.mem_filterMap.mp h
    unfold diffRecord at h
    split at h
    · rename_i hprior
      obtain ⟨⟨hown, hnew⟩, he⟩ := Option.ite_none_right_eq_some.mp h
      cases he
      exact ⟨hown, List.mem_map_of_mem hrec, Reconcile.lookup_none.mp hprior, hnew⟩
    · cases (Option.ite_none_right_eq_some.mp h).2
  · obtain ⟨old, -, h⟩ := List.mem_filterMap.mp h
    cases (Option.ite_none_right_eq_some.mp h).2

end Diff

section Fleet

variable [DecidableEq π] {f f' : Reconcile.World π} {a : Reconcile.Action π}

omit [DecidableEq π] in
theorem spoken_some {process : π} {e : Entry} (h : spoken f a = some (process, e)) :
    ∃ call, a = .emit call ∧
      ((∃ own records pending,
        f.calls call = some ⟨process, .reporting own records (e :: pending)⟩) ∨
      f.calls call = some ⟨process, .last e⟩) := by
  cases a with
  | emit call =>
    obtain ⟨⟨p, phase⟩, hx, h⟩ := Option.bind_eq_some_iff.mp h
    refine ⟨call, rfl, ?_⟩
    split at h
    · cases h
      rename_i own records pending hphase
      cases hphase
      exact Or.inl ⟨own, records, pending, hx⟩
    · cases h
      rename_i hphase
      cases hphase
      exact Or.inr hx
    · cases h
  | _ => cases h

/-- Only a spawn would end a call with an event about a spawn. -/
theorem quiet_step (h : f.step a = some f') (hspawn : ∀ call process id, a ≠ .spawn call process id)
    (hq : ∀ call x, f.calls call = some x → Quiet x.phase) :
    ∀ call x, f'.calls call = some x → Quiet x.phase := by
  intro call x hx
  rcases call_step h hx with hold | hm
  · exact hq call x hold
  · cases hm with
    | reporting _ process own records prior slot => exact fun e he => diff_not_spawned he
    | reported _ process own records e pending slot =>
      exact fun e' he' => hq call _ slot e' (List.mem_cons_of_mem e he')
    | gone _ process id slot => exact ⟨by simp, by simp⟩
    | unreachable _ process own reason state slot => exact ⟨by simp, by simp⟩
    | recovered _ process own records state slot => exact ⟨by simp, by simp⟩
    | spawned _ process id slot => exact absurd rfl (hspawn call process id)
    | _ => trivial

end Fleet

/-- What an enabled action finds, and what it leaves. -/
inductive Effect [DecidableEq π] (w : World π) : Action π → World π → Prop
  | fleet (a : Reconcile.Action π) (f : Reconcile.World π) (admitted : w.admits a = true)
      (stepped : w.fleet.step a = some f) :
      Effect w (.fleet a) { w with
        fleet := f
        attachedNow := w.nowAttached a
        starts := w.nowStarts a
        emitted := w.emitted ++ (spoken w.fleet a).toList }
  | spawn (call : Nat) (process : π) (timed : Bool) (slot : w.spawns call = none) :
      Effect w (.spawn call process timed) (w.setSpawn call (some ⟨process, timed, .requested⟩))
  | register (call : Nat) (process : π) (timed : Bool) (id : String)
      (slot : w.spawns call = some ⟨process, timed, .requested⟩) :
      Effect w (.register call id) { w.setSpawn call (some ⟨process, timed, .registered id⟩) with
        fleet := { w.fleet with registry := register w.fleet.registry id (some .spawning) } }
  | fail (call : Nat) : Effect w (.fail call) (w.setSpawn call none)
  | reply (call : Nat) (process : π) (timed : Bool) (id : String)
      (slot : w.spawns call = some ⟨process, timed, .registered id⟩) :
      Effect w (.reply call) { w.setSpawn call (some ⟨process, timed, .replied id⟩) with
        fleet := { w.fleet with
          recentSpawns := Function.update w.fleet.recentSpawns process
            (id :: w.fleet.recentSpawns process) } }
  | announce (call : Nat) (process : π) (id : String)
      (slot : w.spawns call = some ⟨process, true, .replied id⟩) :
      Effect w (.announce call)
        ((w.emit process ⟨id, .agentSpawned⟩).setSpawn call (some ⟨process, true, .announced id⟩))
  | announceLast (call : Nat) (process : π) (id : String)
      (slot : w.spawns call = some ⟨process, false, .replied id⟩) :
      Effect w (.announce call) ((w.emit process ⟨id, .agentSpawned⟩).attach call process id)
  | setDeadline (call : Nat) (process : π) (timed : Bool) (id deadline : String)
      (slot : w.spawns call = some ⟨process, timed, .announced id⟩) :
      Effect w (.setDeadline call deadline)
        ((w.emit process ⟨id, .deadlineSet deadline⟩).attach call process id)
  | check (call : Nat) (x : Option (Starting π)) : Effect w (.check call) (w.setStart call x)
  | lost (call : Nat) (ok : Bool) (x : Option (Starting π)) :
      Effect w (.lease call ok) (w.setStart call x)
  | attached (call : Nat) (x : Option (Starting π)) (process : π) (ids : List String) :
      Effect w (.lease call true) ((w.setStart call x).setAttached process ids)
  | ended (process : π) (id : String) (ids : List String) :
      Effect w (.ended process id) (w.setAttached process ids)

section Step

variable [DecidableEq π] {w w' : World π} {a : Action π}

theorem step_effect (h : w.step a = some w') : Effect w a w' := by
  cases a with
  | fleet a =>
    obtain ⟨hadmits, h⟩ := Option.ite_none_right_eq_some.mp h
    obtain ⟨f, hf, rfl⟩ := Option.map_eq_some_iff.mp h
    exact .fleet a f hadmits hf
  | spawn call process timed =>
    simp only [World.step] at h
    split at h <;> cases h
    rename_i hspawn hstart
    exact .spawn call process timed hspawn
  | register call id =>
    obtain ⟨⟨process, timed, stage⟩, hx, h⟩ := Option.bind_eq_some_iff.mp h
    split at h <;> cases h
    rename_i hstage
    cases hstage
    exact .register call process timed id hx
  | fail call =>
    obtain ⟨x, hx, h⟩ := Option.bind_eq_some_iff.mp h
    split at h <;> cases h <;> exact .fail call
  | reply call =>
    obtain ⟨⟨process, timed, stage⟩, hx, h⟩ := Option.bind_eq_some_iff.mp h
    split at h <;> cases h
    rename_i id hstage
    cases hstage
    exact .reply call process timed id hx
  | announce call =>
    obtain ⟨⟨process, timed, stage⟩, hx, h⟩ := Option.bind_eq_some_iff.mp h
    split at h
    · rename_i id hstage
      cases hstage
      cases timed <;> cases h
      · exact .announceLast call process id hx
      · exact .announce call process id hx
    · cases h
  | setDeadline call deadline =>
    obtain ⟨⟨process, timed, stage⟩, hx, h⟩ := Option.bind_eq_some_iff.mp h
    split at h <;> cases h
    rename_i id hstage
    cases hstage
    exact .setDeadline call process timed id deadline hx
  | check call =>
    obtain ⟨x, hx, h⟩ := Option.bind_eq_some_iff.mp h
    split at h
    · cases h
      exact .check call _
    · split at h <;> cases h <;> exact .check call _
    · cases h
  | lease call ok =>
    obtain ⟨x, hx, h⟩ := Option.bind_eq_some_iff.mp h
    split at h
    · split at h
      · rename_i hok
        cases h
        cases hok.1
        exact .attached call _ _ _
      · cases h
        exact .lost call ok _
    · cases h
  | ended process id =>
    obtain ⟨-, h⟩ := Option.ite_none_right_eq_some.mp h
    cases h
    exact .ended process id _

theorem calls_step (h : w.step a = some w') :
    w'.fleet.calls = w.fleet.calls ∨ ∃ b, a = .fleet b ∧ w.fleet.step b = some w'.fleet := by
  cases step_effect h with
  | fleet b f admitted stepped => exact Or.inr ⟨b, rfl, stepped⟩
  | _ => exact Or.inl rfl

theorem spawns_step (h : w.step a = some w') {call : Nat} {x : Spawn π}
    (hx : w'.spawns call = some x) :
    w.spawns call = some x ∨
    (∃ id, a = .register call id ∧ w.spawns call = some ⟨x.process, x.timed, .requested⟩ ∧
      x.stage = .registered id) ∨
    (∃ id, w.spawns call = some ⟨x.process, x.timed, .registered id⟩ ∧ x.stage = .replied id) ∨
    Stage.agent x.stage = none := by
  cases step_effect h with
  | spawn other process timed slot =>
    rcases Slots.update_some hx with ⟨rfl, rfl⟩ | ⟨-, hold⟩
    · exact Or.inr (Or.inr (Or.inr rfl))
    · exact Or.inl hold
  | register other process timed id slot =>
    rcases Slots.update_some hx with ⟨rfl, rfl⟩ | ⟨-, hold⟩
    · exact Or.inr (Or.inl ⟨id, rfl, slot, rfl⟩)
    · exact Or.inl hold
  | reply other process timed id slot =>
    rcases Slots.update_some hx with ⟨rfl, rfl⟩ | ⟨-, hold⟩
    · exact Or.inr (Or.inr (Or.inl ⟨id, slot, rfl⟩))
    · exact Or.inl hold
  | announce other process id slot =>
    rcases Slots.update_some hx with ⟨rfl, rfl⟩ | ⟨-, hold⟩
    · exact Or.inr (Or.inr (Or.inr rfl))
    · exact Or.inl hold
  | fail | announceLast | setDeadline => exact Or.inl (Slots.update_none hx).2
  | _ => exact Or.inl hx

/-- Who emits what: a reconcile or a removal what it had pending, a spawn its
announcement and then its deadline. -/
theorem emitted_step (h : w.step a = some w') {process : π} {e : Entry}
    (he : (process, e) ∈ w'.emitted) :
    (process, e) ∈ w.emitted ∨
    (∃ b, a = .fleet b ∧ spoken w.fleet b = some (process, e)) ∨
    (∃ call timed id, w.spawns call = some ⟨process, timed, .replied id⟩ ∧
      e = ⟨id, .agentSpawned⟩) ∨
    ∃ id deadline, e = ⟨id, .deadlineSet deadline⟩ := by
  cases step_effect h with
  | fleet b f admitted stepped =>
    rcases List.mem_append.mp he with he | he
    · exact Or.inl he
    · exact Or.inr (Or.inl ⟨b, rfl, Option.mem_toList.mp he⟩)
  | announce call p id slot | announceLast call p id slot =>
    rcases List.mem_append.mp he with he | he
    · exact Or.inl he
    · cases List.mem_singleton.mp he
      exact Or.inr (Or.inr (Or.inl ⟨call, _, id, slot, rfl⟩))
  | setDeadline call p timed id deadline slot =>
    rcases List.mem_append.mp he with he | he
    · exact Or.inl he
    · cases List.mem_singleton.mp he
      exact Or.inr (Or.inr (Or.inr ⟨id, deadline, rfl⟩))
  | _ => exact Or.inl he

/-- An agent is newly to be discovered where a reconcile compares. -/
theorem Discovers.back (hq : ∀ call x, w.fleet.calls call = some x → Quiet x.phase)
    (h : w.step a = some w') {process : π} {id : String} (hd : Discovers w' process id) :
    Discovers w process id ∨
    ∃ call records prior, a = .fleet (.diff call) ∧
      w.fleet.calls call = some ⟨process, .compared true records prior⟩ ∧
      id ∈ records.map Prod.fst ∧ id ∉ prior.map Prod.fst ∧ id ∉ w.fleet.attached process := by
  rcases hd with he | ⟨call, own, records, pending, hx, hmem⟩
  · rcases emitted_step h he with hold | ⟨b, -, hb⟩ | ⟨call, timed, i, -, heq⟩ | ⟨i, d, heq⟩
    · exact Or.inl (Or.inl hold)
    · obtain ⟨call, -, ⟨own, records, pending, hx⟩ | hx⟩ := spoken_some hb
      · exact Or.inl (Or.inr ⟨call, own, records, _, hx, List.mem_cons_self ..⟩)
      · exact absurd rfl (hq call _ hx).2
    · simp at heq
    · simp at heq
  · rcases calls_step h with hsame | ⟨b, rfl, hb⟩
    · exact Or.inl (Or.inr ⟨call, own, records, pending, hsame ▸ hx, hmem⟩)
    · rcases reporting_back hb hx with ⟨-, hold⟩ | ⟨-, e, hold⟩ | ⟨rfl, prior, hslot, rfl⟩
      · exact Or.inl (Or.inr ⟨call, own, records, pending, hold, hmem⟩)
      · exact Or.inl (Or.inr ⟨call, own, records, _, hold, List.mem_cons_of_mem e hmem⟩)
      · obtain ⟨rfl, hlisted, hnew, hfree⟩ := diff_discovered hmem
        exact Or.inr ⟨call, records, prior, rfl, hslot, hlisted, hnew, hfree⟩

/-- An agent is newly spawned where caliband registers it. -/
theorem Spawns.back (hq : ∀ call x, w.fleet.calls call = some x → Quiet x.phase)
    (h : w.step a = some w') {process : π} {id : String} (hs : Spawns w' process id) :
    Spawns w process id ∨
    ∃ call timed, a = .register call id ∧ w.spawns call = some ⟨process, timed, .requested⟩ := by
  rcases hs with he | ⟨call, timed, stage, hx, hagent⟩
  · rcases emitted_step h he with hold | ⟨b, -, hb⟩ | ⟨call, timed, i, hslot, heq⟩ | ⟨i, d, heq⟩
    · exact Or.inl (Or.inl hold)
    · obtain ⟨call, -, ⟨own, records, pending, hx⟩ | hx⟩ := spoken_some hb
      · exact absurd rfl (hq call _ hx _ (List.mem_cons_self ..))
      · exact absurd rfl (hq call _ hx).1
    · cases heq
      exact Or.inl (Or.inr ⟨call, timed, _, hslot, rfl⟩)
    · simp at heq
  · rcases spawns_step h hx with hold | ⟨i, rfl, hslot, rfl⟩ | ⟨i, hslot, rfl⟩ | hnone
    · exact Or.inl (Or.inr ⟨call, timed, stage, hold, hagent⟩)
    · cases hagent
      exact Or.inr ⟨call, timed, rfl, hslot⟩
    · exact Or.inl (Or.inr ⟨call, timed, _, hslot, hagent⟩)
    · cases hnone.symm.trans hagent

theorem Apart.step (h : Apart w) (hok : Shows w a) (hs : w.step a = some w') : Apart w' := by
  constructor
  · rcases calls_step hs with hsame | ⟨b, rfl, hb⟩
    · exact hsame ▸ h.quiet
    · refine quiet_step hb ?_ h.quiet
      rintro call process id rfl
      cases hs
  · intro process id hd hsp
    rcases hd.back h.quiet hs with hold | ⟨call, records, prior, rfl, hslot, hlisted, hnew, hfree⟩
    · rcases hsp.back h.quiet hs with hspawned | ⟨call, timed, rfl, hslot⟩
      · exact h.apart process id hold hspawned
      · exact hok process timed hslot hold
    · rcases hsp.back h.quiet hs with hspawned | ⟨_, _, ha, -⟩
      · rcases hok process records prior hslot id hlisted hspawned with hprior | hattached
        · exact hnew hprior
        · exact hfree hattached
      · cases ha

end Step

section Runs

variable [DecidableEq π]

/-- Where every reconcile finds the process's own agents in its snapshot or
attached, no agent is both spawned and discovered. -/
theorem spawned_never_discovered (registry : Roster) (log : List Entry) (as : List (Action π))
    (h : Machine.Steps World.step Shows (World.start registry log) as) :
    Machine.Always World.step NeverBoth (World.start registry log) as :=
  Machine.always_mono (fun _ => Apart.neverBoth)
    (Machine.always_of_steps (fun _ _ _ hw hok hs => hw.step hok hs) (Apart.start registry log) h)

/-- One process spawns an agent and attaches it before it polls. -/
def promptRun : List (Action Unit) :=
  [.spawn 0 () false, .register 0 "a1", .reply 0, .announce 0, .check 0, .lease 0 true,
    .fleet (.poll 0 ()), .fleet (.list 0), .fleet (.readPrior 0), .fleet (.diff 0)]

theorem promptRun_shows : Machine.Steps World.step Shows (World.start [] []) promptRun := by
  refine Machine.steps_cons trivial rfl (Machine.steps_cons ?_ rfl ?_)
  · rintro process timed - (h | ⟨call, own, records, pending, hx, -⟩)
    · cases h
    · cases hx
  · iterate 7 refine Machine.steps_cons trivial rfl ?_
    refine Machine.steps_cons ?_ rfl trivial
    intro process records prior hslot id hid hs
    cases hslot
    cases List.mem_singleton.mp hid
    exact Or.inr (List.mem_singleton.mpr rfl)

theorem spawned_never_discovered_prompt : ∃ w : World Unit,
    Machine.run World.step (World.start [] []) promptRun = some w ∧
    w.emitted = [((), ⟨"a1", .agentSpawned⟩)] ∧
    w.fleet.calls 0 = some ⟨(), .reporting true [("a1", .spawning)] []⟩ ∧ NeverBoth w :=
  ⟨_, rfl, rfl, rfl,
    Machine.always_end (spawned_never_discovered [] [] promptRun promptRun_shows) rfl⟩

/-- The poll lands between caliband's registration and the attach. -/
def earlyPollRun : List (Action Unit) :=
  [.spawn 0 () false, .register 0 "a1", .fleet (.poll 0 ()), .fleet (.list 0),
    .fleet (.readPrior 0), .fleet (.diff 0), .fleet (.emit 0), .reply 0, .announce 0]

theorem spawned_and_discovered : ¬∀ (registry : Roster) (log : List Entry) (as : List (Action Unit)),
    Machine.Always World.step NeverBoth (World.start registry log) as := by
  intro h
  have hend := Machine.always_end (h [] [] earlyPollRun) rfl
  exact hend () "a1" (List.Mem.tail _ (List.Mem.head _)) (List.Mem.head _)

end Runs

end Prospero.Proofs.Spawning
