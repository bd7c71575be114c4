import Prospero.Lib.KeyedLog
import Prospero.Lib.Slots
import Prospero.Reconcile

namespace Prospero.Proofs.Reconcile
open Prospero.Reconcile

variable {π : Type}

def kindsOf (log : List Entry) (id : String) : List EventKind :=
  (log.filter fun e => e.agentId = id).map Entry.kind

section Kinds

variable {e : Entry} {id : String}

@[simp] theorem kindsOf_append (log log' : List Entry) (id : String) :
    kindsOf (log ++ log') id = kindsOf log id ++ kindsOf log' id := by
  simp [kindsOf]

@[simp] theorem kindsOf_cons_self (e : Entry) (log : List Entry) :
    kindsOf (e :: log) e.agentId = e.kind :: kindsOf log e.agentId := by
  simp [kindsOf]

theorem kindsOf_cons_of_ne (h : e.agentId ≠ id) (log : List Entry) :
    kindsOf (e :: log) id = kindsOf log id := by
  simp [kindsOf, h]

end Kinds

section Diff

variable {prior records : Roster} {attachedNow : List String} {id : String} {own : Bool}

theorem mem_of_lookup {rs : Roster} {s : AgentStatus} (h : rs.lookup id = some s) :
    (id, s) ∈ rs := by
  obtain ⟨before, after, rfl, -⟩ := List.lookup_eq_some_iff.mp h
  simp

theorem lookup_none {rs : Roster} : rs.lookup id = none ↔ id ∉ rs.map Prod.fst := by
  rw [List.lookup_eq_none_iff]
  constructor
  · intro h hmem
    obtain ⟨a, ha, rfl⟩ := List.mem_map.mp hmem
    exact absurd (h a ha) (by simp)
  · intro h a ha
    exact bne_iff_ne.mpr fun he => h (he ▸ List.mem_map_of_mem ha)

theorem diffRecord_id {rec : String × AgentStatus} {e : Entry}
    (h : diffRecord own prior attachedNow rec = some e) : e.agentId = rec.1 := by
  unfold diffRecord at h
  split at h <;> cases (Option.ite_none_right_eq_some.mp h).2 <;> rfl

theorem diffGone_id {old : String × AgentStatus} {e : Entry}
    (h : diffGone own records old = some e) : e.agentId = old.1 := by
  cases (Option.ite_none_right_eq_some.mp h).2
  rfl

/-- Where an agent is listed once, its events come from its own record alone. -/
theorem kindsOf_filterMap {rs : Roster} {f : String × AgentStatus → Option Entry}
    (hf : ∀ a e, f a = some e → e.agentId = a.1) (id : String) :
    kindsOf (rs.filterMap f) id = ((rs.filter fun a => a.1 = id).filterMap f).map Entry.kind := by
  induction rs with
  | nil => rfl
  | cons a rs ih =>
    by_cases ha : a.1 = id
    · simp only [List.filterMap_cons, ha, decide_true, List.filter_cons_of_pos]
      cases he : f a with
      | none => simpa [he] using ih
      | some e =>
        have hid : e.agentId = id := (hf a e he).trans ha
        simp only [List.map_cons, ← ih]
        simp [kindsOf, hid]
    · rw [List.filter_cons_of_neg (by simpa using ha), ← ih]
      cases he : f a with
      | none => simp [he]
      | some e =>
        rw [List.filterMap_cons_some he]
        apply kindsOf_cons_of_ne
        rwa [hf a e he]

theorem kindsOf_listed {rs : Roster} {f : String × AgentStatus → Option Entry}
    (hf : ∀ a e, f a = some e → e.agentId = a.1) (hrs : (rs.map Prod.fst).Nodup)
    {a : String × AgentStatus} (ha : a ∈ rs) :
    kindsOf (rs.filterMap f) a.1 = (f a).toList.map Entry.kind := by
  rw [kindsOf_filterMap hf, KeyedLog.filter_key_eq hrs ha]
  cases hfa : f a <;> simp [hfa]

theorem kindsOf_unlisted {rs : Roster} {f : String × AgentStatus → Option Entry}
    (hf : ∀ a e, f a = some e → e.agentId = a.1) (h : id ∉ rs.map Prod.fst) :
    kindsOf (rs.filterMap f) id = [] := by
  rw [kindsOf_filterMap hf, List.filter_eq_nil_iff.mpr, List.filterMap_nil, List.map_nil]
  intro a ha he
  exact h (List.mem_map.mpr ⟨a, ha, of_decide_eq_true he⟩)

/-- What a reconcile reports of an agent that caliband listed. -/
theorem kindsOf_diff_listed {s : AgentStatus} (hrecords : (records.map Prod.fst).Nodup)
    (h : (id, s) ∈ records) : kindsOf (diff own prior attachedNow records) id =
      ((diffRecord own prior attachedNow (id, s)).toList.map Entry.kind) := by
  have hgone : kindsOf (prior.filterMap (diffGone own records)) id = [] := by
    rw [kindsOf_filterMap (fun _ _ => diffGone_id), List.map_eq_nil_iff,
      List.filterMap_eq_nil_iff]
    intro a ha
    have hid : a.1 = id := of_decide_eq_true (List.mem_filter.mp ha).2
    have hlisted : records.lookup a.1 ≠ none := by
      rw [hid, ne_eq, lookup_none, not_not]
      exact List.mem_map.mpr ⟨(id, s), h, rfl⟩
    simp [diffGone, hlisted]
  rw [diff, kindsOf_append, hgone, List.append_nil]
  exact kindsOf_listed (fun _ _ => diffRecord_id) hrecords h

/-- What it reports of one that caliband no longer lists. -/
theorem kindsOf_diff_unlisted (hprior : (prior.map Prod.fst).Nodup)
    (h : id ∉ records.map Prod.fst) : kindsOf (diff own prior attachedNow records) id =
      if own ∧ id ∈ prior.map Prod.fst then [.agentGone] else [] := by
  rw [diff, kindsOf_append, kindsOf_unlisted (fun _ _ => diffRecord_id) h, List.nil_append]
  by_cases hid : id ∈ prior.map Prod.fst
  · obtain ⟨⟨i, s⟩, ha, rfl⟩ := List.mem_map.mp hid
    rw [kindsOf_listed (fun _ _ => diffGone_id) hprior ha]
    simp only [diffGone, lookup_none.mpr h, and_true, hid]
    cases own <;> rfl
  · rw [kindsOf_unlisted (fun _ _ => diffGone_id) hid]
    simp [hid]

end Diff

/-- The event that an action appends to the log. -/
def emits (w : World π) : Action π → Option Entry
  | .emit call => (w.calls call).bind fun x =>
    match x.phase with
    | .reporting _ _ (e :: _) => some e
    | .last e => some e
    | _ => none
  | _ => none

theorem emits_some {w : World π} {a : Action π} {e : Entry} (h : emits w a = some e) :
    ∃ call process, a = .emit call ∧
      ((∃ own records pending,
        w.calls call = some ⟨process, .reporting own records (e :: pending)⟩) ∨
      w.calls call = some ⟨process, .last e⟩) := by
  cases a with
  | emit call =>
    obtain ⟨⟨process, phase⟩, hx, h⟩ := Option.bind_eq_some_iff.mp h
    refine ⟨call, process, rfl, ?_⟩
    split at h
    · cases h
      rename_i own records pending hphase
      cases hphase
      exact Or.inl ⟨own, records, pending, hx⟩
    · cases h
      rename_i hphase
      cases hphase
      exact Or.inr hx
    · cases h
  | _ => cases h

/-- What an enabled action finds, and what it leaves. -/
inductive Effect [DecidableEq π] (w : World π) : Action π → World π → Prop
  | caliband (id : String) (status : Option AgentStatus) :
      Effect w (.caliband id status) { w with registry := register w.registry id status }
  | expire : Effect w .expire { w with lease := none }
  | attach (process : π) (ids : List String) :
      Effect w (.attach process ids) { w with attached := Function.update w.attached process ids }
  | restart (process : π) : Effect w (.restart process) (w.restart process)
  | poll (call : Nat) (process : π) (slot : w.calls call = none) :
      Effect w (.poll call process)
        ((w.tryAcquire process).1.goTo call process (.acquired (w.tryAcquire process).2))
  | unreachable (call : Nat) (process : π) (own : Bool) (reason : String)
      (slot : w.calls call = some ⟨process, .acquired own⟩) :
      Effect w (.unreachable call reason) (w.markUnreachable call process own reason)
  | list (call : Nat) (process : π) (own : Bool)
      (slot : w.calls call = some ⟨process, .acquired own⟩) :
      Effect w (.list call) (w.goTo call process (.listed own w.registry))
  | readPrior (call : Nat) (process : π) (own : Bool) (records : Roster)
      (slot : w.calls call = some ⟨process, .listed own records⟩) :
      Effect w (.readPrior call) (w.goTo call process (.compared own records (w.snapshot process)))
  | diff (call : Nat) (process : π) (own : Bool) (records prior : Roster)
      (slot : w.calls call = some ⟨process, .compared own records prior⟩) :
      Effect w (.diff call) (w.goTo call process
        (.reporting own records (diff own prior (w.attached process) records)))
  | emit (call : Nat) (process : π) (own : Bool) (records : Roster) (e : Entry)
      (pending : List Entry)
      (slot : w.calls call = some ⟨process, .reporting own records (e :: pending)⟩) :
      Effect w (.emit call) ((w.append e).goTo call process (.reporting own records pending))
  | last (call : Nat) (process : π) (e : Entry)
      (slot : w.calls call = some ⟨process, .last e⟩) :
      Effect w (.emit call) ((w.append e).setCall call none)
  | replace (call : Nat) (process : π) (own : Bool) (records : Roster)
      (slot : w.calls call = some ⟨process, .reporting own records []⟩) :
      Effect w (.replace call) (w.replace call process own records)
  | spawn (call : Nat) (process : π) (id : String) (slot : w.calls call = none) :
      Effect w (.spawn call process id) { w.goTo call process (.last ⟨id, .agentSpawned⟩) with
        registry := register w.registry id (some .spawning)
        recentSpawns := Function.update w.recentSpawns process (id :: w.recentSpawns process) }
  | rm (call : Nat) (process : π) (id : String) (slot : w.calls call = none) :
      Effect w (.rm call process id) (w.goTo call process (.resolved id))
  | removed (call : Nat) (process : π) (id : String)
      (slot : w.calls call = some ⟨process, .resolved id⟩) :
      Effect w (.remove call true)
        { w.goTo call process (.removed id) with registry := register w.registry id none }
  | refused (call : Nat) (process : π) (id : String)
      (slot : w.calls call = some ⟨process, .resolved id⟩) :
      Effect w (.remove call false) (w.setCall call none)
  | prune (call : Nat) (process : π) (id : String)
      (slot : w.calls call = some ⟨process, .removed id⟩) :
      Effect w (.prune call) (w.prune call process id)
  | acquireGone (call : Nat) (process : π) (id : String)
      (slot : w.calls call = some ⟨process, .pruned id⟩) :
      Effect w (.acquireGone call) (w.acquireGone call process id)

section Effect

variable [DecidableEq π] {w w' : World π} {a : Action π}

omit [DecidableEq π] in
theorem begin_none {call : Nat} {u : Unit} (h : w.begin call = some u) : w.calls call = none := by
  unfold World.begin at h
  split at h
  · assumption
  · cases h

theorem step_effect (h : w.step a = some w') : Effect w a w' := by
  cases a with
  | caliband id status =>
    cases h
    exact .caliband id status
  | expire =>
    cases h
    exact .expire
  | attach process ids =>
    cases h
    exact .attach process ids
  | restart process =>
    cases h
    exact .restart process
  | poll call process =>
    obtain ⟨u, hu, rfl⟩ := Option.map_eq_some_iff.mp h
    exact .poll call process (begin_none hu)
  | spawn call process id =>
    obtain ⟨u, hu, rfl⟩ := Option.map_eq_some_iff.mp h
    exact .spawn call process id (begin_none hu)
  | rm call process id =>
    obtain ⟨u, hu, h⟩ := Option.bind_eq_some_iff.mp h
    split at h <;> cases h
    exact .rm call process id (begin_none hu)
  | unreachable call reason | list call | readPrior call | diff call | replace call | prune call
  | acquireGone call =>
    obtain ⟨⟨process, phase⟩, hx, h⟩ := Option.bind_eq_some_iff.mp h
    split at h <;> cases h
    rename_i hphase
    cases hphase
    constructor
    exact hx
  | emit call =>
    obtain ⟨⟨process, phase⟩, hx, h⟩ := Option.bind_eq_some_iff.mp h
    split at h <;> cases h
    · rename_i own records e pending hphase
      cases hphase
      exact .emit call process own records e pending hx
    · rename_i e hphase
      cases hphase
      exact .last call process e hx
  | remove call ok =>
    obtain ⟨⟨process, phase⟩, hx, h⟩ := Option.bind_eq_some_iff.mp h
    split at h
    · rename_i id hphase
      cases hphase
      cases ok <;> cases h
      · exact .refused call process id hx
      · exact .removed call process id hx
    · cases h

theorem tryAcquire_frame (w : World π) (process : π) :
    (w.tryAcquire process).1.log = w.log ∧ (w.tryAcquire process).1.calls = w.calls ∧
      (w.tryAcquire process).1.snapshot = w.snapshot ∧
      (w.tryAcquire process).1.registry = w.registry := by
  unfold World.tryAcquire
  split <;> exact ⟨rfl, rfl, rfl, rfl⟩

theorem markUnreachable_frame (w : World π) (call : Nat) (process : π) (own : Bool)
    (reason : String) : (w.markUnreachable call process own reason).log = w.log ∧
      (w.markUnreachable call process own reason).snapshot = w.snapshot ∧
      (w.markUnreachable call process own reason).registry = w.registry := by
  unfold World.markUnreachable
  split <;> exact ⟨rfl, rfl, rfl⟩

theorem prune_frame (w : World π) (call : Nat) (process : π) (id : String) :
    (w.prune call process id).log = w.log ∧
      (w.prune call process id).snapshot =
        Function.update w.snapshot process ((w.snapshot process).filter fun a => a.1 ≠ id) ∧
      (w.prune call process id).registry = w.registry := by
  unfold World.prune
  split <;> exact ⟨rfl, rfl, rfl⟩

theorem log_step (h : w.step a = some w') : w'.log = w.log ++ (emits w a).toList := by
  cases step_effect h with
  | emit call process own records e pending slot | last call process e slot =>
    simp only [emits, slot, Option.bind_some, Option.toList_some]
    rfl
  | poll call process slot =>
    exact (tryAcquire_frame w process).1.trans (List.append_nil _).symm
  | acquireGone call process id slot =>
    exact (tryAcquire_frame w process).1.trans (List.append_nil _).symm
  | unreachable call process own reason slot =>
    exact (markUnreachable_frame w call process own reason).1.trans (List.append_nil _).symm
  | prune call process id slot =>
    exact (prune_frame w call process id).1.trans (List.append_nil _).symm
  | _ => exact (List.append_nil _).symm

end Effect

/-- The phase that an action takes one of the calls to. -/
inductive Moves [DecidableEq π] (w : World π) : Action π → Nat → Call π → Prop
  | acquired (call : Nat) (process : π) (slot : w.calls call = none) :
      Moves w (.poll call process) call ⟨process, .acquired (w.tryAcquire process).2⟩
  | listed (call : Nat) (process : π) (own : Bool)
      (slot : w.calls call = some ⟨process, .acquired own⟩) :
      Moves w (.list call) call ⟨process, .listed own w.registry⟩
  | compared (call : Nat) (process : π) (own : Bool) (records : Roster)
      (slot : w.calls call = some ⟨process, .listed own records⟩) :
      Moves w (.readPrior call) call ⟨process, .compared own records (w.snapshot process)⟩
  | reporting (call : Nat) (process : π) (own : Bool) (records prior : Roster)
      (slot : w.calls call = some ⟨process, .compared own records prior⟩) :
      Moves w (.diff call) call
        ⟨process, .reporting own records (diff own prior (w.attached process) records)⟩
  | reported (call : Nat) (process : π) (own : Bool) (records : Roster) (e : Entry)
      (pending : List Entry)
      (slot : w.calls call = some ⟨process, .reporting own records (e :: pending)⟩) :
      Moves w (.emit call) call ⟨process, .reporting own records pending⟩
  | resolved (call : Nat) (process : π) (id : String) (slot : w.calls call = none) :
      Moves w (.rm call process id) call ⟨process, .resolved id⟩
  | removed (call : Nat) (process : π) (id : String)
      (slot : w.calls call = some ⟨process, .resolved id⟩) :
      Moves w (.remove call true) call ⟨process, .removed id⟩
  | pruned (call : Nat) (process : π) (id : String)
      (slot : w.calls call = some ⟨process, .removed id⟩)
      (listed : id ∈ (w.snapshot process).map Prod.fst) :
      Moves w (.prune call) call ⟨process, .pruned id⟩
  | gone (call : Nat) (process : π) (id : String)
      (slot : w.calls call = some ⟨process, .pruned id⟩) :
      Moves w (.acquireGone call) call ⟨process, .last ⟨id, .agentGone⟩⟩
  | spawned (call : Nat) (process : π) (id : String) (slot : w.calls call = none) :
      Moves w (.spawn call process id) call ⟨process, .last ⟨id, .agentSpawned⟩⟩
  | unreachable (call : Nat) (process : π) (own : Bool) (reason : String)
      (state : WorkspaceHealth) (slot : w.calls call = some ⟨process, .acquired own⟩) :
      Moves w (.unreachable call reason) call ⟨process, .last ⟨"", .repoHealth state⟩⟩
  | recovered (call : Nat) (process : π) (own : Bool) (records : Roster)
      (state : WorkspaceHealth)
      (slot : w.calls call = some ⟨process, .reporting own records []⟩) :
      Moves w (.replace call) call ⟨process, .last ⟨"", .repoHealth state⟩⟩

theorem Moves.unique [DecidableEq π] {w : World π} {a : Action π} {call other : Nat}
    {x y : Call π} (h : Moves w a call x) (h' : Moves w a other y) : call = other := by
  cases h <;> cases h' <;> rfl

section Step

variable [DecidableEq π] {w w' : World π} {a : Action π}

omit [DecidableEq π] in
theorem finish_slot {call : Nat} {process : π} {last : Option Entry} {other : Nat} {y : Call π}
    (h : (w.finish call process last).calls other = some y) :
    (other = call ∧ ∃ e, last = some e ∧ y = ⟨process, .last e⟩) ∨ w.calls other = some y := by
  cases last with
  | none => exact Or.inr (Slots.update_none h).2
  | some e =>
    rcases Slots.update_some h with ⟨rfl, rfl⟩ | ⟨-, h⟩
    · exact Or.inl ⟨rfl, e, rfl, rfl⟩
    · exact Or.inr h

omit [DecidableEq π] in
theorem finish_done {call : Nat} {process : π} {last : Option Entry} {y : Call π}
    (h : (w.finish call process last).calls call = some y) :
    ∃ e, last = some e ∧ y = ⟨process, .last e⟩ := by
  simp only [World.finish, World.setCall, Function.update_self] at h
  obtain ⟨e, he, hy⟩ := Option.map_eq_some_iff.mp h
  exact ⟨e, he, hy.symm⟩

/-- Every call stays where it was, but for one that the action moves. -/
theorem call_step {call : Nat} {y : Call π} (h : w.step a = some w')
    (hy : w'.calls call = some y) : w.calls call = some y ∨ Moves w a call y := by
  cases step_effect h with
  | caliband id status | expire | attach process ids => exact Or.inl hy
  | restart process => exact Or.inl (Option.filter_eq_some_iff.mp hy).1
  | poll other process slot =>
    rcases Slots.update_some hy with ⟨rfl, rfl⟩ | ⟨-, hold⟩
    · exact Or.inr (.acquired call process slot)
    · exact Or.inl ((congrFun (tryAcquire_frame w process).2.1 call).symm.trans hold)
  | unreachable other process own reason slot =>
    unfold World.markUnreachable at hy
    split at hy
    · rcases finish_slot hy with ⟨rfl, e, he, rfl⟩ | hold
      · split at he <;> cases he
        exact Or.inr (.unreachable call process own reason _ slot)
      · exact Or.inl hold
    · rcases finish_slot hy with ⟨rfl, e, he, rfl⟩ | hold
      · cases he
      · exact Or.inl hold
  | list other process own slot =>
    rcases Slots.update_some hy with ⟨rfl, rfl⟩ | ⟨-, hold⟩
    · exact Or.inr (.listed call process own slot)
    · exact Or.inl hold
  | readPrior other process own records slot =>
    rcases Slots.update_some hy with ⟨rfl, rfl⟩ | ⟨-, hold⟩
    · exact Or.inr (.compared call process own records slot)
    · exact Or.inl hold
  | diff other process own records prior slot =>
    rcases Slots.update_some hy with ⟨rfl, rfl⟩ | ⟨-, hold⟩
    · exact Or.inr (.reporting call process own records prior slot)
    · exact Or.inl hold
  | emit other process own records e pending slot =>
    rcases Slots.update_some hy with ⟨rfl, rfl⟩ | ⟨-, hold⟩
    · exact Or.inr (.reported call process own records e pending slot)
    · exact Or.inl hold
  | replace other process own records slot =>
    rcases finish_slot hy with ⟨rfl, e, he, rfl⟩ | hold
    · split at he <;> cases he
      exact Or.inr (.recovered call process own records _ slot)
    · exact Or.inl hold
  | spawn other process id slot =>
    rcases Slots.update_some hy with ⟨rfl, rfl⟩ | ⟨-, hold⟩
    · exact Or.inr (.spawned call process id slot)
    · exact Or.inl hold
  | rm other process id slot =>
    rcases Slots.update_some hy with ⟨rfl, rfl⟩ | ⟨-, hold⟩
    · exact Or.inr (.resolved call process id slot)
    · exact Or.inl hold
  | removed other process id slot =>
    rcases Slots.update_some hy with ⟨rfl, rfl⟩ | ⟨-, hold⟩
    · exact Or.inr (.removed call process id slot)
    · exact Or.inl hold
  | last other process e slot => exact Or.inl (Slots.update_none hy).2
  | refused other process id slot => exact Or.inl (Slots.update_none hy).2
  | prune other process id slot =>
    unfold World.prune at hy
    split at hy
    · rename_i hlisted
      rcases Slots.update_some hy with ⟨rfl, rfl⟩ | ⟨-, hold⟩
      · exact Or.inr (.pruned call process id slot (by simpa using hlisted))
      · exact Or.inl hold
    · exact Or.inl (Slots.update_none hy).2
  | acquireGone other process id slot =>
    rcases finish_slot hy with ⟨rfl, e, he, rfl⟩ | hold
    · cases (Option.ite_none_right_eq_some.mp he).2
      exact Or.inr (.gone call process id slot)
    · exact Or.inl ((congrFun (tryAcquire_frame w process).2.1 call).symm.trans hold)

theorem emit_last_done {call : Nat} {process : π} {e : Entry}
    (hx : w.calls call = some ⟨process, .last e⟩) (h : w.step (.emit call) = some w') :
    w'.calls call = none := by
  simp only [World.step, hx, Option.bind_some, Option.some.injEq] at h
  subst h
  exact Function.update_self ..

theorem emit_reporting_next {call : Nat} {process : π} {own : Bool} {records : Roster} {e : Entry}
    {pending : List Entry}
    (hx : w.calls call = some ⟨process, .reporting own records (e :: pending)⟩)
    (h : w.step (.emit call) = some w') :
    w'.calls call = some ⟨process, .reporting own records pending⟩ := by
  simp only [World.step, hx, Option.bind_some, Option.some.injEq] at h
  subst h
  exact Function.update_self ..

theorem restart_calls {process : π} (h : w.step (.restart process) = some w') {call : Nat}
    {x : Call π} (hx : w'.calls call = some x) : x.process ≠ process := by
  cases h
  exact of_decide_eq_true (Option.filter_eq_some_iff.mp hx).2

/-- What a reconcile has left to report it had before, or has just computed. -/
theorem reporting_back {call : Nat} {process : π} {own : Bool} {records : Roster}
    {pending : List Entry} (h : w.step a = some w')
    (hx : w'.calls call = some ⟨process, .reporting own records pending⟩) :
    (a ≠ .emit call ∧ w.calls call = some ⟨process, .reporting own records pending⟩) ∨
    (a = .emit call ∧ ∃ e, w.calls call = some ⟨process, .reporting own records (e :: pending)⟩) ∨
    (a = .diff call ∧ ∃ prior, w.calls call = some ⟨process, .compared own records prior⟩ ∧
      pending = diff own prior (w.attached process) records) := by
  rcases call_step h hx with hold | hm
  · refine Or.inl ⟨?_, hold⟩
    intro he
    subst he
    cases pending with
    | nil => simp [World.step, hold] at h
    | cons e rest =>
      have hnext := (emit_reporting_next hold h).symm.trans hx
      simp at hnext
  · cases hm with
    | reported _ _ _ _ e _ slot => exact Or.inr (Or.inl ⟨rfl, e, slot⟩)
    | reporting _ _ _ _ prior slot => exact Or.inr (Or.inr ⟨rfl, prior, slot, rfl⟩)

theorem list_slot {call : Nat} (h : w.step (.list call) = some w') :
    ∃ process own, w.calls call = some ⟨process, .acquired own⟩ := by
  cases step_effect h with
  | list _ process own slot => exact ⟨process, own, slot⟩

theorem diff_slot {call : Nat} (h : w.step (.diff call) = some w') :
    ∃ process own records prior, w.calls call = some ⟨process, .compared own records prior⟩ := by
  cases step_effect h with
  | diff _ process own records prior slot => exact ⟨process, own, records, prior, slot⟩

theorem replace_slot {call : Nat} (h : w.step (.replace call) = some w') :
    ∃ process own records, w.calls call = some ⟨process, .reporting own records []⟩ := by
  cases step_effect h with
  | replace _ process own records slot => exact ⟨process, own, records, slot⟩

/-- What an action does to the snapshots. -/
inductive SnapshotStep (w w' : World π) : Action π → Prop
  | same {a : Action π} (quiet : ∀ call, a ≠ .replace call ∧ a ≠ .prune call)
      (alive : ∀ process, a ≠ .restart process) (eq : w'.snapshot = w.snapshot) :
      SnapshotStep w w' a
  | restart (process : π) (eq : w'.snapshot = Function.update w.snapshot process []) :
      SnapshotStep w w' (.restart process)
  | replace (call : Nat) (process : π) (own : Bool) (records : Roster)
      (slot : w.calls call = some ⟨process, .reporting own records []⟩)
      (eq : w'.snapshot = Function.update w.snapshot process records) :
      SnapshotStep w w' (.replace call)
  | prune (call : Nat) (process : π) (id : String)
      (slot : w.calls call = some ⟨process, .removed id⟩)
      (eq : w'.snapshot = Function.update w.snapshot process
        ((w.snapshot process).filter fun a => a.1 ≠ id)) : SnapshotStep w w' (.prune call)

theorem snapshot_step (h : w.step a = some w') : SnapshotStep w w' a := by
  cases step_effect h with
  | restart process => exact .restart process rfl
  | replace call process own records slot => exact .replace call process own records slot rfl
  | prune call process id slot =>
    exact .prune call process id slot (prune_frame w call process id).2.1
  | poll call process slot =>
    exact .same (by simp) (by simp) (tryAcquire_frame w process).2.2.1
  | acquireGone call process id slot =>
    exact .same (by simp) (by simp) (tryAcquire_frame w process).2.2.1
  | unreachable call process own reason slot =>
    exact .same (by simp) (by simp) (markUnreachable_frame w call process own reason).2.1
  | _ => exact .same (by simp) (by simp) rfl

theorem register_nodup {registry : Roster} (h : (registry.map Prod.fst).Nodup) (id : String)
    (status : Option AgentStatus) : ((register registry id status).map Prod.fst).Nodup := by
  have hkept : ((registry.filter fun a => a.1 ≠ id).map Prod.fst).Nodup :=
    h.sublist (List.filter_sublist.map _)
  unfold register
  rw [List.map_append]
  apply List.Nodup.append hkept
  · cases status <;> simp
  · cases status with
    | none => simp
    | some s =>
      rw [Option.toList_some, List.map_singleton, List.map_singleton, List.disjoint_singleton]
      simp

/-- What an action does to what caliband would list. -/
inductive RegistryStep (w w' : World π) : Action π → Prop
  | same {a : Action π} (quiet : ∀ id status, a ≠ .caliband id status)
      (eq : w'.registry = w.registry) : RegistryStep w w' a
  | caliband (id : String) (status : Option AgentStatus)
      (eq : w'.registry = register w.registry id status) : RegistryStep w w' (.caliband id status)
  | spawn (call : Nat) (process : π) (id : String)
      (eq : w'.registry = register w.registry id (some .spawning)) :
      RegistryStep w w' (.spawn call process id)
  | remove (call : Nat) (id : String) (eq : w'.registry = register w.registry id none) :
      RegistryStep w w' (.remove call true)

theorem registry_step (h : w.step a = some w') : RegistryStep w w' a := by
  cases step_effect h with
  | caliband id status => exact .caliband id status rfl
  | spawn call process id slot => exact .spawn call process id rfl
  | removed call process id slot => exact .remove call id rfl
  | prune call process id slot => exact .same (by simp) (prune_frame w call process id).2.2
  | poll call process slot => exact .same (by simp) (tryAcquire_frame w process).2.2.2
  | acquireGone call process id slot => exact .same (by simp) (tryAcquire_frame w process).2.2.2
  | unreachable call process own reason slot =>
    exact .same (by simp) (markUnreachable_frame w call process own reason).2.2
  | _ => exact .same (by simp) rfl

theorem registry_nodup (h : w.step a = some w') (hw : (w.registry.map Prod.fst).Nodup) :
    (w'.registry.map Prod.fst).Nodup := by
  cases registry_step h with
  | same quiet eq => exact eq ▸ hw
  | caliband id status eq => exact eq ▸ register_nodup hw id status
  | spawn call process id eq => exact eq ▸ register_nodup hw id _
  | remove call id eq => exact eq ▸ register_nodup hw id none

theorem mem_register {registry : Roster} {id other : String} {status : Option AgentStatus}
    {s : AgentStatus} (h : (other, s) ∈ register registry id status) :
    (other ≠ id ∧ (other, s) ∈ registry) ∨ (other = id ∧ status = some s) := by
  rcases List.mem_append.mp h with h | h
  · obtain ⟨hmem, hne⟩ := List.mem_filter.mp h
    exact Or.inl ⟨of_decide_eq_true hne, hmem⟩
  · obtain ⟨s', hs', heq⟩ := List.mem_map.mp h
    cases heq
    exact Or.inr ⟨rfl, Option.mem_toList.mp hs'⟩

omit [DecidableEq π] in
/-- The call that an action takes further. -/
def subject : Action π → Option Nat
  | .poll call _ | .unreachable call _ | .list call | .readPrior call | .diff call | .emit call
  | .replace call | .spawn call _ _ | .rm call _ _ | .remove call _ | .prune call
  | .acquireGone call => some call
  | .caliband .. | .expire | .attach .. | .restart _ => none

/-- An action leaves the other calls alone, unless their process dies. -/
theorem calls_frame {call : Nat} (h : w.step a = some w') (hrestart : ∀ process, a ≠ .restart process)
    (hother : subject a ≠ some call) : w'.calls call = w.calls call := by
  have hne {other : Nat} (he : subject a = some other) : call ≠ other := by
    rintro rfl
    exact hother he
  cases step_effect h with
  | caliband id status | expire | attach process ids => rfl
  | restart process => exact absurd rfl (hrestart process)
  | poll other process slot | acquireGone other process id slot =>
    refine (Function.update_of_ne (hne rfl) ..).trans ?_
    exact congrFun (tryAcquire_frame w process).2.1 call
  | unreachable other process own reason slot =>
    unfold World.markUnreachable
    split <;> exact Function.update_of_ne (hne rfl) ..
  | prune other process id slot =>
    unfold World.prune
    split <;> exact Function.update_of_ne (hne rfl) ..
  | _ => exact Function.update_of_ne (hne rfl) ..

/-- A reconcile that has begun to report ends with the replacement of its snapshot. -/
theorem reporting_stays {call : Nat} {process : π} {own : Bool} {records : Roster}
    {pending : List Entry} (h : w.step a = some w')
    (hx : w.calls call = some ⟨process, .reporting own records pending⟩)
    (hreplace : a ≠ .replace call) (hrestart : a ≠ .restart process) :
    ∃ rest, w'.calls call = some ⟨process, .reporting own records rest⟩ := by
  by_cases hdies : ∃ q, a = .restart q
  · obtain ⟨q, rfl⟩ := hdies
    cases h
    refine ⟨pending, Option.filter_eq_some_iff.mpr ⟨hx, decide_eq_true ?_⟩⟩
    exact fun he => hrestart (congrArg Action.restart he.symm)
  · push Not at hdies
    by_cases hother : subject a = some call
    · cases step_effect h with
      | emit _ q own' records' e rest slot =>
        cases hother
        cases hx.symm.trans slot
        exact ⟨rest, Function.update_self ..⟩
      | replace _ q own' records' slot =>
        cases hother
        exact absurd rfl hreplace
      | caliband | expire | attach | restart => cases hother
      | poll _ _ slot | unreachable _ _ _ _ slot | list _ _ _ slot | readPrior _ _ _ _ slot
      | diff _ _ _ _ _ slot | last _ _ _ slot | spawn _ _ _ slot | rm _ _ _ slot
      | removed _ _ _ slot | refused _ _ _ slot | prune _ _ _ slot | acquireGone _ _ _ slot =>
        cases hother
        cases hx.symm.trans slot
    · exact ⟨pending, (calls_frame h hdies hother).trans hx⟩

end Step

end Prospero.Proofs.Reconcile
