import Prospero.Lib.Feed
import Prospero.Proofs.Lifecycle

namespace Prospero.Proofs.SnapshotFeed
open Feed (Change)
open Prospero.Reconcile (Entry Phase Roster diff diffGone diffRecord)
open Prospero.Proofs.Reconcile
open Prospero.Proofs.Lifecycle

/-- A removal has taken the agent off the snapshot and is yet to tell of it. -/
def Vacated (v : Reconcile.World Unit) (id : String) : Prop :=
  ∃ call x, v.calls call = some x ∧ Vacates x.phase id

/-- The agents that are new to the snapshot are not attached: their reconcile
announces them. -/
def Announced (v : Reconcile.World Unit) : Reconcile.Action Unit → Prop
  | .diff call => ∀ x own records prior, v.calls call = some x →
      x.phase = .compared own records prior → ∀ id, id ∈ records.map Prod.fst →
      id ∉ prior.map Prod.fst → id ∉ v.attached ()
  | _ => True

/-- What an event is in the feed. The status of an agent that is discovered is
not told with it. -/
def Renders (ev : String × Entry) (c : Change (String × String) AgentStatus) : Prop :=
  match ev.2.kind with
  | .agentDiscovered => ∃ status, c = .appear (ev.1, ev.2.agentId) status
  | .statusChanged _ toStatus => c = .change (ev.1, ev.2.agentId) toStatus
  | .agentGone => c = .vanish (ev.1, ev.2.agentId)
  | _ => c = .skip

/-- An event of this kind takes an agent from one status to another. -/
def Turns : EventKind → Option AgentStatus → Option AgentStatus → Prop
  | .agentDiscovered, old, new => old = none ∧ new ≠ none
  | .statusChanged _ toStatus, old, new => old ≠ none ∧ new = some toStatus
  | .agentGone, _, new => new = none
  | _, _, _ => False

/-- What a reconcile that is at its events has told of an agent: it has nothing
to tell any more, or still has the one event that takes it to what was listed. -/
inductive Reported (cs : List (Change (String × String) AgentStatus)) (name : String)
    (snapshot records : Roster) (pending : List Entry) (id : String) : Prop
  | told (left : kindsOf pending id = [])
      (now : Feed.replay (fun _ => none) cs (name, id) = records.lookup id)
      (trails : Feed.Trails cs (name, id) (snapshot.lookup id))
  | untold (kind : EventKind) (left : kindsOf pending id = [kind])
      (now : Feed.replay (fun _ => none) cs (name, id) = snapshot.lookup id)
      (turns : Turns kind (snapshot.lookup id) (records.lookup id))

/-- The feed tells of a workspace's snapshot, and between a reconcile's list and
its replacement of the snapshot runs ahead of it. -/
structure Mirrors (cs : List (Change (String × String) AgentStatus)) (name : String)
    (v : Reconcile.World Unit) : Prop where
  settled : (∀ call x, v.calls call = some x → ¬Reporting x.phase) → ∀ id, ¬Vacated v id →
    Feed.replay (fun _ => none) cs (name, id) = (v.snapshot ()).lookup id
  reporting : ∀ call own records pending,
    v.calls call = some ⟨(), .reporting own records pending⟩ →
    ∀ id, Reported cs name (v.snapshot ()) records pending id

section Diff

variable {prior records : Roster} {attachedNow : List String} {id : String}

/-- Where every new agent is announced, the events of a reconcile are what makes
of the snapshot what was listed. -/
theorem diff_reports {cs : List (Change (String × String) AgentStatus)} {name : String}
    (hrecords : (records.map Prod.fst).Nodup) (hprior : (prior.map Prod.fst).Nodup)
    (hnew : id ∈ records.map Prod.fst → id ∉ prior.map Prod.fst → id ∉ attachedNow)
    (hnow : Feed.replay (fun _ => none) cs (name, id) = prior.lookup id) :
    Reported cs name prior records (diff true prior attachedNow records) id := by
  by_cases hid : id ∈ records.map Prod.fst
  · obtain ⟨⟨i, s⟩, hs, rfl⟩ := List.mem_map.mp hid
    have hlisted : records.lookup i = some s := by
      obtain ⟨s', hs'⟩ := Option.ne_none_iff_exists'.mp (mt lookup_none.mp (not_not.mpr hid))
      have heq := List.inj_on_of_nodup_map hrecords (mem_of_lookup hs') hs rfl
      cases heq
      exact hs'
    have hkinds : kindsOf (diff true prior attachedNow records) i =
      (diffRecord true prior attachedNow (i, s)).toList.map Entry.kind :=
        kindsOf_diff_listed hrecords hs
    cases hp : prior.lookup i with
    | none =>
      have hfree := hnew hid (lookup_none.mp hp)
      refine .untold .agentDiscovered ?_ hnow ⟨hp, by simp [hlisted]⟩
      rw [hkinds]
      simp [diffRecord, hp, hfree]
    | some old =>
      by_cases hne : old = s
      · refine .told ?_ (by rw [hnow, hp, hlisted, hne]) (.of_eq hnow)
        rw [hkinds]
        simp [diffRecord, hp, hne]
      · refine .untold (.statusChanged old s) ?_ hnow ⟨by simp [hp], hlisted⟩
        rw [hkinds]
        simp [diffRecord, hp, hne]
  · have hkinds : kindsOf (diff true prior attachedNow records) id =
      if true ∧ id ∈ prior.map Prod.fst then [.agentGone] else [] :=
        kindsOf_diff_unlisted hprior hid
    by_cases hmem : id ∈ prior.map Prod.fst
    · refine .untold .agentGone ?_ hnow (lookup_none.mpr hid)
      rw [hkinds, if_pos ⟨rfl, hmem⟩]
    · refine .told ?_ ?_ (.of_eq hnow)
      · rw [hkinds, if_neg fun h => hmem h.2]
      · rw [hnow, lookup_none.mpr hmem, lookup_none.mpr hid]

end Diff

section Emit

variable {cs : List (Change (String × String) AgentStatus)} {name : String}
  {v v' : Reconcile.World Unit} {a : Reconcile.Action Unit}

/-- What a step publishes, and what it is in the feed. -/
inductive Told (cs : List (Change (String × String) AgentStatus)) (name : String)
    (v v' : Reconcile.World Unit) :
    Reconcile.Action Unit → List (Change (String × String) AgentStatus) → Prop
  | nothing {a : Reconcile.Action Unit} (quiet : emits v a = none) : Told cs name v v' a []
  | skipped (call : Nat) (e : Entry) (slot : v.calls call = some ⟨(), .last e⟩)
      (kind : e.kind ≠ .agentGone) (renders : Renders (name, e) .skip) :
      Told cs name v v' (.emit call) [.skip]
  | gone (call : Nat) (id : String) (slot : v.calls call = some ⟨(), .last ⟨id, .agentGone⟩⟩)
      (done : v'.calls call = none) : Told cs name v v' (.emit call) [.vanish (name, id)]
  | reported (call : Nat) (own : Bool) (records : Roster) (e : Entry) (pending : List Entry)
      (c : Change (String × String) AgentStatus)
      (slot : v.calls call = some ⟨(), .reporting own records (e :: pending)⟩)
      (moved : v'.calls call = some ⟨(), .reporting own records pending⟩)
      (renders : Renders (name, e) c)
      (about : ∀ key, Feed.About c key ↔ key = (name, e.agentId))
      (fits : Feed.Fits (Feed.replay (fun _ => none) cs) c)
      (left : kindsOf pending e.agentId = [])
      (old : Feed.replay (fun _ => none) cs (name, e.agentId) = (v.snapshot ()).lookup e.agentId)
      (now : Feed.apply (Feed.replay (fun _ => none) cs) c (name, e.agentId) =
        records.lookup e.agentId) :
      Told cs name v v' (.emit call) [c]

/-- An event that is about to be told takes its agent to what was listed. -/
theorem turns_change {view : String × String → Option AgentStatus} {e : Entry}
    {old new : Option AgentStatus} (hview : view (name, e.agentId) = old)
    (h : Turns e.kind old new) : ∃ c, Renders (name, e) c ∧
      (∀ key, Feed.About c key ↔ key = (name, e.agentId)) ∧ Feed.Fits view c ∧
      Feed.apply view c (name, e.agentId) = new := by
  obtain ⟨id, kind⟩ := e
  cases kind with
  | agentDiscovered =>
    obtain ⟨hold, hnew⟩ := h
    obtain ⟨s, rfl⟩ := Option.ne_none_iff_exists'.mp hnew
    exact ⟨.appear (name, id) s, ⟨s, rfl⟩, fun _ => eq_comm, hview.trans hold,
      Function.update_self ..⟩
  | statusChanged fromStatus toStatus =>
    obtain ⟨hold, rfl⟩ := h
    obtain ⟨s, rfl⟩ := Option.ne_none_iff_exists'.mp hold
    refine ⟨.change (name, id) toStatus, rfl, fun _ => eq_comm, ?_, ?_⟩
    · intro hnone
      exact hold (hview.symm.trans hnone)
    · simp only at hview
      simp [Feed.apply, hview]
  | agentGone =>
    obtain rfl := h
    exact ⟨.vanish (name, id), rfl, fun _ => eq_comm, trivial, Function.update_self ..⟩
  | _ => exact h.elim

theorem step_told (h : Mirrors cs name v) (hcalm : Calm v) (hs : v.step a = some v') :
    ∃ cs', Told cs name v v' a cs' := by
  cases he : emits v a with
  | none => exact ⟨[], .nothing he⟩
  | some e =>
    obtain ⟨call, process, rfl, ⟨own, records, pending, hx⟩ | hx⟩ := emits_some he
    · have hmoved := emit_reporting_next hx hs
      cases h.reporting call own records (e :: pending) hx e.agentId with
      | told left =>
        rw [kindsOf_cons_self] at left
        cases left
      | untold kind left now turns =>
        rw [kindsOf_cons_self] at left
        obtain ⟨rfl, hleft⟩ := List.cons.inj left
        obtain ⟨c, hrenders, habout, hfits, happly⟩ := turns_change now turns
        exact ⟨[c], .reported call own records e pending c hx hmoved hrenders habout hfits hleft
          now happly⟩
    · obtain ⟨id, kind⟩ := e
      rcases hcalm.phases call _ hx with hk | hk | ⟨state, hk⟩ <;> simp only at hk <;> subst hk
      · exact ⟨[.skip], .skipped call _ hx (by simp) rfl⟩
      · exact ⟨[.vanish (name, id)], .gone call id hx (emit_last_done hx hs)⟩
      · exact ⟨[.skip], .skipped call _ hx (by simp) rfl⟩

/-- A removal that has taken its agent off the snapshot goes on to tell of it. -/
theorem vacates_stays (hs : v.step a = some v') (halive : ∀ process, a ≠ .restart process)
    {call : Nat} {x : Reconcile.Call Unit} {id : String} (hx : v.calls call = some x)
    (hv : Vacates x.phase id) : Vacated v' id ∨
      a = .emit call ∧ x = ⟨(), .last ⟨id, .agentGone⟩⟩ := by
  by_cases hother : subject a = some call
  · cases step_effect hs with
    | acquireGone other process pruned slot =>
      cases hother
      cases hx.symm.trans slot
      obtain rfl : id = pruned := hv
      have hown : (v.tryAcquire process).2 = true := by
        unfold Reconcile.World.tryAcquire
        split <;> simp
      refine Or.inl ⟨call, ⟨process, .last ⟨id, .agentGone⟩⟩, ?_, rfl⟩
      simp [Reconcile.World.acquireGone, hown, Reconcile.World.finish, Reconcile.World.setCall]
    | last other process e slot =>
      cases hother
      cases hx.symm.trans slot
      obtain ⟨i, kind⟩ := e
      cases kind with
      | agentGone =>
        obtain rfl : id = i := hv
        exact Or.inr ⟨rfl, rfl⟩
      | _ => exact hv.elim
    | caliband | expire | attach | restart => cases hother
    | poll _ _ slot | spawn _ _ _ slot | rm _ _ _ slot =>
      cases hother
      cases hx.symm.trans slot
    | unreachable _ _ _ _ slot | list _ _ _ slot | readPrior _ _ _ _ slot | diff _ _ _ _ _ slot
    | emit _ _ _ _ _ _ slot | replace _ _ _ _ slot | removed _ _ _ slot | refused _ _ _ slot
    | prune _ _ _ slot =>
      cases hother
      cases hx.symm.trans slot
      exact hv.elim
  · exact Or.inl ⟨call, x, (calls_frame hs halive hother).trans hx, hv⟩

end Emit

section Mirror

variable {cs cs' : List (Change (String × String) AgentStatus)} {name : String}
  {v v' : Reconcile.World Unit} {a : Reconcile.Action Unit}

/-- Only the event of its own reconcile, or of its removal, is about an agent. -/
theorem Told.about (h : Told cs name v v' a cs') {c : Change (String × String) AgentStatus}
    (hc : c ∈ cs') {key : String × String} (habout : Feed.About c key) : key.1 = name := by
  cases h with
  | nothing quiet => cases hc
  | skipped call e slot kind renders =>
    cases List.mem_singleton.mp hc
    exact habout.elim
  | gone call id slot done =>
    cases List.mem_singleton.mp hc
    exact (congrArg Prod.fst habout).symm
  | reported call own records e pending d slot moved renders about fits left old now =>
    cases List.mem_singleton.mp hc
    exact congrArg Prod.fst ((about key).mp habout)

theorem Told.renders (h : Told cs name v v' a cs') :
    List.Forall₂ Renders ((emits v a).toList.map fun e => (name, e)) cs' := by
  cases h with
  | nothing quiet =>
    rw [quiet]
    exact .nil
  | skipped call e slot kind renders =>
    have he : emits v (.emit call) = some e := by simp [emits, slot]
    rw [he]
    exact .cons renders .nil
  | gone call id slot done =>
    have he : emits v (.emit call) = some ⟨id, .agentGone⟩ := by simp [emits, slot]
    rw [he]
    exact .cons rfl .nil
  | reported call own records e pending c slot moved renders about fits left old now =>
    have he : emits v (.emit call) = some e := by simp [emits, slot]
    rw [he]
    exact .cons renders .nil

theorem Told.valid (h : Told cs name v v' a cs') :
    Feed.Valid (Feed.replay (fun _ => none) cs) cs' := by
  cases h with
  | nothing quiet => trivial
  | skipped call e slot kind renders => exact ⟨trivial, trivial⟩
  | gone call id slot done => exact ⟨trivial, trivial⟩
  | reported call own records e pending c slot moved renders about fits => exact ⟨fits, trivial⟩

theorem Reported.append {snapshot records : Roster} {pending : List Entry} {id : String}
    (h : Reported cs name snapshot records pending id)
    (hcs' : ∀ c ∈ cs', ¬Feed.About c (name, id)) :
    Reported (cs ++ cs') name snapshot records pending id := by
  have hsame : Feed.replay (fun _ => none) (cs ++ cs') (name, id) =
      Feed.replay (fun _ => none) cs (name, id) := by
    rw [Feed.replay_append]
    exact Feed.replay_not_about hcs'
  cases h with
  | told left now trails => exact .told left (hsame.trans now) (trails.append hcs')
  | untold kind left now turns => exact .untold kind left (hsame.trans now) turns

/-- Nothing that is told of other workspaces matters. -/
theorem Mirrors.append (h : Mirrors cs name v)
    (hcs' : ∀ c ∈ cs', ∀ id, ¬Feed.About c (name, id)) : Mirrors (cs ++ cs') name v where
  settled hquiet id hkept := by
    rw [Feed.replay_append]
    refine (Feed.replay_not_about fun c hc => hcs' c hc id).trans ?_
    exact h.settled hquiet id hkept
  reporting call own records pending hx id :=
    (h.reporting call own records pending hx id).append fun c hc => hcs' c hc id

theorem vacated_removing {id : String} (h : Vacated v id) :
    ∃ call x, v.calls call = some x ∧ Removing x.phase := by
  obtain ⟨call, x, hx, hv⟩ := h
  exact ⟨call, x, hx, Or.inr ⟨id, hv⟩⟩

/-- While a reconcile is under way, no other reports and no removal is. -/
theorem apart_from (hcalm : Calm v) {call : Nat} {x : Reconcile.Call Unit}
    (hx : v.calls call = some x) (hr : Reconciling x.phase) :
    (∀ other y, v.calls other = some y → other ≠ call → ¬Reporting y.phase) ∧
      ∀ other y, v.calls other = some y → ¬Removing y.phase := by
  constructor
  · intro other y hy hne hrep
    exact (hcalm.alone call other x y hne.symm hx hy hr).1 hrep.reconciling
  · intro other y hy hrem
    by_cases he : call = other
    · subst he
      cases hx.symm.trans hy
      rcases hrem with ⟨id, hid⟩ | ⟨id, hid⟩
      · rw [hid] at hr
        exact hr
      · cases hphase : x.phase <;> rw [hphase] at hid hr
        all_goals first | exact hid | exact hr
    · exact (hcalm.alone call other x y he hx hy hr).2 hrem

theorem lookup_pruned (snapshot : Roster) (pruned id : String) :
    (snapshot.filter fun a => a.1 ≠ pruned).lookup id =
      if id = pruned then none else snapshot.lookup id := by
  split_ifs with he
  · subst he
    apply lookup_none.mpr
    simp
  · induction snapshot with
    | nil => rfl
    | cons a snapshot ih =>
      by_cases ha : a.1 = pruned
      · have hne : (id == a.1) = false := beq_eq_false_iff_ne.mpr (ha ▸ he)
        rw [List.filter_cons_of_neg (by simp [ha]), ih, List.lookup_cons, hne]
      · rw [List.filter_cons_of_pos (by simpa using ha), List.lookup_cons, List.lookup_cons, ih]

/-- The removals that have yet to tell of an agent stay so, but for one that does. -/
theorem Told.kept (htold : Told cs name v v' a cs') (hs : v.step a = some v')
    (halive : ∀ process, a ≠ .restart process) {id : String} (h : Vacated v id) :
    Vacated v' id ∨ cs' = [.vanish (name, id)] := by
  obtain ⟨call, x, hx, hv⟩ := h
  rcases vacates_stays hs halive hx hv with hstays | ⟨rfl, rfl⟩
  · exact Or.inl hstays
  · cases htold with
    | nothing quiet => simp [emits, hx] at quiet
    | skipped _ e slot kind renders =>
      cases hx.symm.trans slot
      exact absurd rfl kind
    | gone _ gone slot done =>
      cases hx.symm.trans slot
      exact Or.inr rfl
    | reported _ own records e pending c slot => cases hx.symm.trans slot

/-- A snapshot between two replacements is what the feed comes to. -/
theorem Mirrors.settled_step (h : Mirrors cs name v) (hcalm : Calm v) (hs : v.step a = some v')
    (halive : ∀ process, a ≠ .restart process) (htold : Told cs name v v' a cs')
    (hquiet : ∀ call x, v'.calls call = some x → ¬Reporting x.phase) {id : String}
    (hkept : ¬Vacated v' id) :
    Feed.replay (fun _ => none) (cs ++ cs') (name, id) = (v'.snapshot ()).lookup id := by
  have hnot : cs' ≠ [.vanish (name, id)] → ¬Vacated v id := by
    intro hne hvacated
    rcases htold.kept hs halive hvacated with hstays | hgone
    · exact hkept hstays
    · exact hne hgone
  cases snapshot_step hs with
  | same quiet alive eq =>
    have hbefore := quiet_before hs (fun call => (quiet call).1) halive hquiet
    rw [eq, Feed.replay_append]
    cases htold with
    | nothing quiet => exact h.settled hbefore id (hnot (by simp))
    | skipped call e slot kind renders => exact h.settled hbefore id (hnot (by simp))
    | gone call gone slot done =>
      by_cases he : id = gone
      · subst he
        rw [lookup_none.mpr (hcalm.vacated call _ id slot rfl).1]
        exact Function.update_self ..
      · refine (Function.update_of_ne (by simp [he]) ..).trans ?_
        exact h.settled hbefore id (hnot (by simp [Ne.symm he]))
    | reported call own records e pending c slot moved => exact absurd trivial (hquiet call _ moved)
  | restart process eq => exact absurd rfl (halive process)
  | replace call process own records slot eq =>
    rw [eq, Function.update_self]
    cases htold with
    | nothing quiet =>
      rw [List.append_nil]
      cases h.reporting call own records [] slot id with
      | told left now trails => exact now
      | untold kind left => cases left
  | prune call process pruned slot eq =>
    have hbefore := quiet_before hs (by simp) (by simp) hquiet
    rw [eq, Function.update_self, lookup_pruned]
    cases htold with
    | nothing quiet =>
      rw [List.append_nil, h.settled hbefore id (hnot (by simp))]
      split_ifs with he
      · subst he
        apply lookup_none.mpr
        intro hmem
        apply hkept
        cases step_effect hs with
        | prune _ process' _ slot' =>
          refine ⟨call, ⟨process', .pruned id⟩, ?_, rfl⟩
          cases slot.symm.trans slot'
          have hlisted : ((v.snapshot ()).any fun a => decide (a.1 = id)) = true := by
            simpa using hmem
          simp [Reconcile.World.prune, hlisted, Reconcile.World.goTo, Reconcile.World.setCall]
      · rfl

/-- While a reconcile is under way, and until it replaces the snapshot, nothing
else changes it. -/
theorem snapshot_kept (hcalm : Calm v) (hs : v.step a = some v') {call : Nat}
    {x : Reconcile.Call Unit} (hold : v.calls call = some x) (hr : Reconciling x.phase) {own : Bool}
    {records : Roster} {pending : List Entry}
    (hx : v'.calls call = some ⟨(), .reporting own records pending⟩) :
    v'.snapshot () = v.snapshot () := by
  obtain ⟨hothers, hremovals⟩ := apart_from hcalm hold hr
  cases snapshot_step hs with
  | same quiet alive eq => rw [eq]
  | restart process eq => exact absurd rfl (restart_calls hs hx)
  | replace other process own' records' slot eq =>
    by_cases he : other = call
    · subst he
      cases step_effect hs with
      | replace _ _ _ _ slot' =>
        obtain ⟨e, -, he⟩ := finish_done hx
        cases he
    · exact absurd trivial (hothers other _ slot he)
  | prune other process pruned slot eq =>
    exact absurd (Or.inl ⟨pruned, rfl⟩) (hremovals other _ slot)

/-- While a reconcile is under way, what others tell is about none of its agents. -/
theorem Told.elsewhere (htold : Told cs name v v' a cs') (hcalm : Calm v) {call : Nat}
    {x : Reconcile.Call Unit} (hold : v.calls call = some x) (hr : Reconciling x.phase)
    (hnot : a ≠ .emit call) (id : String) : ∀ c ∈ cs', ¬Feed.About c (name, id) := by
  obtain ⟨hothers, hremovals⟩ := apart_from hcalm hold hr
  intro c hc habout
  cases htold with
  | nothing quiet => cases hc
  | skipped other e slot kind renders =>
    cases List.mem_singleton.mp hc
    exact habout
  | gone other gone slot done => exact hremovals other _ slot (Or.inr ⟨gone, rfl⟩)
  | reported other own' records' e pending' d slot moved =>
    have hne : other ≠ call := by
      intro he
      exact hnot (congrArg _ he)
    exact hothers other _ slot hne trivial

/-- An event that a reconcile tells settles its agent, and concerns no other. -/
theorem Told.reports {call : Nat} (htold : Told cs name v v' (.emit call) cs') {own : Bool}
    {records : Roster} {e : Entry} {pending : List Entry}
    (hold : v.calls call = some ⟨(), .reporting own records (e :: pending)⟩) {id : String}
    (h : Reported cs name (v.snapshot ()) records (e :: pending) id) :
    Reported (cs ++ cs') name (v.snapshot ()) records pending id := by
  cases htold with
  | nothing quiet => simp [emits, hold] at quiet
  | skipped _ e' slot => cases hold.symm.trans slot
  | gone _ gone slot => cases hold.symm.trans slot
  | reported _ own' records' e' pending' c slot moved renders about fits left old now =>
    cases hold.symm.trans slot
    by_cases he : e.agentId = id
    · subst he
      refine .told left ?_ (.told old c)
      rw [Feed.replay_append]
      exact now
    · have hspared : ∀ d ∈ [c], ¬Feed.About d (name, id) := by
        intro d hd habout
        cases List.mem_singleton.mp hd
        exact he (congrArg Prod.snd ((about _).mp habout)).symm
      cases h with
      | told left' now' trails =>
        rw [kindsOf_cons_of_ne he] at left'
        exact Reported.append (.told left' now' trails) hspared
      | untold kind left' now' turns =>
        rw [kindsOf_cons_of_ne he] at left'
        exact Reported.append (.untold kind left' now' turns) hspared

/-- What a reconcile has told of an agent, as it goes from one event to the next. -/
theorem Mirrors.reporting_step (h : Mirrors cs name v) (hcalm : Calm v) (hs : v.step a = some v')
    (hann : Announced v a) (htold : Told cs name v v' a cs') {call : Nat} {own : Bool}
    {records : Roster} {pending : List Entry}
    (hx : v'.calls call = some ⟨(), .reporting own records pending⟩) (id : String) :
    Reported (cs ++ cs') name (v'.snapshot ()) records pending id := by
  rcases reporting_back hs hx with ⟨hnot, hold⟩ | ⟨rfl, e, hold⟩ | ⟨rfl, prior, hold, rfl⟩
  · rw [snapshot_kept hcalm hs hold trivial hx]
    apply (h.reporting call own records pending hold id).append
    exact htold.elsewhere hcalm hold trivial hnot id
  · rw [snapshot_kept hcalm hs hold trivial hx]
    exact htold.reports hold (h.reporting call own records (e :: pending) hold id)
  · rw [snapshot_kept hcalm hs hold trivial hx]
    obtain ⟨hothers, hremovals⟩ := apart_from hcalm hold trivial
    obtain ⟨rfl, hrecords, rfl⟩ := hcalm.phases call _ hold
    have hquiet : ∀ other y, v.calls other = some y → ¬Reporting y.phase := by
      intro other y hy hrep
      by_cases he : other = call
      · subst he
        cases hold.symm.trans hy
        exact hrep
      · exact hothers other y hy he hrep
    have hkept : ¬Vacated v id := by
      intro hvacated
      obtain ⟨other, y, hy, hrem⟩ := vacated_removing hvacated
      exact hremovals other y hy hrem
    cases htold with
    | nothing quiet =>
      rw [List.append_nil]
      exact diff_reports hrecords hcalm.snapshot (hann _ _ _ _ hold rfl id)
        (h.settled hquiet id hkept)

theorem Mirrors.step (h : Mirrors cs name v) (hcalm : Calm v) (hs : v.step a = some v')
    (hann : Announced v a) (halive : ∀ process, a ≠ .restart process)
    (htold : Told cs name v v' a cs') : Mirrors (cs ++ cs') name v' where
  settled hquiet _ hkept := h.settled_step hcalm hs halive htold hquiet hkept
  reporting _ _ _ _ hx id := h.reporting_step hcalm hs hann htold hx id

/-- The snapshot trails the feed, but for the agents that a removal has yet to tell of. -/
theorem Mirrors.trails (h : Mirrors cs name v) {id : String} (hkept : ¬Vacated v id) :
    Feed.Trails cs (name, id) ((v.snapshot ()).lookup id) := by
  by_cases hquiet : ∀ call x, v.calls call = some x → ¬Reporting x.phase
  · exact .of_eq (h.settled hquiet id hkept)
  · push Not at hquiet
    obtain ⟨call, ⟨process, phase⟩, hx, hrep⟩ := hquiet
    cases phase with
    | reporting own records pending =>
      cases h.reporting call own records pending hx id with
      | told left now trails => exact trails
      | untold kind left now turns => exact .of_eq now
    | _ => exact hrep.elim

theorem Mirrors.start (name : String) : Mirrors [] name (Reconcile.World.start [] []) where
  settled _ _ _ := rfl
  reporting _ _ _ _ hx := by cases hx

end Mirror

end Prospero.Proofs.SnapshotFeed
