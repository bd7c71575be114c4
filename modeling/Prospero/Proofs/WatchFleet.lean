import Prospero.Lib.Machine
import Prospero.Lib.Slots
import Prospero.Proofs.KubeFleet
import Prospero.WatchFleet

namespace Prospero.Proofs.WatchFleet
open Prospero.KubeFleet (Agent CalibanTask Diff FleetChange Loop Observation changeOf)
open Prospero.WatchFleet

/-- A subscriber that has drained the channel between two passes has in its fold
exactly what the loop knows. -/
def Converges (w : World) : Prop :=
  ∀ id s, w.subscribers id = some s → s.seeded = true → s.position = w.sent.length →
    w.pending = [] → fold s.received = statuses w.loop.known

/-- A `Discovered` is dropped only while the agent is in the fold. And where the
subscriber has lagged, an agent of its fold that is not known any more has its
`Gone` among the changes that the channel retains or that are yet to be sent. -/
def Tracked (w : World) : Action → Prop
  | .receive id => ∀ s, w.subscribers id = some s → s.seeded = true →
      if s.position + capacity < w.sent.length then
        ∀ name, fold s.received name ≠ none → w.loop.known.lookup name = none →
          ∃ workspace, .gone name workspace ∈ w.sent.drop (w.sent.length - capacity) ++ w.pending
      else ∀ name workspace agent, w.sent[s.position]? = some (.discovered name workspace agent) →
        name ∈ s.seen → fold s.received name ≠ none
  | _ => True

section Statuses

variable {known : HashMap String Agent}

theorem statuses_insert (name : String) (agent : Agent) :
    statuses (known.insert name agent) =
      Function.update (statuses known) name (some agent.status) := by
  funext k
  by_cases hk : k = name
  · subst hk
    simp [statuses]
  · simp [statuses, hk]

/-- One turn of the loop over the CRs broadcasts what it does to `known`. -/
theorem changeOf_replays (known : HashMap String Agent) (name : String) (agent : Agent) :
    Feed.Valid (statuses known)
      ((changeOf (known.lookup name) name agent).toList.map effect) ∧
    Feed.replay (statuses known) ((changeOf (known.lookup name) name agent).toList.map effect) =
      statuses (known.insert name agent) := by
  rw [statuses_insert]
  unfold changeOf
  cases hprev : known.lookup name with
  | none =>
    have habsent : statuses known name = none := by rw [statuses, hprev, Option.map_none]
    exact ⟨⟨habsent, trivial⟩, rfl⟩
  | some prev =>
    have hpresent : statuses known name = some prev.status := by
      rw [statuses, hprev, Option.map_some]
    dsimp only
    by_cases hstatus : prev.status = agent.status
    · rw [if_neg (not_not.mpr hstatus)]
      refine ⟨trivial, ?_⟩
      rw [← hstatus, ← hpresent, Function.update_eq_self]
      rfl
    · rw [if_pos hstatus]
      have hfits : statuses known name ≠ none := by simp [hpresent]
      refine ⟨⟨hfits, trivial⟩, ?_⟩
      simp [Feed.replay, Feed.apply, effect, hpresent]

/-- The changes so far are what takes the fleet that was known to the one that is. -/
structure Told (known : HashMap String Agent) (d : Diff) : Prop where
  valid : Feed.Valid (statuses known) (d.changes.map effect)
  replays : Feed.replay (statuses known) (d.changes.map effect) = statuses d.known

theorem Told.visit {d : Diff} (h : Told known d) (task : CalibanTask) :
    Told known (d.visit task) := by
  unfold Diff.visit
  split
  · exact h
  · rename_i name _
    split
    · exact ⟨h.valid, h.replays⟩
    · rename_i agent _
      obtain ⟨hvalid, hreplays⟩ := changeOf_replays d.known name agent
      constructor
      · rw [List.map_append]
        exact Feed.valid_append h.valid (h.replays ▸ hvalid)
      · rw [List.map_append, Feed.replay_append, h.replays]
        exact hreplays

theorem Told.diff (o : Observation) (known : HashMap String Agent) : Told known (o.diff known) := by
  have hfold : ∀ (tasks : List CalibanTask) (d : Diff), Told known d →
      Told known (tasks.foldl Diff.visit d) := by
    intro tasks
    induction tasks with
    | nil => exact fun _ h => h
    | cons task tasks ih => exact fun d h => ih _ (h.visit task)
  exact hfold o.tasks _ ⟨trivial, rfl⟩

theorem valid_gone (names : List String) (view : String → Option AgentStatus) :
    Feed.Valid view ((names.filterMap fun name => (known.lookup name).map fun agent =>
      FleetChange.gone name agent.workspace).map effect) := by
  induction names generalizing view with
  | nil => trivial
  | cons name names ih =>
    rw [List.filterMap_cons]
    cases known.lookup name with
    | none => exact ih view
    | some agent => exact ⟨trivial, ih _⟩

theorem replay_gone (names : List String) (view : String → Option AgentStatus)
    (hview : ∀ k, known.lookup k = none → view k = none) :
    Feed.replay view ((names.filterMap fun name => (known.lookup name).map fun agent =>
      FleetChange.gone name agent.workspace).map effect) =
      fun k => if k ∈ names then none else view k := by
  induction names generalizing view with
  | nil => simp [Feed.replay]
  | cons name names ih =>
    rw [List.filterMap_cons]
    cases hname : known.lookup name with
    | none =>
      refine (ih view hview).trans ?_
      funext k
      by_cases hk : k = name
      · subst hk
        simp [hview k hname]
      · simp [hk]
    | some agent =>
      have hview' : ∀ k, known.lookup k = none → Function.update view name none k = none := by
        intro k hk
        by_cases hkn : k = name
        · rw [hkn, Function.update_self]
        · rw [Function.update_of_ne hkn]
          exact hview k hk
      refine (ih _ hview').trans ?_
      funext k
      by_cases hk : k = name
      · subst hk
        simp
      · simp [hk]

/-- A pass broadcasts what it does to `known`. -/
theorem pass_replays (o : Observation) (l : Loop) :
    Feed.Valid (statuses l.known) ((o.changes l.known).map effect) ∧
    Feed.replay (statuses l.known) ((o.changes l.known).map effect) =
      statuses (o.pass l).known := by
  have htold := Told.diff o l.known
  unfold Observation.changes
  rw [List.map_append]
  refine ⟨Feed.valid_append htold.valid (valid_gone ..), ?_⟩
  rw [Feed.replay_append, htold.replays]
  refine (replay_gone _ _ ?_).trans ?_
  · intro k hk
    rw [statuses, hk, Option.map_none]
  · funext k
    unfold statuses Observation.pass
    rw [HashMap.lookup_eraseAll]
    split_ifs <;> rfl

end Statuses

section Seed

variable {w : World}

theorem fold_append (received changes : List FleetChange) :
    fold (received ++ changes) = Feed.replay (fold received) (changes.map effect) := by
  rw [fold, List.map_append, Feed.replay_append]
  rfl

/-- The last that is shown of each agent is how it is known. -/
theorem replay_entries {entries : List (Sigma fun _ : String => Agent)}
    (h : entries.NodupKeys) (view : String → Option AgentStatus) (k : String) :
    Feed.replay view ((entries.map fun e =>
      FleetChange.discovered e.1 e.2.workspace e.2).map effect) k =
      (((entries.dlookup k).map Agent.status).or (view k)) := by
  induction entries generalizing view with
  | nil => rfl
  | cons e entries ih =>
    obtain ⟨hfresh, htail⟩ := List.nodupKeys_cons.mp h
    refine (ih htail _).trans ?_
    by_cases hk : k = e.1
    · subst hk
      rw [List.dlookup_eq_none.mpr hfresh, List.dlookup_cons_eq]
      simp [effect, Feed.apply]
    · rw [List.dlookup_cons_ne _ _ hk]
      simp [effect, Feed.apply, hk]

theorem fold_seed (w : World) (received : List FleetChange) (k : String) :
    fold (received ++ w.seedOf) k = (statuses w.loop.known k).or (fold received k) := by
  rw [fold_append]
  exact replay_entries w.loop.known.nodupKeys _ k

end Seed

/-- All that the loop has told, or is yet to tell before its pass is over. -/
def feed (w : World) : List (Feed.Change String AgentStatus) := (w.sent ++ w.pending).map effect

/-- The feed is what takes an empty fleet to the one that is known, and the
subscribers follow it. -/
structure Inv (w : World) : Prop where
  valid : Feed.Valid (fun _ => none) (feed w)
  known : Feed.replay (fun _ => none) (feed w) = statuses w.loop.known
  position : ∀ id s, w.subscribers id = some s → s.position ≤ w.sent.length
  fresh : ∀ id s, w.subscribers id = some s → s.seeded = false → s.received = []
  follows : ∀ id s, w.subscribers id = some s → s.seeded = true →
    ∀ name, Feed.Follows (feed w) s.position (fold s.received) name

section Step

variable {w w' : World} {a : Action}

theorem length_feed (w : World) : (feed w).length = w.sent.length + w.pending.length := by
  rw [feed, List.length_map, List.length_append]

theorem Inv.converges (h : Inv w) : Converges w := by
  intro id s hs hseeded hdrained hidle
  funext name
  have hend : s.position = (feed w).length := by
    rw [length_feed, hdrained, hidle, List.length_nil, Nat.add_zero]
  have hfollows := h.follows id s hs hseeded name
  rw [hend] at hfollows
  rw [hfollows.agree, h.known]

theorem Inv.start : Inv World.start where
  valid := trivial
  known := rfl
  position _ _ hs := by cases hs
  fresh _ _ hs := by cases hs
  follows _ _ hs := by cases hs

/-- One subscriber goes on, and follows the feed as the others do. -/
theorem Inv.setSubscriber (h : Inv w) {id : Nat} {s : Subscriber}
    (hposition : s.position ≤ w.sent.length) (hfresh : s.seeded = false → s.received = [])
    (hfollows : s.seeded = true →
      ∀ name, Feed.Follows (feed w) s.position (fold s.received) name) :
    Inv (w.setSubscriber id s) where
  valid := h.valid
  known := h.known
  position i t ht := by
    rcases Slots.update_some ht with ⟨rfl, rfl⟩ | ⟨_, ht⟩
    · exact hposition
    · exact h.position i t ht
  fresh i t ht := by
    rcases Slots.update_some ht with ⟨rfl, rfl⟩ | ⟨_, ht⟩
    · exact hfresh
    · exact h.fresh i t ht
  follows i t ht := by
    rcases Slots.update_some ht with ⟨rfl, rfl⟩ | ⟨_, ht⟩
    · exact hfollows
    · exact h.follows i t ht

theorem Inv.poll (h : Inv w) {o : Observation} (hs : w.step (.poll o) = some w') : Inv w' := by
  simp only [World.step] at hs
  split at hs
  · rename_i hidle
    cases hs
    obtain ⟨hvalid, hreplays⟩ := pass_replays o w.loop
    have hold : feed w = w.sent.map effect := by rw [feed, hidle, List.append_nil]
    have hfeed : feed { w with loop := o.pass w.loop, pending := o.changes w.loop.known } =
        feed w ++ (o.changes w.loop.known).map effect := by
      rw [hold, feed, List.map_append]
    refine ⟨?_, ?_, h.position, h.fresh, ?_⟩
    · rw [hfeed]
      exact Feed.valid_append h.valid (h.known ▸ hvalid)
    · rw [hfeed, Feed.replay_append, h.known]
      exact hreplays
    · intro id s hat hseeded name
      rw [hfeed]
      refine (h.follows id s hat hseeded name).append ?_ _
      rw [length_feed]
      exact Nat.le_add_right_of_le (h.position id s hat)
  · cases hs

theorem Inv.send (h : Inv w) (hs : w.step .send = some w') : Inv w' := by
  simp only [World.step] at hs
  split at hs
  · cases hs
  · rename_i change rest hpending
    cases hs
    have hfeed : feed { w with sent := w.sent ++ [change], pending := rest } = feed w := by
      rw [feed, feed, hpending, List.append_assoc]
      rfl
    refine ⟨hfeed ▸ h.valid, hfeed ▸ h.known, ?_, h.fresh, ?_⟩
    · intro id s hat
      rw [List.length_append]
      exact Nat.le_add_right_of_le (h.position id s hat)
    · rw [hfeed]
      exact h.follows

/-- After a seed, an agent is shown as the loop knows it, or it is not known and
was shown before. -/
theorem follows_seed (h : Inv w) {received : List FleetChange} {position : Nat} {name : String}
    (hposition : position ≤ w.sent.length)
    (hgone : fold received name ≠ none → w.loop.known.lookup name = none →
      ∃ workspace, .gone name workspace ∈ w.sent.drop position ++ w.pending) :
    Feed.Follows (feed w) position (fold (received ++ w.seedOf)) name := by
  have hlate : position ≤ (feed w).length := by
    rw [length_feed]
    exact Nat.le_add_right_of_le hposition
  have hnow : Feed.upTo (feed w) (feed w).length = statuses w.loop.known := by
    rw [Feed.upTo_length, h.known]
  cases hknown : w.loop.known.lookup name with
  | some agent =>
    refine .ahead _ hlate le_rfl ?_
    rw [fold_seed, hnow, statuses, hknown]
    rfl
  | none =>
    have habsent : statuses w.loop.known name = none := by rw [statuses, hknown, Option.map_none]
    by_cases hshown : fold received name = none
    · refine .ahead _ hlate le_rfl ?_
      rw [fold_seed, hnow, habsent, hshown]
      rfl
    · obtain ⟨workspace, hmem⟩ := hgone hshown hknown
      refine .doomed ?_
      rw [feed, ← List.map_drop, List.drop_append_of_le_length hposition]
      exact List.mem_map.mpr ⟨_, hmem, rfl⟩

theorem take_spec (s : Subscriber) (change : FleetChange) :
    (s.take change).position = s.position + 1 ∧ (s.take change).seeded = s.seeded ∧
    ((s.take change).received = s.received ++ [change] ∨
      (s.take change).received = s.received ∧
        ∃ name workspace agent, change = .discovered name workspace agent ∧ name ∈ s.seen) := by
  unfold Subscriber.take
  split
  · rename_i name workspace agent
    split
    · rename_i hseen
      exact ⟨rfl, rfl, Or.inr ⟨rfl, name, workspace, agent, rfl, hseen⟩⟩
    · exact ⟨rfl, rfl, Or.inl rfl⟩
  · exact ⟨rfl, rfl, Or.inl rfl⟩

theorem Inv.receive (h : Inv w) {id : Nat} (ok : Tracked w (.receive id))
    (hs : w.step (.receive id) = some w') : Inv w' := by
  obtain ⟨s, hat, hs⟩ := Option.bind_eq_some_iff.mp hs
  split at hs
  · rename_i hseeded
    obtain ⟨t, ht, rfl⟩ := Option.map_eq_some_iff.mp hs
    have hok := ok s hat hseeded
    unfold World.receive at ht
    split at ht
    · rename_i hlag
      obtain rfl := Option.some.inj ht
      rw [if_pos hlag] at hok
      have hposition : w.sent.length - capacity ≤ w.sent.length := Nat.sub_le ..
      refine h.setSubscriber (s := w.reseed s _) hposition ?_ ?_
      · intro hunseeded
        cases hunseeded
      · intro _ name
        exact follows_seed h hposition (hok name)
    · rename_i hlag
      rw [if_neg hlag] at hok
      obtain ⟨change, hchange, rfl⟩ := Option.map_eq_some_iff.mp ht
      obtain ⟨hlt, -⟩ := List.getElem?_eq_some_iff.mp hchange
      have hnext : (feed w)[s.position]? = some (effect change) := by
        rw [feed, List.getElem?_map, List.getElem?_append_left hlt, hchange]
        rfl
      obtain ⟨hposition, hstays, htaken | ⟨hdropped, name, workspace, agent, rfl, hseen⟩⟩ :=
        take_spec s change
      · apply h.setSubscriber
        · rw [hposition]
          exact hlt
        · intro hunseeded
          rw [hstays, hseeded] at hunseeded
          cases hunseeded
        · intro _ name
          rw [hposition, htaken, fold_append]
          exact (h.follows id s hat hseeded name).read h.valid hnext
      · apply h.setSubscriber
        · rw [hposition]
          exact hlt
        · intro hunseeded
          rw [hstays, hseeded] at hunseeded
          cases hunseeded
        · intro _ other
          rw [hposition, hdropped]
          exact (h.follows id s hat hseeded other).leave h.valid hnext
            (hok name workspace agent hchange hseen)
  · cases hs

theorem Inv.step (h : Inv w) (ok : Tracked w a) (hs : w.step a = some w') : Inv w' := by
  cases a with
  | poll o => exact h.poll hs
  | send => exact h.send hs
  | subscribe id =>
    simp only [World.step] at hs
    split at hs
    · cases hs
      exact h.setSubscriber le_rfl (fun _ => rfl) (by simp)
    · cases hs
  | seed id =>
    obtain ⟨s, hat, hs⟩ := Option.bind_eq_some_iff.mp hs
    split at hs
    · cases hs
    · rename_i hunseeded
      cases hs
      have hposition := h.position id s hat
      refine h.setSubscriber (s := w.reseed s _) hposition ?_ ?_
      · intro hnot
        cases hnot
      · intro _ name
        refine follows_seed h hposition ?_
        intro hshown
        rw [h.fresh id s hat (by simpa using hunseeded)] at hshown
        exact absurd rfl hshown
  | receive id => exact h.receive ok hs

end Step

/-- What a drained subscriber has is what the loop knows, when no change is
dropped and none is lost that it needs. -/
theorem subscribers_converge (as : List Action)
    (h : Machine.Steps World.step Tracked World.start as) :
    Machine.Always World.step Converges World.start as := by
  have hinv := Machine.always_of_steps (fun _ _ _ h ok hs => Inv.step h ok hs) Inv.start h
  exact Machine.always_mono (fun _ h => h.converges) hinv

/-- The API server lists one CR, which no operator has seen yet. -/
def oneTask : Observation :=
  ⟨[⟨some "ct-1", some "u1", some "2026-08-01T12:00:00+00:00", "web", none⟩], fun _ => none⟩

def noTask : Observation := ⟨[], fun _ => none⟩

/-- The subscriber's seed has the CR, and the loop broadcasts it after that. -/
def overlapRun : List Action :=
  [.subscribe 0, .poll oneTask, .seed 0, .send, .receive 0]

theorem subscribers_converge_overlap : ∃ w, Machine.run World.step World.start overlapRun = some w ∧
    statuses w.loop.known "ct-1" = some .spawning ∧ Converges w := by
  refine ⟨_, rfl, rfl, ?_⟩
  refine Machine.always_end (subscribers_converge overlapRun ?_) rfl
  iterate 4 refine Machine.steps_cons trivial rfl ?_
  refine ⟨?_, fun _ _ => trivial⟩
  rintro s ⟨⟩ -
  rw [if_neg (by decide)]
  rintro name workspace agent ⟨⟩ -
  have hshown : some AgentStatus.spawning ≠ none := nofun
  exact hshown

/-- The seed has the CR; it is deleted, and later created under its name again. -/
def recreateRun : List Action :=
  [.poll oneTask, .send, .subscribe 0, .seed 0, .poll noTask, .send, .receive 0, .poll oneTask,
    .send, .receive 0]

theorem subscriber_diverges :
    ¬∀ as : List Action, Machine.Always World.step Converges World.start as := by
  intro h
  have hend := Machine.always_end (h recreateRun) rfl
  have hlost : (none : Option AgentStatus) = some .spawning :=
    congrFun (hend 0 _ rfl rfl rfl rfl) "ct-1"
  cases hlost

end Prospero.Proofs.WatchFleet
