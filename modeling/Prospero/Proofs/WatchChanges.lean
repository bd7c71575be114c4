import Prospero.Lib.Machine
import Prospero.Proofs.SnapshotFeed
import Prospero.WatchChanges

namespace Prospero.Proofs.WatchChanges
open Feed (Change)
open Prospero.Reconcile (Entry Roster)
open Prospero.Proofs.Reconcile
open Prospero.Proofs.Lifecycle
open Prospero.Proofs.SnapshotFeed
open Prospero.WatchChanges

/-- No poll is between its list and its replacement of the snapshot. -/
def Idle (w : World) : Prop :=
  ∀ name call x, (w.workspaces name).calls call = some x → ¬Reporting x.phase

/-- A subscriber that has drained the feed while no poll is in flight has in its
fold exactly what the snapshot has. -/
def Converges (w : World) : Prop :=
  ∀ sub s, w.subscribers sub = some s → s.seeded = true → s.position = w.bus.length → Idle w →
    fold s.received = w.served

/-- And so it has but for the agents whose removal is yet to be told of. -/
def Settles (w : World) : Prop :=
  ∀ sub s, w.subscribers sub = some s → s.seeded = true → s.position = w.bus.length → Idle w →
    ∀ name id, ¬Vacated (w.workspaces name) id → fold s.received (name, id) = w.served (name, id)

/-- The event bears on an agent's being there or on its status. -/
def Tells : EventKind → Prop
  | .agentDiscovered | .statusChanged .. | .agentGone => True
  | _ => False

/-- Reconciles and removals keep out of each other's way, and every agent that is
new to a snapshot is announced. A seed is read when what a poll has listed and is
yet to write differs from the snapshot only where that is yet to be told or was
told after the subscription. The agent that is found for an `AgentDiscovered` is
the workspace's own, and one that is given up is not listed by a poll that is yet
to write the snapshot. -/
def Sound (w : World) : Action → Prop
  | .workspace name a => Serial (w.workspaces name) a ∧ Announced (w.workspaces name) a
  | .subscribe _ => True
  | .seed sub => ∀ s, w.subscribers sub = some s → ∀ name call own records pending,
      (w.workspaces name).calls call = some ⟨(), .reporting own records pending⟩ →
      ∀ id, records.lookup id ≠ (w.roster name).lookup id →
        (∃ e ∈ pending, e.agentId = id) ∨
          ∃ e, (name, e) ∈ w.bus.drop s.position ∧ e.agentId = id ∧ Tells e.kind
  | .receive sub => ∀ s name e, w.next sub = some (s, name, e) → e.kind = .agentDiscovered →
      w.findAgent e.agentId = (w.roster name).lookup e.agentId
  | .giveUp sub => ∀ s name e, w.next sub = some (s, name, e) → ∀ call own records pending,
      (w.workspaces name).calls call = some ⟨(), .reporting own records pending⟩ →
      records.lookup e.agentId = none

/-- An agent that is taken off the snapshot is in no subscriber's fold. -/
def Unseen (w : World) : Action → Prop
  | .workspace name (.prune call) => ∀ x id, (w.workspaces name).calls call = some x →
      x.phase = .removed id → id ∈ (w.roster name).map Prod.fst →
      ∀ sub s, w.subscribers sub = some s → s.seeded = true → fold s.received (name, id) = none
  | _ => True

section Seed

theorem fold_append (received changes : List FleetChange) :
    fold (received ++ changes) = Feed.replay (fold received) (changes.map effect) := by
  rw [fold, List.map_append, Feed.replay_append]
  rfl

theorem replay_roster {roster : Roster} (h : (roster.map Prod.fst).Nodup) (workspace : String)
    (view : String × String → Option AgentStatus) (name id : String) :
    Feed.replay view ((roster.map fun a => FleetChange.discovered a.1 workspace a.2).map effect)
      (name, id) =
      if name = workspace then (roster.lookup id).or (view (name, id)) else view (name, id) := by
  induction roster generalizing view with
  | nil => simp [Feed.replay]
  | cons a roster ih =>
    obtain ⟨hfresh, htail⟩ := List.nodup_cons.mp h
    refine (ih htail _).trans ?_
    by_cases hname : name = workspace
    · subst hname
      rw [if_pos rfl, if_pos rfl, List.lookup_cons]
      by_cases hid : id = a.1
      · subst hid
        rw [lookup_none.mpr hfresh]
        simp [effect, Feed.apply]
      · have hne : (id == a.1) = false := beq_eq_false_iff_ne.mpr hid
        simp [effect, Feed.apply, hid, hne]
    · rw [if_neg hname, if_neg hname]
      simp [effect, Feed.apply, hname]

theorem fold_seed {w : World} (h : ∀ name, ((w.roster name).map Prod.fst).Nodup) :
    fold w.seedOf = w.served := by
  have hnames : ∀ (names : List String) (view : String × String → Option AgentStatus)
      (key : String × String), Feed.replay view ((names.flatMap fun name =>
        FleetChange.workspaceHealth name ((w.workspaces name).health ()) ::
          (w.roster name).map fun a => FleetChange.discovered a.1 name a.2).map effect) key =
        if key.1 ∈ names then ((w.roster key.1).lookup key.2).or (view key) else view key := by
    intro names
    induction names with
    | nil => simp [Feed.replay]
    | cons n names ih =>
      rintro view ⟨name, id⟩
      rw [List.flatMap_cons, List.map_append, Feed.replay_append, ih, List.map_cons]
      have hfirst : Feed.replay view (effect (.workspaceHealth n ((w.workspaces n).health ())) ::
          ((w.roster n).map fun a => FleetChange.discovered a.1 n a.2).map effect) (name, id) =
          if name = n then ((w.roster n).lookup id).or (view (name, id)) else view (name, id) :=
        replay_roster (h n) n view name id
      rw [hfirst]
      by_cases hn : name = n
      · subst hn
        cases (w.roster name).lookup id <;> simp
      · simp [hn]
  funext key
  refine (hnames w.names _ key).trans ?_
  simp [World.served]

end Seed

/-- How a subscriber stands with an agent: it follows the feed, or it does not have
the agent, and a removal has yet to tell that it is gone. -/
def Tracks (cs : List (Change (String × String) AgentStatus)) (v : Reconcile.World Unit)
    (position : Nat) (view : String × String → Option AgentStatus) (name id : String) : Prop :=
  Feed.Follows cs position view (name, id) ∨ view (name, id) = none ∧ Vacated v id

section Tracks

variable {cs cs' : List (Change (String × String) AgentStatus)} {name id : String}
  {v v' : Reconcile.World Unit} {view : String × String → Option AgentStatus} {p : Nat}
  {c : Change (String × String) AgentStatus}

theorem vacated_absent (hcalm : Calm v) (h : Vacated v id) : (v.snapshot ()).lookup id = none := by
  obtain ⟨call, x, hx, hv⟩ := h
  exact lookup_none.mpr (hcalm.vacated call x id hx hv).1

theorem Tracks.publish (h : Tracks cs v p view name id) (hp : p ≤ cs.length)
    (hkept : Vacated v id → Vacated v' id ∨ cs' = [.vanish (name, id)]) :
    Tracks (cs ++ cs') v' p view name id := by
  rcases h with hfollows | ⟨hview, hvacated⟩
  · exact Or.inl (hfollows.append hp cs')
  · rcases hkept hvacated with hstays | rfl
    · exact Or.inr ⟨hview, hstays⟩
    · refine Or.inl (.doomed ?_)
      rw [List.drop_append_of_le_length hp]
      exact List.mem_append_right _ (List.mem_singleton.mpr rfl)

theorem Tracks.read (h : Tracks cs v p view name id) (hvalid : Feed.Valid (fun _ => none) cs)
    (hc : cs[p]? = some c) (hnot : ∀ status, c ≠ .appear (name, id) status) :
    Tracks cs v (p + 1) (Feed.apply view c) name id := by
  rcases h with hfollows | ⟨hview, hvacated⟩
  · exact Or.inl (hfollows.read hvalid hc)
  · exact Or.inr ⟨Feed.apply_none hview hnot, hvacated⟩

theorem Tracks.congr (h : Tracks cs v p view name id)
    {view' : String × String → Option AgentStatus} (heq : view' (name, id) = view (name, id)) :
    Tracks cs v p view' name id := by
  rcases h with hfollows | ⟨hview, hvacated⟩
  · exact Or.inl (hfollows.congr heq)
  · exact Or.inr ⟨heq.trans hview, hvacated⟩

/-- An `AgentDiscovered` is about one agent; the others are as they were. -/
theorem Tracks.pass (h : Tracks cs v p view name id) (hvalid : Feed.Valid (fun _ => none) cs)
    {key : String × String} {status : AgentStatus} (hc : cs[p]? = some (.appear key status))
    (hne : (name, id) ≠ key) : Tracks cs v (p + 1) view name id := by
  have hnot : ∀ s, Change.appear key status ≠ Change.appear (name, id) s := by
    rintro s ⟨⟩
    exact hne rfl
  exact (h.read hvalid hc hnot).congr (Function.update_of_ne hne ..).symm

variable (hmirrors : Mirrors cs name v) (hcalm : Calm v)
include hmirrors

/-- An agent that no snapshot has or is about to have is not told of any more. -/
theorem gone_by_now (hkept : ¬Vacated v id) (hsnapshot : (v.snapshot ()).lookup id = none)
    (hlisted : ∀ call own records pending,
      v.calls call = some ⟨(), .reporting own records pending⟩ → records.lookup id = none) :
    Feed.replay (fun _ => none) cs (name, id) = none := by
  by_cases hquiet : ∀ call x, v.calls call = some x → ¬Reporting x.phase
  · rw [hmirrors.settled hquiet id hkept, hsnapshot]
  · push Not at hquiet
    obtain ⟨call, ⟨process, phase⟩, hx, hrep⟩ := hquiet
    cases phase with
    | reporting own records pending =>
      cases hmirrors.reporting call own records pending hx id with
      | told left now trails => rw [now, hlisted call own records pending hx]
      | untold kind left now turns => rw [now, hsnapshot]
    | _ => exact hrep.elim

/-- The retries for an agent come to an end. -/
theorem Tracks.giveUp (h : Tracks cs v p view name id) (hvalid : Feed.Valid (fun _ => none) cs)
    {status : AgentStatus} (hc : cs[p]? = some (.appear (name, id) status))
    (hsnapshot : (v.snapshot ()).lookup id = none)
    (hlisted : ∀ call own records pending,
      v.calls call = some ⟨(), .reporting own records pending⟩ → records.lookup id = none) :
    Tracks cs v (p + 1) view name id := by
  obtain ⟨hp, hcp⟩ := List.getElem?_eq_some_iff.mp hc
  have hfits : Feed.upTo cs p (name, id) = none := hvalid.fits hc
  have hgone : view (name, id) = none → Tracks cs v (p + 1) view name id := by
    intro hview
    by_cases hvacated : Vacated v id
    · exact Or.inr ⟨hview, hvacated⟩
    · have hend : Feed.upTo cs cs.length (name, id) = none := by
        rw [Feed.upTo_length, gone_by_now hmirrors hvacated hsnapshot hlisted]
      have hnow : Feed.upTo cs (p + 1) (name, id) ≠ none := by
        rw [Feed.upTo_succ hc]
        simp [Feed.apply]
      exact Or.inl (.doomed (Feed.vanish_of_upTo hnow hend hp le_rfl))
  rcases h with hfollows | ⟨hview, _⟩
  · cases hfollows with
    | inStep agree => exact hgone (agree.trans hfits)
    | ahead m le bound agree =>
      rcases Nat.eq_or_lt_of_le le with rfl | hlt
      · exact hgone (agree.trans hfits)
      · exact Or.inl (.ahead m hlt bound agree)
    | doomed vanish =>
      rw [List.drop_eq_getElem_cons hp, hcp] at vanish
      rcases List.mem_cons.mp vanish with he | hlater
      · cases he
      · exact Or.inl (.doomed hlater)
  · exact hgone hview

include hcalm

/-- The agent of an `AgentDiscovered` is found, in whatever status it is by then. -/
theorem Tracks.resolve (hvalid : Feed.Valid (fun _ => none) cs) {status found : AgentStatus}
    (hc : cs[p]? = some (.appear (name, id) status))
    (hsnapshot : (v.snapshot ()).lookup id = some found)
    (hview : view (name, id) = some found) : Tracks cs v (p + 1) view name id := by
  have hkept : ¬Vacated v id := by
    intro hvacated
    rw [vacated_absent hcalm hvacated] at hsnapshot
    cases hsnapshot
  obtain ⟨q, hpq, hq, hthen⟩ := (hmirrors.trails hkept).late hvalid hc (by simp [hsnapshot])
  exact Or.inl (.ahead q hpq hq (by rw [hview, hthen, hsnapshot]))

/-- The seed shows the snapshot as it stands. -/
theorem Tracks.seed (hp : p ≤ cs.length)
    (hlater : ∀ call own records pending,
      v.calls call = some ⟨(), .reporting own records pending⟩ →
      records.lookup id ≠ (v.snapshot ()).lookup id →
      (∃ e ∈ pending, e.agentId = id) ∨ ∃ c ∈ cs.drop p, Feed.About c (name, id))
    (hview : view (name, id) = (v.snapshot ()).lookup id) : Tracks cs v p view name id := by
  have hnow : Feed.replay (fun _ => none) cs (name, id) = (v.snapshot ()).lookup id →
      Tracks cs v p view name id := fun h =>
    Or.inl (.ahead cs.length hp le_rfl (by rw [hview, Feed.upTo_length, h]))
  by_cases hvacated : Vacated v id
  · exact Or.inr ⟨hview.trans (vacated_absent hcalm hvacated), hvacated⟩
  · by_cases hquiet : ∀ call x, v.calls call = some x → ¬Reporting x.phase
    · exact hnow (hmirrors.settled hquiet id hvacated)
    · push Not at hquiet
      obtain ⟨call, ⟨process, phase⟩, hx, hrep⟩ := hquiet
      cases phase with
      | reporting own records pending =>
        cases hmirrors.reporting call own records pending hx id with
        | untold kind left now turns => exact hnow now
        | told left now trails =>
          by_cases hsame : records.lookup id = (v.snapshot ()).lookup id
          · exact hnow (now.trans hsame)
          · rcases hlater call own records pending hx hsame with ⟨e, he, rfl⟩ | ⟨c, hc, habout⟩
            · have hnone : e ∉ pending.filter fun e' => e'.agentId = e.agentId := by
                rw [List.map_eq_nil_iff.mp left]
                simp
              exact absurd (List.mem_filter.mpr ⟨he, by simp⟩) hnone
            · exact Or.inl (trails.follows hview hc habout)
      | _ => exact hrep.elim

end Tracks

/-- Nothing happens in a workspace that is not registered. -/
def Unnamed (w : World) : Prop :=
  ∀ name, name ∉ w.names → w.workspaces name = Reconcile.World.start [] []

section Unnamed

variable {w w' : World} {a : Action}

/-- What a step of a workspace publishes, and how it leaves the others. -/
theorem workspace_spec {name : String} {a : Reconcile.Action Unit}
    (hs : w.step (.workspace name a) = some w') : ∃ v, name ∈ w.names ∧
      (∀ process, a ≠ .restart process) ∧ (w.workspaces name).step a = some v ∧
      w' = { w with
        workspaces := Function.update w.workspaces name v
        bus := w.bus ++ (emits (w.workspaces name) a).toList.map fun e => (name, e) } := by
  simp only [World.step] at hs
  split at hs
  · rename_i hok
    obtain ⟨v, hv, rfl⟩ := Option.map_eq_some_iff.mp hs
    refine ⟨v, hok.1, ?_, hv, ?_⟩
    · rintro process rfl
      cases hok.2
    · rw [log_step hv, List.drop_left]
  · cases hs

theorem Unnamed.step (h : Unnamed w) (hs : w.step a = some w') : Unnamed w' := by
  cases a with
  | workspace name a =>
    obtain ⟨v, hname, _, _, rfl⟩ := workspace_spec hs
    intro n hn
    have hne : n ≠ name := by
      rintro rfl
      exact hn hname
    simpa [hne] using h n hn
  | subscribe sub =>
    simp only [World.step] at hs
    split at hs
    · cases hs
      exact h
    · cases hs
  | seed sub =>
    obtain ⟨s, _, hs⟩ := Option.bind_eq_some_iff.mp hs
    split at hs
    · cases hs
    · cases hs
      exact h
  | receive sub | giveUp sub =>
    obtain ⟨⟨s, ev⟩, _, hs⟩ := Option.bind_eq_some_iff.mp hs
    dsimp only at hs
    split at hs <;> cases hs
    exact h

end Unnamed

/-- The bus read as a feed. -/
structure Inv (w : World) (cs : List (Change (String × String) AgentStatus)) : Prop where
  renders : List.Forall₂ Renders w.bus cs
  valid : Feed.Valid (fun _ => none) cs
  calm : ∀ name, Calm (w.workspaces name)
  mirrors : ∀ name, Mirrors cs name (w.workspaces name)
  unnamed : Unnamed w
  position : ∀ sub s, w.subscribers sub = some s → s.position ≤ w.bus.length
  tracks : ∀ sub s, w.subscribers sub = some s → s.seeded = true →
    ∀ name id, Tracks cs (w.workspaces name) s.position (fold s.received) name id

section Inv

variable {w w' : World} {a : Action} {cs : List (Change (String × String) AgentStatus)}

theorem Inv.served (h : Inv w cs) (name id : String) :
    w.served (name, id) = (w.roster name).lookup id := by
  unfold World.served
  split_ifs with hname
  · rfl
  · rw [World.roster, h.unnamed name hname]
    rfl

theorem Inv.settles (h : Inv w cs) : Settles w := by
  intro sub s hs hseeded hdrained hidle name id hkept
  rw [h.served]
  have hend : s.position = cs.length := hdrained.trans h.renders.length_eq
  rcases h.tracks sub s hs hseeded name id with hfollows | ⟨_, hvacated⟩
  · rw [hend] at hfollows
    rw [hfollows.agree]
    exact (h.mirrors name).settled (hidle name) id hkept
  · exact absurd hvacated hkept

theorem Inv.start (names : List String) : Inv (World.start names) [] where
  renders := .nil
  valid := trivial
  calm _ := by
    apply Calm.start
    exact List.nodup_nil
  mirrors name := Mirrors.start name
  unnamed _ _ := rfl
  position _ _ hs := by cases hs
  tracks _ _ hs := by cases hs

/-- One subscriber goes on, and tracks the agents as the others do. -/
theorem Inv.setSubscriber (h : Inv w cs) {sub : Nat} {s : Subscriber}
    (hposition : s.position ≤ w.bus.length) (htracks : s.seeded = true →
      ∀ name id, Tracks cs (w.workspaces name) s.position (fold s.received) name id) :
    Inv (w.setSubscriber sub s) cs where
  renders := h.renders
  valid := h.valid
  calm := h.calm
  mirrors := h.mirrors
  unnamed := h.unnamed
  position i t ht := by
    rcases Slots.update_some ht with ⟨rfl, rfl⟩ | ⟨_, ht⟩
    · exact hposition
    · exact h.position i t ht
  tracks i t ht := by
    rcases Slots.update_some ht with ⟨rfl, rfl⟩ | ⟨_, ht⟩
    · exact htracks
    · exact h.tracks i t ht

theorem Inv.workspace (h : Inv w cs) {name : String} {a : Reconcile.Action Unit}
    (ok : Sound w (.workspace name a)) (hs : w.step (.workspace name a) = some w') :
    ∃ cs', Inv w' cs' := by
  have hunnamed := h.unnamed.step hs
  obtain ⟨v, -, halive, hv, rfl⟩ := workspace_spec hs
  obtain ⟨hserial, hann⟩ := ok
  obtain ⟨cs', htold⟩ := step_told (h.mirrors name) (h.calm name) hv
  have hlength := h.renders.length_eq
  refine ⟨cs ++ cs', ?_, ?_, ?_, ?_, hunnamed, ?_, ?_⟩
  · exact List.rel_append h.renders htold.renders
  · exact Feed.valid_append h.valid htold.valid
  · intro n
    by_cases hn : n = name
    · subst hn
      simpa using (h.calm n).step hv hserial
    · simpa [hn] using h.calm n
  · intro n
    by_cases hn : n = name
    · subst hn
      simpa using (h.mirrors n).step (h.calm n) hv hann halive htold
    · have hothers : ∀ c ∈ cs', ∀ id, ¬Feed.About c (n, id) := fun c hc id habout =>
        hn (htold.about hc habout)
      simpa [hn] using (h.mirrors n).append hothers
  · intro sub s hat
    rw [List.length_append]
    exact Nat.le_add_right_of_le (h.position sub s hat)
  · intro sub s hat hseeded n id
    have hp : s.position ≤ cs.length := hlength ▸ h.position sub s hat
    have hold := h.tracks sub s hat hseeded n id
    by_cases hn : n = name
    · subst hn
      simpa using hold.publish hp (htold.kept hv halive)
    · simpa [hn] using hold.publish hp Or.inl

theorem next_spec {sub : Nat} {s : Subscriber} {ev : String × Entry}
    (h : w.next sub = some (s, ev)) :
    w.subscribers sub = some s ∧ s.seeded = true ∧ w.bus[s.position]? = some ev := by
  obtain ⟨t, ht, h⟩ := Option.bind_eq_some_iff.mp h
  split at h
  · rename_i hseeded
    obtain ⟨ev', hev, he⟩ := Option.map_eq_some_iff.mp h
    cases he
    exact ⟨ht, hseeded, hev⟩
  · cases h

theorem Inv.rendered (h : Inv w cs) {p : Nat} {ev : String × Entry} (hev : w.bus[p]? = some ev) :
    p < w.bus.length ∧ ∃ c, cs[p]? = some c ∧ Renders ev c := by
  obtain ⟨hp, rfl⟩ := List.getElem?_eq_some_iff.mp hev
  have hp' : p < cs.length := h.renders.length_eq ▸ hp
  exact ⟨hp, cs[p], List.getElem?_eq_getElem hp', h.renders.get hp hp'⟩

/-- An event that is not about a new agent changes the fold as it says. -/
theorem event_effect (w : World) {ev : String × Entry}
    {c : Change (String × String) AgentStatus} (h : Renders ev c)
    (hkind : ev.2.kind ≠ .agentDiscovered) : (∀ key status, c ≠ .appear key status) ∧
      ∀ received, fold (received ++ (w.eventToChange ev).toList) =
        Feed.apply (fold received) c := by
  obtain ⟨name, id, kind⟩ := ev
  cases kind with
  | agentDiscovered => exact absurd rfl hkind
  | _ =>
    cases h
    refine ⟨nofun, fun received => ?_⟩
    rw [fold_append]
    rfl

theorem Inv.absent (h : Inv w cs) {id : String} (hnone : w.findAgent id = none) (name : String) :
    (w.roster name).lookup id = none := by
  rw [← h.served]
  unfold World.served
  split_ifs with hname
  · exact List.findSome?_eq_none_iff.mp hnone name hname
  · rfl

theorem Inv.receive (h : Inv w cs) {sub : Nat} (ok : Sound w (.receive sub))
    (hs : w.step (.receive sub) = some w') : Inv w' cs := by
  obtain ⟨⟨s, name, e⟩, hnext, hs⟩ := Option.bind_eq_some_iff.mp hs
  obtain ⟨hat, hseeded, hev⟩ := next_spec hnext
  obtain ⟨hp, c, hc, hrenders⟩ := h.rendered hev
  dsimp only at hs
  split at hs
  · cases hs
  · rename_i hready
    cases hs
    refine h.setSubscriber hp fun _ n id => ?_
    have hold := h.tracks sub s hat hseeded n id
    by_cases hkind : e.kind = .agentDiscovered
    · obtain ⟨agent, kind⟩ := e
      obtain rfl : kind = .agentDiscovered := hkind
      obtain ⟨status, rfl⟩ : ∃ status, c = .appear (name, agent) status := hrenders
      have hthere : w.findAgent agent ≠ none := by simpa [World.waits] using hready
      obtain ⟨found, hfound⟩ := Option.ne_none_iff_exists'.mp hthere
      have hown := (ok s name _ hnext rfl).symm.trans hfound
      have hfold : fold (s.received ++ (w.eventToChange (name, ⟨agent, .agentDiscovered⟩)).toList) =
          Feed.apply (fold s.received) (.appear (name, agent) found) := by
        rw [fold_append]
        simp only [World.eventToChange, hfound]
        rfl
      rw [hfold]
      by_cases he : (n, id) = (name, agent)
      · cases he
        exact Tracks.resolve (h.mirrors name) (h.calm name) h.valid hc hown
          (Function.update_self ..)
      · exact (hold.pass h.valid hc he).congr (Function.update_of_ne he ..)
    · obtain ⟨hnot, hfold⟩ := event_effect w hrenders hkind
      rw [hfold]
      exact hold.read h.valid hc (hnot _)

theorem Inv.giveUp (h : Inv w cs) {sub : Nat} (ok : Sound w (.giveUp sub))
    (hs : w.step (.giveUp sub) = some w') : Inv w' cs := by
  obtain ⟨⟨s, name, e⟩, hnext, hs⟩ := Option.bind_eq_some_iff.mp hs
  obtain ⟨hat, hseeded, hev⟩ := next_spec hnext
  obtain ⟨hp, c, hc, hrenders⟩ := h.rendered hev
  dsimp only at hs
  split at hs
  · rename_i hwaits
    cases hs
    refine h.setSubscriber hp fun _ n id => ?_
    have hold := h.tracks sub s hat hseeded n id
    obtain ⟨agent, kind⟩ := e
    cases kind with
    | agentDiscovered =>
      obtain ⟨status, rfl⟩ : ∃ status, c = .appear (name, agent) status := hrenders
      have hnone : w.findAgent agent = none := by simpa [World.waits] using hwaits
      by_cases he : (n, id) = (name, agent)
      · cases he
        exact Tracks.giveUp (h.mirrors name) hold h.valid hc (h.absent hnone name)
          (ok s name _ hnext)
      · exact hold.pass h.valid hc he
    | _ => cases hwaits
  · cases hs

theorem Inv.seed (h : Inv w cs) {sub : Nat} (ok : Sound w (.seed sub))
    (hs : w.step (.seed sub) = some w') : Inv w' cs := by
  obtain ⟨s, hat, hs⟩ := Option.bind_eq_some_iff.mp hs
  split at hs
  · cases hs
  · cases hs
    have hp := h.position sub s hat
    refine h.setSubscriber (s := ⟨s.position, true, w.seedOf⟩) hp fun _ name id => ?_
    refine Tracks.seed (h.mirrors name) (h.calm name) (h.renders.length_eq ▸ hp) ?_ ?_
    · intro call own records pending hx hne
      rcases ok s hat name call own records pending hx id hne with hleft | ⟨e, he, rfl, htells⟩
      · exact Or.inl hleft
      · obtain ⟨i, hi⟩ := List.mem_iff_getElem?.mp he
        rw [List.getElem?_drop] at hi
        obtain ⟨-, c, hc, hrenders⟩ := h.rendered hi
        refine Or.inr ⟨c, ?_, ?_⟩
        · rw [List.mem_iff_getElem?]
          exact ⟨i, by rw [List.getElem?_drop, hc]⟩
        · obtain ⟨agent, kind⟩ := e
          cases kind with
          | agentDiscovered =>
            obtain ⟨status, rfl⟩ := hrenders
            rfl
          | statusChanged _ _ | agentGone =>
            cases hrenders
            rfl
          | _ => exact htells.elim
    · rw [fold_seed fun n => (h.calm n).snapshot, h.served]
      rfl

theorem Inv.step (h : Inv w cs) (ok : Sound w a) (hs : w.step a = some w') :
    ∃ cs', Inv w' cs' := by
  cases a with
  | workspace name a => exact h.workspace ok hs
  | subscribe sub =>
    simp only [World.step] at hs
    split at hs
    · cases hs
      exact ⟨cs, h.setSubscriber le_rfl (by simp)⟩
    · cases hs
  | seed sub => exact ⟨cs, h.seed ok hs⟩
  | receive sub => exact ⟨cs, h.receive ok hs⟩
  | giveUp sub => exact ⟨cs, h.giveUp ok hs⟩

end Inv

/-- No subscriber has an agent whose removal is yet to be told of. -/
def Unshown (w : World) : Prop :=
  ∀ sub s, w.subscribers sub = some s → s.seeded = true → ∀ name id,
    Vacated (w.workspaces name) id → fold s.received (name, id) = none

section Unshown

variable {w w' : World} {a : Action} {cs : List (Change (String × String) AgentStatus)}

theorem vacated_back {v v' : Reconcile.World Unit} {a : Reconcile.Action Unit} {id : String}
    (hs : v.step a = some v') (h : Vacated v' id) : Vacated v id ∨
      ∃ call process, a = .prune call ∧ v.calls call = some ⟨process, .removed id⟩ ∧
        id ∈ (v.snapshot process).map Prod.fst := by
  obtain ⟨call, x, hx, hv⟩ := h
  rcases call_step hs hx with hold | hm
  · exact Or.inl ⟨call, x, hold, hv⟩
  · cases hm with
    | pruned _ process pruned slot listed =>
      obtain rfl : id = pruned := hv
      exact Or.inr ⟨call, process, rfl, slot, listed⟩
    | gone _ process gone slot =>
      obtain rfl : id = gone := hv
      exact Or.inl ⟨call, _, slot, rfl⟩
    | _ => exact hv.elim

theorem Inv.vacated (h : Inv w cs) {name id : String} (hv : Vacated (w.workspaces name) id) :
    (w.roster name).lookup id = none := vacated_absent (h.calm name) hv

theorem Unshown.setSubscriber (h : Unshown w) {sub : Nat} {s : Subscriber}
    (hs : s.seeded = true → ∀ name id, Vacated (w.workspaces name) id →
      fold s.received (name, id) = none) : Unshown (w.setSubscriber sub s) := by
  intro i t ht
  rcases Slots.update_some ht with ⟨rfl, rfl⟩ | ⟨_, ht⟩
  · exact hs
  · exact h i t ht

theorem Unshown.step (h : Unshown w) (hinv : Inv w cs) (ok : Sound w a) (hunseen : Unseen w a)
    (hs : w.step a = some w') : Unshown w' := by
  cases a with
  | workspace name a =>
    obtain ⟨v, _, _, hv, rfl⟩ := workspace_spec hs
    intro sub s hat hseeded n id hvacated
    by_cases hn : n = name
    · subst hn
      rcases vacated_back hv (by simpa using hvacated) with hold | ⟨call, process, rfl, hx, hlisted⟩
      · exact h sub s hat hseeded n id hold
      · exact hunseen _ id hx rfl hlisted sub s hat hseeded
    · exact h sub s hat hseeded n id (by simpa [hn] using hvacated)
  | subscribe sub =>
    simp only [World.step] at hs
    split at hs
    · cases hs
      exact h.setSubscriber (by simp)
    · cases hs
  | seed sub =>
    obtain ⟨s, hat, hs⟩ := Option.bind_eq_some_iff.mp hs
    split at hs
    · cases hs
    · cases hs
      refine h.setSubscriber (s := ⟨s.position, true, w.seedOf⟩) fun _ name id hvacated => ?_
      rw [fold_seed fun n => (hinv.calm n).snapshot, hinv.served, hinv.vacated hvacated]
  | receive sub =>
    obtain ⟨⟨s, name, e⟩, hnext, hs⟩ := Option.bind_eq_some_iff.mp hs
    obtain ⟨hat, hseeded, hev⟩ := next_spec hnext
    obtain ⟨-, c, hc, hrenders⟩ := hinv.rendered hev
    dsimp only at hs
    split at hs
    · cases hs
    · cases hs
      refine h.setSubscriber fun _ n id hvacated => ?_
      have hnone := h sub s hat hseeded n id hvacated
      by_cases hkind : e.kind = .agentDiscovered
      · obtain ⟨agent, kind⟩ := e
        obtain rfl : kind = .agentDiscovered := hkind
        have hown := ok s name _ hnext rfl
        rw [fold_append]
        simp only [World.eventToChange]
        cases hfound : w.findAgent agent with
        | none => exact hnone
        | some found =>
          have hne : (n, id) ≠ (name, agent) := by
            rintro ⟨⟩
            rw [hfound, hinv.vacated hvacated] at hown
            cases hown
          exact (Function.update_of_ne hne ..).trans hnone
      · obtain ⟨hnot, hfold⟩ := event_effect w hrenders hkind
        rw [hfold]
        exact Feed.apply_none hnone (hnot _)
  | giveUp sub =>
    obtain ⟨⟨s, name, e⟩, hnext, hs⟩ := Option.bind_eq_some_iff.mp hs
    obtain ⟨hat, hseeded, -⟩ := next_spec hnext
    dsimp only at hs
    split at hs
    · cases hs
      exact h.setSubscriber fun _ => h sub s hat hseeded
    · cases hs

theorem Unshown.converges (h : Unshown w) (hinv : Inv w cs) : Converges w := by
  intro sub s hs hseeded hdrained hidle
  funext ⟨name, id⟩
  by_cases hvacated : Vacated (w.workspaces name) id
  · rw [h sub s hs hseeded name id hvacated, hinv.served, hinv.vacated hvacated]
  · exact hinv.settles sub s hs hseeded hdrained hidle name id hvacated

end Unshown

/-- What a drained subscriber has is what the snapshot has, but for agents whose
removal is yet to be told of; and for these too, when no subscriber has an agent
that is taken off the snapshot. -/
theorem changes_converge (names : List String) (as : List Action) :
    (Machine.Steps World.step Sound (World.start names) as →
      Machine.Always World.step Settles (World.start names) as) ∧
    (Machine.Steps World.step (fun w a => Sound w a ∧ Unseen w a) (World.start names) as →
      Machine.Always World.step Converges (World.start names) as) := by
  constructor
  · intro h
    have hinv := Machine.always_of_steps (P := fun w => ∃ cs, Inv w cs)
      (fun _ _ _ ⟨_, h⟩ ok hs => h.step ok hs) ⟨[], .start names⟩ h
    exact Machine.always_mono (fun _ ⟨_, h⟩ => h.settles) hinv
  · intro h
    have hinv := Machine.always_of_steps (P := fun w => (∃ cs, Inv w cs) ∧ Unshown w)
      (fun _ _ _ ⟨⟨_, h⟩, hu⟩ ok hs => ⟨h.step ok.1 hs, hu.step h ok.1 ok.2 hs⟩)
      ⟨⟨[], .start names⟩, fun _ _ hs => by cases hs⟩ h
    exact Machine.always_mono (fun _ ⟨⟨_, h⟩, hu⟩ => hu.converges h) hinv

theorem run_unnamed (names : List String) (as : List Action) {w : World}
    (h : Machine.run World.step (World.start names) as = some w) : Unnamed w :=
  Machine.run_invariant (fun _ _ _ hu hs => Unnamed.step hu hs) (fun _ _ => rfl) h

def discoverPoll : List (Reconcile.Action Unit) :=
  readUp 0 ++ [.diff 0, .emit 0, .replace 0]

/-- A subscription, and a poll that discovers an agent. -/
def discoverRun : List Action :=
  [.subscribe 0, .seed 0, .workspace "web" (.caliband "a1" (some .running))] ++
    discoverPoll.map (.workspace "web") ++ [.receive 0]

theorem discoverRun_sound : Machine.Steps World.step (fun w a => Sound w a ∧ Unseen w a)
    (World.start ["web"]) discoverRun := by
  refine Machine.steps_cons ⟨trivial, trivial⟩ rfl ?_
  refine Machine.steps_cons ⟨?_, trivial⟩ rfl ?_
  · intro s _ name call own records pending hx
    cases hx
  refine Machine.steps_cons ⟨⟨trivial, trivial⟩, trivial⟩ rfl ?_
  refine Machine.steps_cons ⟨⟨trivial, trivial⟩, trivial⟩ rfl ?_
  refine Machine.steps_cons ⟨⟨?_, trivial⟩, trivial⟩ rfl ?_
  · intro other x hne hx
    rcases other with _ | n
    · exact absurd rfl hne
    · have hnone : none = some x := hx
      cases hnone
  refine Machine.steps_cons ⟨⟨trivial, trivial⟩, trivial⟩ rfl ?_
  have hfree : ∀ id : String, id ∉ [] := fun _ => List.not_mem_nil
  refine Machine.steps_cons ⟨⟨?_, ?_⟩, trivial⟩ rfl ?_
  · intro x own records prior _ _ id _ _ hattached
    exact absurd hattached (hfree id)
  · intro x own records prior _ _ id _ _
    exact hfree id
  refine Machine.steps_cons ⟨⟨trivial, trivial⟩, trivial⟩ rfl ?_
  refine Machine.steps_cons ⟨⟨trivial, trivial⟩, trivial⟩ rfl ?_
  refine ⟨⟨?_, trivial⟩, fun _ _ => trivial⟩
  intro s name e hnext _
  have hev : some ("web", (⟨"a1", .agentDiscovered⟩ : Entry)) = some (name, e) :=
    congrArg (Option.map Prod.snd) hnext
  cases hev
  rfl

theorem changes_converge_discovered :
    (∃ w, Machine.run World.step (World.start ["web"]) discoverRun = some w ∧ Settles w) ∧
      ∃ w, Machine.run World.step (World.start ["web"]) discoverRun = some w ∧ Converges w := by
  obtain ⟨hsettles, hconverges⟩ := changes_converge ["web"] discoverRun
  have hsound := Machine.steps_of_steps (P := fun _ => True) (fun _ _ _ h => h.1)
    (fun _ _ _ _ _ _ => trivial) trivial discoverRun_sound
  exact ⟨⟨_, rfl, Machine.always_end (hsettles hsound) rfl⟩,
    ⟨_, rfl, Machine.always_end (hconverges discoverRun_sound) rfl⟩⟩

def spawnedPoll : List (Reconcile.Action Unit) :=
  [.spawn 0 () "a1", .emit 0, .attach () ["a1"]] ++ readUp 1 ++ [.diff 1, .replace 1]

/-- An agent is spawned and attached to before the poll that first lists it. -/
def spawnRun : List Action :=
  [.subscribe 0, .seed 0] ++ spawnedPoll.map (.workspace "web") ++ [.receive 0]

theorem spawned_never_announced : ¬∀ (names : List String) (as : List Action),
    Machine.Always World.step Converges (World.start names) as := by
  intro h
  have hend := Machine.always_end (h ["web"] spawnRun) rfl
  have hunnamed := run_unnamed ["web"] spawnRun rfl
  have hfold := hend 0 _ rfl rfl rfl ?_
  · have hlost : (none : Option AgentStatus) = some .spawning := congrFun hfold ("web", "a1")
    cases hlost
  · intro name call x hx _
    by_cases hname : name = "web"
    · subst hname
      rcases call with _ | _ | n
      all_goals
        have hnone : none = some x := hx
        cases hnone
    · have hnot : name ∉ ["web"] := by simpa using hname
      rw [hunnamed name hnot] at hx
      cases hx

end Prospero.Proofs.WatchChanges
