import Prospero.Proofs.Timeouts

namespace Prospero.Proofs.Enforcement
open Prospero.Reconcile (Roster)
open Prospero.Deadlines
open Prospero.Proofs.Deadlines
open Prospero.Proofs.Timeouts (mem_expired)

variable {π τ : Type}

/-- The history has the deadline of the agent. -/
def SetIn (events : List FleetEvent) (id deadline : String) : Prop :=
  ∃ e ∈ events, e.agentId = id ∧ e.kind = .deadlineSet deadline

/-- Where every read of a pass has succeeded, it selects each agent that is listed
and not terminal, and whose deadline was on record when the pass began and has
passed. -/
def Enforces [LinearOrder τ] (parse : String → Option τ) (w : World π) : Prop :=
  ∀ call process agents, w.calls call = some ⟨process, .loading agents [] true⟩ →
    ∀ id status deadline, (id, status) ∈ agents → status.isTerminal = false →
    SetIn (w.recorded call) id deadline → ∀ t now, parse deadline = some t → t ≤ now →
    (id, deadline) ∈ expired parse now (w.deadlines process) agents

/-- The pass has gone past the agent, and counts on its deadline to stay cached. -/
def Relies : Phase → String → Prop
  | .loading agents rest _, id =>
    (∃ status, (id, status) ∈ agents ∧ status.isTerminal = false) ∧ id ∉ rest.map Prod.fst
  | .loaded agents rest loading _ _, id =>
    (∃ status, (id, status) ∈ agents ∧ status.isTerminal = false) ∧ id ∉ rest.map Prod.fst ∧
      id ≠ loading
  | _, _ => False

/-- Where a pass reads the history of an agent whose deadline is not cached, the
log still has the deadline; and a kill does not drop the deadline of an agent
that another pass of its process has gone past. -/
def Keeps (w : World π) : Action π τ → Prop
  | .load call true => ∀ process agents a rest complete,
      w.calls call = some ⟨process, .loading agents (a :: rest) complete⟩ →
      w.deadlines process a.1 = none →
      ∀ deadline, SetIn (w.recorded call) a.1 deadline → SetIn w.log a.1 deadline
  | .kill call true => ∀ process id due, w.calls call = some ⟨process, .timedOut id due⟩ →
      ∀ other phase, w.calls other = some ⟨process, phase⟩ → ¬Relies phase id
  | _ => True

/-- What a pass has gone past is cached, where its deadline was on record. -/
def Covers (deadlines : String → Option String) (recorded : List FleetEvent) : Phase → Prop
  | .loading agents rest true => ∀ id status deadline, (id, status) ∈ agents →
      status.isTerminal = false → SetIn recorded id deadline →
      id ∈ rest.map Prod.fst ∨ (deadlines id).isSome
  | .loaded agents rest loading _ true => ∀ id status deadline, (id, status) ∈ agents →
      status.isTerminal = false → SetIn recorded id deadline →
      id = loading ∨ id ∈ rest.map Prod.fst ∨ (deadlines id).isSome
  | _ => True

/-- A deadline in hand is the one the agent was spawned with. -/
def Names (timeouts : String → Option String) : Phase → Prop
  | .spawned id deadline | .setting id deadline => timeouts id = some deadline
  | .loaded _ _ id deadline _ => id ≠ "" → timeouts id = some deadline
  | _ => True

structure Kept (w : World π) : Prop where
  log : w.log.Sublist w.stored
  named : w.timeouts "" = none
  texts : ∀ id deadline, SetIn w.stored id deadline → w.timeouts id = some deadline
  phases : ∀ call x, w.calls call = some x → Names w.timeouts x.phase
  cache : ∀ process id deadline, w.deadlines process id = some deadline → id ≠ "" →
    w.timeouts id = some deadline
  recorded : ∀ call, w.recorded call ⊆ w.stored
  covers : ∀ call process phase, w.calls call = some ⟨process, phase⟩ →
    Covers (w.deadlines process) (w.recorded call) phase

theorem SetIn.mono {events events' : List FleetEvent} (h : events ⊆ events') {id deadline : String}
    (hs : SetIn events id deadline) : SetIn events' id deadline := by
  obtain ⟨e, he, hid, hkind⟩ := hs
  exact ⟨e, h he, hid, hkind⟩

theorem Kept.enforces [LinearOrder τ] {parse : String → Option τ} {w : World π} (h : Kept w) :
    Enforces parse w := by
  intro call process agents hslot id status deadline hmem hlive hset t now ht hdue
  have hspawned := h.texts id deadline (hset.mono (h.recorded call))
  have hid : id ≠ "" := by
    rintro rfl
    cases h.named.symm.trans hspawned
  rcases h.covers call process _ hslot id status deadline hmem hlive hset with hrest | hcached
  · cases hrest
  · obtain ⟨d, hd⟩ := Option.isSome_iff_exists.mp hcached
    obtain rfl := Option.some.inj (hspawned.symm.trans (h.cache process id d hd hid))
    exact mem_expired.mpr ⟨status, hmem, hlive, hd, t, ht, hdue⟩

theorem Kept.start : Kept (World.start : World π) := by
  refine ⟨List.Sublist.refl _, rfl, ?_, ?_, ?_, fun _ => List.Subset.refl _, ?_⟩
  · rintro id deadline ⟨e, he, -⟩
    cases he
  · intro call x hx
    cases hx
  · intro process id deadline hd
    cases hd
  · intro call process phase hx
    cases hx

section History

variable {log : List FleetEvent} {repo id deadline : String}

theorem mem_replay {key : StreamKey} {e : FleetEvent} :
    e ∈ Store.replay log key 0 ↔ e ∈ log ∧ e.streamKey = key := by
  unfold Store.replay
  rw [List.mem_insertionSort, List.mem_filter]
  simp

theorem deadlineIn_some (h : deadlineIn log = some deadline) :
    ∃ e ∈ log, e.kind = .deadlineSet deadline := by
  obtain ⟨e, he, hd⟩ := List.exists_of_findSome?_eq_some h
  refine ⟨e, List.mem_reverse.mp he, ?_⟩
  cases hk : e.kind <;> simp [deadlineOf, hk] at hd
  rw [hd]

theorem deadlineIn_none (h : deadlineIn log = none) {e : FleetEvent} (he : e ∈ log)
    (hk : e.kind = .deadlineSet deadline) : False := by
  have hnone := List.findSome?_eq_none_iff.mp h e (List.mem_reverse.mpr he)
  simp [deadlineOf, hk] at hnone

/-- An agent's events are on the stream of its id. -/
theorem streamKey_agent {e : FleetEvent} (h : e.agentId ≠ "") : e.streamKey = e.agentId := by
  simp [FleetEvent.streamKey, streamKeyFor, h]

end History

section Step

variable [DecidableEq π] [LinearOrder τ] {parse : String → Option τ} {repo : String}
  {w w' : World π} {a : Action π τ}

/-- What an action does to the cached deadlines. -/
inductive CacheStep (w w' : World π) : Action π τ → Prop
  | same {a : Action π τ} (alive : ∀ process, a ≠ .restart process)
      (eq : w'.deadlines = w.deadlines) : CacheStep w w' a
  | restart (process : π) (eq : w'.deadlines = Function.update w.deadlines process fun _ => none) :
      CacheStep w w' (.restart process)
  | cached (call : Nat) (process : π) (id deadline : String)
      (slot : w.calls call = some ⟨process, .spawned id deadline⟩)
      (eq : w'.deadlines = (w.setDeadline process id (some deadline)).deadlines) :
      CacheStep w w' (.cache call)
  | inserted (call : Nat) (process : π) (agents rest : Roster) (id deadline : String)
      (complete : Bool)
      (slot : w.calls call = some ⟨process, .loaded agents rest id deadline complete⟩)
      (eq : w'.deadlines = (w.setDeadline process id (some deadline)).deadlines) :
      CacheStep w w' (.insert call)
  | dropped (call : Nat) (process : π) (id : String) (due : List (String × String))
      (slot : w.calls call = some ⟨process, .timedOut id due⟩)
      (eq : w'.deadlines = (w.setDeadline process id none).deadlines) :
      CacheStep w w' (.kill call true)

omit [LinearOrder τ] in
theorem setDeadline_eq (w : World π) (process other : π) (id i : String)
    (deadline : Option String) : (w.setDeadline other i deadline).deadlines process id =
      if process = other ∧ id = i then deadline else w.deadlines process id := by
  by_cases hp : process = other
  · subst hp
    by_cases hi : id = i
    · subst hi
      simp [World.setDeadline]
    · simp [World.setDeadline, hi]
  · simp [World.setDeadline, hp]

omit [LinearOrder τ] [DecidableEq π] in
/-- Reading the log for a deadline leaves all of them as they are. -/
theorem load_kept (w : World π) (repo : String) (call : Nat) (process : π) (agents rest : Roster)
    (id : String) (complete readOk : Bool) :
    (w.load repo call process agents rest id complete readOk).deadlines = w.deadlines ∧
      (w.load repo call process agents rest id complete readOk).timeouts = w.timeouts ∧
      (w.load repo call process agents rest id complete readOk).recorded = w.recorded := by
  obtain ⟨phase, hload⟩ := load_goTo w repo call process agents rest id complete readOk
  rw [hload]
  exact ⟨rfl, rfl, rfl⟩

omit [LinearOrder τ] in
theorem acquire_kept (w : World π) (process : π) :
    (w.tryAcquire process).1.deadlines = w.deadlines ∧
      (w.tryAcquire process).1.timeouts = w.timeouts ∧
      (w.tryAcquire process).1.recorded = w.recorded := by
  unfold World.tryAcquire
  split <;> exact ⟨rfl, rfl, rfl⟩

theorem cache_step (h : w.step parse repo a = some w') : CacheStep w w' a := by
  cases step_effect h with
  | restart process => exact .restart process rfl
  | cache call process id deadline slot =>
    exact .cached call process id deadline slot rfl
  | insert call process agents rest id deadline complete slot =>
    exact .inserted call process agents rest id deadline complete slot rfl
  | killed call process id due slot => exact .dropped call process id due slot rfl
  | setDeadline call process id deadline stamp stored slot
  | timeOut call stamp stored process id deadline due slot =>
    cases stored <;> exact .same (by simp) rfl
  | poll call process slot => exact .same (by simp) (acquire_kept w process).1
  | load call process agents b rest complete readOk slot => exact .same (by simp) (load_kept ..).1
  | _ => exact .same (by simp) rfl

/-- The deadline that an agent was spawned with stays. -/
theorem timeouts_step (h : w.step parse repo a = some w') :
    w'.timeouts = w.timeouts ∨ ∃ call process id deadline, a = .spawn call process id deadline ∧
      id ≠ "" ∧ w.timeouts id = none ∧
      w'.timeouts = Function.update w.timeouts id (some deadline) := by
  cases step_effect h with
  | spawn call process id deadline slot named fresh =>
    exact Or.inr ⟨call, process, id, deadline, rfl, named, fresh, rfl⟩
  | setDeadline call process id deadline stamp stored slot
  | timeOut call stamp stored process id deadline due slot =>
    cases stored <;> exact Or.inl rfl
  | poll call process slot => exact Or.inl (acquire_kept w process).2.1
  | load call process agents b rest complete readOk slot => exact Or.inl (load_kept ..).2.1
  | _ => exact Or.inl rfl

theorem timeouts_mono (h : w.step parse repo a = some w') {id deadline : String}
    (hs : w.timeouts id = some deadline) : w'.timeouts id = some deadline := by
  rcases timeouts_step h with heq | ⟨call, process, i, d, -, -, hfresh, heq⟩
  · rw [heq, hs]
  · have hne : id ≠ i := by
      rintro rfl
      cases hfresh.symm.trans hs
    rw [heq, Function.update_of_ne hne, hs]

theorem recorded_step (h : w.step parse repo a = some w') :
    w'.recorded = w.recorded ∨ ∃ call process, a = .copy call ∧
      w.calls call = some ⟨process, .enforcing⟩ ∧
      w'.recorded = Function.update w.recorded call w.stored := by
  cases step_effect h with
  | copy call process slot => exact Or.inr ⟨call, process, rfl, slot, rfl⟩
  | setDeadline call process id deadline stamp stored slot
  | timeOut call stamp stored process id deadline due slot =>
    cases stored <;> exact Or.inl rfl
  | poll call process slot => exact Or.inl (acquire_kept w process).2.2
  | load call process agents b rest complete readOk slot => exact Or.inl (load_kept ..).2.2
  | _ => exact Or.inl rfl

theorem stored_subset (h : w.step parse repo a = some w') : w.stored ⊆ w'.stored := by
  cases appends h with
  | quiet stored log => exact stored ▸ List.Subset.refl _
  | other e untimed running stored log => exact stored ▸ List.subset_append_left ..
  | deadline call process id deadline stamp e slot event stored log =>
    exact stored ▸ List.subset_append_left ..
  | timeout call process id deadline due stamp e slot event stored log moved =>
    exact stored ▸ List.subset_append_left ..

theorem Kept.texts_step (h : Kept w) (hs : w.step parse repo a = some w') {id deadline : String}
    (hset : SetIn w'.stored id deadline) : w'.timeouts id = some deadline := by
  have hold (hset : SetIn w.stored id deadline) : w'.timeouts id = some deadline :=
    timeouts_mono hs (h.texts id deadline hset)
  obtain ⟨e', he, hid, hkind⟩ := hset
  cases appends hs with
  | quiet stored log => exact hold ⟨e', stored ▸ he, hid, hkind⟩
  | other e untimed running stored log =>
    rw [stored] at he
    rcases List.mem_append.mp he with he | he
    · exact hold ⟨e', he, hid, hkind⟩
    · cases List.mem_singleton.mp he
      rw [hkind] at untimed
      cases untimed
  | deadline call process i d stamp e slot event stored log =>
    rw [stored] at he
    rcases List.mem_append.mp he with he | he
    · exact hold ⟨e', he, hid, hkind⟩
    · cases List.mem_singleton.mp he
      subst event
      cases hid
      cases hkind
      exact timeouts_mono hs (h.phases call _ slot)
  | timeout call process i d due stamp e slot event stored log moved =>
    rw [stored] at he
    rcases List.mem_append.mp he with he | he
    · exact hold ⟨e', he, hid, hkind⟩
    · cases List.mem_singleton.mp he
      subst event
      cases hkind

omit [DecidableEq π] in
/-- A deadline that is read back from the log is the agent's own. -/
theorem Kept.read (h : Kept w) {id deadline : String} {readOk : Bool}
    (hread : deadlineIn (history w repo id readOk) = some deadline) (hid : id ≠ "") :
    w.timeouts id = some deadline := by
  obtain ⟨e, he, hkind⟩ := deadlineIn_some hread
  unfold history at he
  split at he
  · obtain ⟨he, hkey⟩ := mem_replay.mp he
    have hspawned := h.texts e.agentId deadline ⟨e, h.log.subset he, rfl, hkind⟩
    have hagent : e.agentId ≠ "" := by
      intro hempty
      rw [hempty, h.named] at hspawned
      cases hspawned
    rw [streamKey_agent hagent] at hkey
    have hsame : e.agentId = id := by simpa [streamKeyFor, hid] using hkey
    exact hsame ▸ hspawned
  · cases he

theorem Kept.phases_step (h : Kept w) (hs : w.step parse repo a = some w') {call : Nat}
    {x : Call π} (hx : w'.calls call = some x) : Names w'.timeouts x.phase := by
  have hmono (phase : Phase) (hp : Names w.timeouts phase) : Names w'.timeouts phase := by
    cases phase with
    | spawned id deadline | setting id deadline => exact timeouts_mono hs hp
    | loaded agents rest id deadline complete => exact fun hid => timeouts_mono hs (hp hid)
    | _ => trivial
  rcases call_step hs hx with hold | hm
  · exact hmono x.phase (h.phases call x hold)
  · cases hm with
    | spawned _ process id deadline =>
      cases step_effect hs with
      | spawn _ _ _ _ slot named fresh => exact Function.update_self ..
    | setting _ process id deadline slot =>
      have hspawned := h.phases call _ slot
      exact timeouts_mono hs hspawned
    | found _ process agents b rest complete readOk deadline slot read =>
      exact fun hid => timeouts_mono hs (h.read read hid)
    | _ => trivial

theorem Kept.cache_step (h : Kept w) (hs : w.step parse repo a = some w') {process : π}
    {id deadline : String} (hd : w'.deadlines process id = some deadline) (hid : id ≠ "") :
    w'.timeouts id = some deadline := by
  apply timeouts_mono hs
  cases Enforcement.cache_step hs with
  | same alive eq =>
    rw [eq] at hd
    exact h.cache process id deadline hd hid
  | restart p eq =>
    rw [eq] at hd
    by_cases hp : process = p
    · subst hp
      rw [Function.update_self] at hd
      cases hd
    · rw [Function.update_of_ne hp] at hd
      exact h.cache process id deadline hd hid
  | cached call p i d slot eq =>
    rw [eq, setDeadline_eq] at hd
    split_ifs at hd with hsame
    · obtain ⟨rfl, rfl⟩ := hsame
      cases hd
      exact h.phases call _ slot
    · exact h.cache process id deadline hd hid
  | inserted call p agents rest i d complete slot eq =>
    rw [eq, setDeadline_eq] at hd
    split_ifs at hd with hsame
    · obtain ⟨rfl, rfl⟩ := hsame
      cases hd
      exact h.phases call _ slot hid
    · exact h.cache process id deadline hd hid
  | dropped call p i due slot eq =>
    rw [eq, setDeadline_eq] at hd
    split_ifs at hd with hsame
    exact h.cache process id deadline hd hid

theorem Kept.recorded_step (h : Kept w) (hs : w.step parse repo a = some w') (call : Nat) :
    w'.recorded call ⊆ w'.stored := by
  have hsub : w'.recorded call ⊆ w.stored := by
    rcases Enforcement.recorded_step hs with heq | ⟨other, process, -, -, heq⟩
    · exact heq ▸ h.recorded call
    · rw [heq]
      by_cases hcall : call = other
      · subst hcall
        rw [Function.update_self]
        exact List.Subset.refl _
      · rw [Function.update_of_ne hcall]
        exact h.recorded call
  exact List.Subset.trans hsub (stored_subset hs)

theorem Covers.mono {deadlines deadlines' : String → Option String} {recorded : List FleetEvent}
    {phase : Phase} (h : Covers deadlines recorded phase)
    (hkeep : ∀ id, Relies phase id → (deadlines id).isSome → (deadlines' id).isSome) :
    Covers deadlines' recorded phase := by
  cases phase with
  | loading agents rest complete =>
    cases complete with
    | false => trivial
    | true =>
      intro id status deadline hmem hlive hset
      by_cases hrest : id ∈ rest.map Prod.fst
      · exact Or.inl hrest
      · have hcached := (h id status deadline hmem hlive hset).resolve_left hrest
        exact Or.inr (hkeep id ⟨⟨status, hmem, hlive⟩, hrest⟩ hcached)
  | loaded agents rest loading text complete =>
    cases complete with
    | false => trivial
    | true =>
      intro id status deadline hmem hlive hset
      by_cases hnow : id = loading
      · exact Or.inl hnow
      · by_cases hrest : id ∈ rest.map Prod.fst
        · exact Or.inr (Or.inl hrest)
        · have hlater := (h id status deadline hmem hlive hset).resolve_left hnow
          have hcached := hlater.resolve_left hrest
          exact Or.inr (Or.inr (hkeep id ⟨⟨status, hmem, hlive⟩, hrest, hnow⟩ hcached))
  | _ => trivial

/-- What a pass counts on stays cached. -/
theorem relied_step (hok : Keeps w a) (hs : w.step parse repo a = some w') {call : Nat}
    {process : π} {phase : Phase} (hold : w.calls call = some ⟨process, phase⟩)
    (hnew : w'.calls call = some ⟨process, phase⟩) {id : String} (hrelies : Relies phase id)
    (hcached : (w.deadlines process id).isSome) : (w'.deadlines process id).isSome := by
  cases cache_step hs with
  | same alive eq => exact eq ▸ hcached
  | restart p eq =>
    cases hs
    have hp : process ≠ p := of_decide_eq_true (Option.filter_eq_some_iff.mp hnew).2
    rw [eq, Function.update_of_ne hp]
    exact hcached
  | cached other p i d slot eq | inserted other p agents rest i d complete slot eq =>
    rw [eq, setDeadline_eq]
    split_ifs
    · rfl
    · exact hcached
  | dropped other p i due slot eq =>
    rw [eq, setDeadline_eq]
    split_ifs with hsame
    · obtain ⟨rfl, rfl⟩ := hsame
      exact absurd hrelies (hok process id due slot call phase hold)
    · exact hcached

theorem covers_old (h : Kept w) (hok : Keeps w a) (hs : w.step parse repo a = some w') {call : Nat}
    {process : π} {phase : Phase} (hold : w.calls call = some ⟨process, phase⟩)
    (hnew : w'.calls call = some ⟨process, phase⟩) :
    Covers (w'.deadlines process) (w'.recorded call) phase := by
  have hcovers : Covers (w'.deadlines process) (w.recorded call) phase :=
    (h.covers call process phase hold).mono fun _ => relied_step hok hs hold hnew
  rcases recorded_step hs with heq | ⟨other, p, -, hslot, heq⟩
  · exact heq ▸ hcovers
  · rw [heq]
    by_cases hcall : call = other
    · subst hcall
      cases hold.symm.trans hslot
      trivial
    · rw [Function.update_of_ne hcall]
      exact hcovers

/-- Reading one agent's history leaves the cache and the pass's record alone. -/
theorem load_frame {call : Nat} {readOk : Bool}
    (hs : w.step parse repo (.load call readOk) = some w') :
    w'.deadlines = w.deadlines ∧ w'.recorded = w.recorded := by
  cases step_effect hs with
  | load _ process agents b rest complete _ slot => exact ⟨(load_kept ..).1, (load_kept ..).2.2⟩

section Covers

variable {deadlines deadlines' : String → Option String} {recorded : List FleetEvent}
  {agents rest : Roster} {id deadline : String} {status : AgentStatus} {complete : Bool}

/-- A pass goes past an agent whose deadline is cached or was not on record. -/
theorem Covers.past
    (h : Covers deadlines recorded (.loading agents ((id, status) :: rest) complete))
    (hid : ∀ deadline, SetIn recorded id deadline → (deadlines id).isSome) :
    Covers deadlines recorded (.loading agents rest complete) := by
  cases complete with
  | false => trivial
  | true =>
    intro i s d hmem hlive hset
    rcases h i s d hmem hlive hset with hrest | hcached
    · rcases List.mem_cons.mp hrest with rfl | hrest
      · exact Or.inr (hid d hset)
      · exact Or.inl hrest
    · exact Or.inr hcached

/-- A deadline that was read back is still to be cached. -/
theorem Covers.found
    (h : Covers deadlines recorded (.loading agents ((id, status) :: rest) complete))
    (deadline : String) (readOk : Bool) :
    Covers deadlines recorded (.loaded agents rest id deadline (complete && readOk)) := by
  cases complete with
  | false => trivial
  | true =>
    cases readOk with
    | false => trivial
    | true =>
      intro i s d hmem hlive hset
      rcases h i s d hmem hlive hset with hrest | hcached
      · rcases List.mem_cons.mp hrest with rfl | hrest
        · exact Or.inl rfl
        · exact Or.inr (Or.inl hrest)
      · exact Or.inr (Or.inr hcached)

theorem Covers.inserted (h : Covers deadlines recorded (.loaded agents rest id deadline complete))
    (hid : (deadlines' id).isSome) (hkeep : ∀ i, (deadlines i).isSome → (deadlines' i).isSome) :
    Covers deadlines' recorded (.loading agents rest complete) := by
  cases complete with
  | false => trivial
  | true =>
    intro i s d hmem hlive hset
    rcases h i s d hmem hlive hset with rfl | hrest | hcached
    · exact Or.inr hid
    · exact Or.inl hrest
    · exact Or.inr (hkeep i hcached)

end Covers

omit [DecidableEq π] in
/-- A history that is read and has no deadline is of an agent that was spawned
without one, where the log still has what the pass found on record. -/
theorem Kept.absent (h : Kept w) {call : Nat} {id deadline : String}
    (absent : deadlineIn (Store.replay w.log (streamKeyFor repo id) 0) = none)
    (hlog : SetIn (w.recorded call) id deadline → SetIn w.log id deadline) :
    ¬SetIn (w.recorded call) id deadline := by
  intro hset
  obtain ⟨e, he, rfl, hkind⟩ := hlog hset
  have hspawned := h.texts e.agentId deadline (hset.mono (h.recorded call))
  have hagent : e.agentId ≠ "" := by
    intro hempty
    rw [hempty, h.named] at hspawned
    cases hspawned
  refine deadlineIn_none absent (mem_replay.mpr ⟨he, ?_⟩) hkind
  rw [streamKey_agent hagent]
  simp [streamKeyFor, hagent]

theorem covers_moved (h : Kept w) (hok : Keeps w a) (hs : w.step parse repo a = some w')
    {call : Nat} {process : π} {phase : Phase} (hm : Moves parse repo w a call ⟨process, phase⟩) :
    Covers (w'.deadlines process) (w'.recorded call) phase := by
  cases hm with
  | copied _ _ =>
    intro id status deadline hmem hlive hset
    refine Or.inl (List.mem_map.mpr ⟨(id, status), ?_, rfl⟩)
    exact List.mem_filter.mpr ⟨hmem, by simp [hlive]⟩
  | cached _ _ agents b rest complete readOk slot known =>
    obtain ⟨hdeadlines, hrecorded⟩ := load_frame hs
    rw [hdeadlines, hrecorded]
    exact (h.covers call process _ slot).past fun _ _ => known
  | missed _ _ agents b rest complete readOk slot unknown absent =>
    obtain ⟨hdeadlines, hrecorded⟩ := load_frame hs
    rw [hdeadlines, hrecorded]
    cases readOk with
    | false =>
      rw [Bool.and_false]
      trivial
    | true =>
      rw [Bool.and_true]
      apply (h.covers call process _ slot).past
      intro deadline hset
      have hlog := hok process agents b rest complete slot unknown deadline
      exact absurd hset (h.absent absent hlog)
  | found _ _ agents b rest complete readOk deadline slot read =>
    obtain ⟨hdeadlines, hrecorded⟩ := load_frame hs
    rw [hdeadlines, hrecorded]
    exact (h.covers call process _ slot).found deadline readOk
  | inserted _ _ agents rest id deadline complete slot =>
    cases step_effect hs with
    | insert _ p agents' rest' id' deadline' complete' slot' =>
      cases slot.symm.trans slot'
      change Covers ((w.setDeadline process id (some deadline)).deadlines process)
        (w.recorded call) _
      apply (h.covers call process _ slot).inserted
      · rw [setDeadline_eq, if_pos ⟨rfl, rfl⟩]
        rfl
      · intro i hcached
        rw [setDeadline_eq]
        split_ifs
        · rfl
        · exact hcached
  | _ => trivial

theorem Kept.step (h : Kept w) (hok : Keeps w a) (hs : w.step parse repo a = some w') :
    Kept w' where
  log := log_sublist hs h.log
  named := by
    rcases timeouts_step hs with heq | ⟨call, process, id, deadline, -, hid, -, heq⟩
    · rw [heq, h.named]
    · rw [heq, Function.update_of_ne hid.symm, h.named]
  texts _ _ := h.texts_step hs
  phases _ _ := h.phases_step hs
  cache _ _ _ := h.cache_step hs
  recorded := h.recorded_step hs
  covers call process phase hx := by
    rcases call_step hs hx with hold | hm
    · exact covers_old h hok hs hold hx
    · exact covers_moved h hok hs hm

end Step

/-- Where retention leaves the deadlines that a pass is yet to read back, and no
overlapping pass drops one in between, each pass of the owner of the lifecycle
lease selects every overdue agent. -/
theorem deadlines_enforced [DecidableEq π] [LinearOrder τ] (parse : String → Option τ)
    (repo : String) (as : List (Action π τ))
    (h : Machine.Steps (World.step parse repo) Keeps World.start as) :
    Machine.Always (World.step parse repo) (Enforces parse) World.start as :=
  Machine.always_mono (fun _ => Kept.enforces)
    (Machine.always_of_steps (fun _ _ _ hw hok hs => hw.step hok hs) Kept.start h)

/-- An agent is spawned with a deadline, and the process starts over. -/
def restartedRun : List (Deadlines.Action Unit Nat) :=
  [.spawn 0 () "a1" "2026-08-01T12:00:00+00:00", .cache 0,
    .setDeadline 0 ⟨2, "2026-07-01T12:00:00+00:00"⟩ true, .restart ()]

/-- A poll reads the deadline back. -/
def reloadedRun : List (Deadlines.Action Unit Nat) :=
  restartedRun ++ [.poll 0 (), .list 0, .replace 0, .copy 0, .load 0 true, .insert 0]

theorem reloadedRun_keeps : Machine.Steps (World.step Timeouts.seconds "web") Keeps
    (World.start : World Unit) reloadedRun := by
  iterate 8 refine Machine.steps_cons trivial rfl ?_
  refine Machine.steps_cons ?_ rfl (Machine.steps_cons trivial rfl trivial)
  rintro process agents a rest complete hslot - deadline hset
  exact hset

theorem deadlines_enforced_reloaded : ∃ w : World Unit,
    Machine.run (World.step Timeouts.seconds "web") World.start reloadedRun = some w ∧
    w.calls 0 = some ⟨(), .loading [("a1", .spawning)] [] true⟩ ∧
    w.deadlines () "a1" = some "2026-08-01T12:00:00+00:00" ∧
    Enforces Timeouts.seconds w :=
  ⟨_, rfl, rfl, rfl, Machine.always_end
    (deadlines_enforced Timeouts.seconds "web" reloadedRun reloadedRun_keeps) rfl⟩

/-- Retention drops the deadline before a poll could read it back. -/
def prunedRun : List (Deadlines.Action Unit Nat) :=
  restartedRun ++ [.prune "2026-07-15T00:00:00+00:00", .poll 0 (), .list 0, .replace 0, .copy 0,
    .load 0 true]

theorem deadline_lost : ¬∀ (repo : String) (as : List (Deadlines.Action Unit Nat)),
    Machine.Always (World.step Timeouts.seconds repo) (Enforces Timeouts.seconds)
      (World.start : World Unit) as := by
  intro h
  have hend := Machine.always_end (h "web" prunedRun) rfl
  have hdue := hend 0 () [("a1", .spawning)] rfl "a1" .spawning "2026-08-01T12:00:00+00:00"
    (List.mem_singleton.mpr rfl) rfl ⟨_, List.mem_singleton.mpr rfl, rfl, rfl⟩
    1785585600 1785585601 rfl (by decide)
  cases hdue

end Prospero.Proofs.Enforcement
