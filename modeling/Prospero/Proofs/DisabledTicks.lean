import Prospero.Proofs.AutomationEngine

namespace Prospero.Proofs.DisabledTicks
open Prospero.Automations Prospero.Proofs.Automations

section Switch

variable {τ : Type*} [LinearOrder τ]

/-- Of a log of settings, the latest one at the instant or before it is off. -/
def OffAt (log : List (τ × Bool)) (s : τ) : Prop :=
  ((log.filter fun e => e.1 ≤ s).getLast?).map Prod.snd = some false

instance (log : List (τ × Bool)) (s : τ) : Decidable (OffAt log s) :=
  inferInstanceAs (Decidable (_ = _))

theorem offAt_snoc {log : List (τ × Bool)} {t s : τ} {on : Bool} (h : s < t) :
    OffAt (log ++ [(t, on)]) s ↔ OffAt log s := by
  have hlater : [(t, on)].filter (fun e => e.1 ≤ s) = [] := by simp [h]
  rw [OffAt, List.filter_append, hlater, List.append_nil]
  rfl

end Switch

section Model

variable {κ : Type}

/-- The engines by the clock, with the settings of every automation and their times. -/
structure Timed (κ : Type) where
  world : World κ
  clock : DateTime
  settings : String → List (DateTime × Bool)

/-- An automation that is gone is not disabled. -/
def note (w : World κ) (t : DateTime) (r : String → List (DateTime × Bool)) :
    Action κ → String → List (DateTime × Bool)
  | .next call =>
    match w.calls call with
    | some (.inserting stored) | some (.updating stored) => Function.update r stored.automation.id
        (r stored.automation.id ++ [(t, stored.automation.enabled)])
    | some (.deleting id) => Function.update r id (r id ++ [(t, true)])
    | _ => r
  | _ => r

/-- Time does not run backwards, and a pass is given the time it begins at. -/
def onTime (clock t : DateTime) : Action κ → Bool
  | .begin _ (.tick now) => clock ≤ t && now = t
  | _ => clock ≤ t

variable [DecidableEq κ] {σ : Type} (crates : Crates σ)

def Timed.step (o : Timed κ) (a : DateTime × Action κ) : Option (Timed κ) :=
  if onTime o.clock a.1 a.2 then
    (o.world.step crates a.2).map fun w => ⟨w, a.1, note o.world a.1 o.settings a.2⟩
  else none

def Timed.start (t : DateTime) : Timed κ := ⟨World.start, t, fun _ => []⟩

/-- A schedule's ticks are whole seconds, and the tick before an instant is not the instant. -/
def Prior : Prop := ∀ schedule now tick, crates.before schedule now = some tick →
  tick.nanosecond = 0 ∧ tick < now

/-- The automation was read as enabled, and the latest tick of its schedule is one it has not
fired since. -/
structure Owes (a : Automation) (now tick : DateTime) : Prop where
  enabled : a.enabled = true
  due : ∃ schedule parsed, a.trigger = .cron schedule ∧ parseSchedule crates schedule = .ok parsed ∧
    crates.before parsed now = some tick
  since : ∃ since, crates.parseFromRfc3339 (anchor a) = some since ∧ since < tick

/-- Where a pass comes to an automation that owes a tick, of which no fire is written down, it
was not disabled at the time of that tick. -/
def Undisabled (o : Timed κ) (a : DateTime × Action κ) : Prop :=
  match a.2 with
  | .next call =>
    match o.world.calls call with
    | some (.ticking ⟨now, stored :: _⟩) => ∀ tick row, Owes crates stored.automation now tick →
        rowOf o.world.rows stored.automation.id = some row → row.isBefore (stamp tick) = true →
        ¬OffAt (o.settings stored.automation.id) tick
    | _ => True
  | _ => True

/-- No tick of a time at which the automation was disabled is claimed, and for none a scheduled
run has spawned. -/
def NotReplayed (o : Timed κ) : Prop :=
  ∀ id (tick : DateTime), tick.nanosecond = 0 → OffAt (o.settings id) tick →
    (∀ call, .claimed call id (stamp tick) ∉ o.world.history) ∧
    ∀ call run execution, .ensured call run execution ∈ o.world.history →
      run.source = .schedule → run.automationId = id → run.firedAt ≠ stamp tick

end Model

section Due

variable {σ : Type} {crates : Crates σ} {stored : StoredAutomation} {now : DateTime}

theorem dueTick_iff {fireAt : String} : dueTick crates stored now = some fireAt ↔
    ∃ tick, Owes crates stored.automation now tick ∧ fireAt = stamp tick := by
  constructor
  · intro h
    simp only [dueTick] at h
    split at h
    · rename_i schedule henabled htrigger
      split at h
      · cases h
      · rename_i since hsince
        obtain ⟨tick, hdue, rfl⟩ := Option.map_eq_some_iff.mp h
        obtain ⟨parsed, hparse, hbefore, hlt⟩ := dueFire_eq hdue
        exact ⟨tick, ⟨henabled, ⟨schedule, parsed, htrigger, hparse, hbefore⟩, since, hsince, hlt⟩,
          rfl⟩
    · cases h
  · rintro ⟨tick, ⟨henabled, hdue, since, hsince, hlt⟩, rfl⟩
    obtain ⟨schedule, parsed, htrigger, hparse, hbefore⟩ := hdue
    have hfire : dueFire crates schedule since now = some tick := by
      simp only [dueFire, hparse]
      exact Option.filter_eq_some_iff.mpr ⟨hbefore, decide_eq_true hlt⟩
    simp only [anchor] at hsince
    simp only [dueTick, henabled, htrigger, hsince, hfire, Option.map_some]

/-- A whole second is told by its stamp. -/
theorem stamp_inj {t u : DateTime} (ht : t.nanosecond = 0) (hu : u.nanosecond = 0)
    (h : stamp t = stamp u) : t = u := by
  rw [← DateTime.wholeSecond_eq ht, ← DateTime.wholeSecond_eq hu]
  apply le_antisymm
  · exact not_lt.mp fun hlt => (h ▸ stamp_lt.mpr hlt).false
  · exact not_lt.mp fun hlt => (h ▸ stamp_lt.mpr hlt).false

theorem claimed_of_before {rows : Rows} {id fireAt : String} {row : Row}
    (hrow : rowOf rows id = some row) (h : row.isBefore fireAt = true) :
    ∃ rows', rows.claimAutomationFire id fireAt = some rows' := by
  obtain ⟨⟨row', hid⟩, hlookup, rfl⟩ := Option.map_eq_some_iff.mp hrow
  refine ⟨rows.insert id ⟨{ row' with lastFiredAt := some fireAt }, hid⟩, ?_⟩
  simp only [Rows.claimAutomationFire, hlookup]
  exact if_pos h

theorem before_of_claimed {rows rows' : Rows} {id fireAt : String}
    (h : rows.claimAutomationFire id fireAt = some rows') :
    ∃ row, rowOf rows id = some row ∧ row.isBefore fireAt = true := by
  obtain ⟨row, hrow, hlast, -⟩ := claim_eq h
  refine ⟨row, hrow, ?_⟩
  unfold Row.isBefore
  cases hfired : row.lastFiredAt with
  | none => rfl
  | some last => exact decide_eq_true (hlast last hfired)

end Due

section Step

variable {σ κ : Type} {crates : Crates σ} {w w' : World κ} {a : Action κ}
  {call : κ} {phase old : Phase}

/-- The time of the pass that a call is. -/
def nowOf : Phase → Option DateTime
  | .listing now => some now
  | .ticking pass => some pass.now
  | .ensuring _ _ next | .applying _ _ _ next | .recording _ _ next | .trimming _ next =>
    next.map Pass.now
  | _ => none

variable [DecidableEq κ]

/-- A call moves on, and if it is a pass, then the one it was. -/
def Onward (w w' : World κ) (call : κ) (old : Phase) : Prop :=
  ∃ phase, w'.calls = Function.update w.calls call (some phase) ∧
    ∀ now, nowOf phase = some now → nowOf old = some now

theorem proceed_onward {α : Type} {r : Except Automations.CoreError α} {next : α → Phase}
    (h : ∀ x, r = .ok x → nowOf (next x) = none) : Onward w (w.proceed call r next) call old := by
  cases r with
  | error e => exact ⟨.done, rfl, nofun⟩
  | ok x =>
    refine ⟨next x, rfl, ?_⟩
    intro now hnow
    rw [h x rfl] at hnow
    cases hnow

theorem finish_onward (runs : List AutomationRun) (run : AutomationRun) (next : Option Pass) :
    Onward w ({ w with runs := runs }.finish call run next) call (.trimming run next) := by
  cases next with
  | none => exact ⟨.done, rfl, nofun⟩
  | some pass => exact ⟨.ticking pass, rfl, fun _ h => h⟩

omit [DecidableEq κ] in
theorem nowOf_run {stored : StoredAutomation} {firedAt : String} {source : RunSource}
    {payload : Option Value} {next : Option Pass} :
    nowOf (runAutomation crates stored firedAt source payload next) = next.map Pass.now := by
  simp only [runAutomation]
  split <;> rfl

omit [DecidableEq κ] in
theorem nowOf_fire {rows : Rows} {id : String} {now : DateTime}
    (h : fireAutomation crates rows id .manual none now = .ok phase) : nowOf phase = none := by
  unfold fireAutomation at h
  split at h <;> cases h
  exact nowOf_run

omit [DecidableEq κ] in
theorem nowOf_trigger {rows : Rows} {id : String} {body : List UInt8} {signature : Option String}
    {now : DateTime} (h : triggerWebhook crates rows id body signature now = .ok phase) :
    nowOf phase = none := by
  unfold triggerWebhook at h
  repeat' split at h
  all_goals cases h
  exact nowOf_run

theorem tick_onward {pass : Pass} :
    Onward w (w.tick crates call pass) call (.ticking pass) := by
  obtain ⟨now, rest⟩ := pass
  unfold World.tick
  cases rest with
  | nil => exact ⟨.done, rfl, nofun⟩
  | cons stored rest =>
    have hskip : Onward w (w.setCall call (.ticking ⟨now, rest⟩)) call
        (.ticking ⟨now, stored :: rest⟩) := ⟨_, rfl, fun _ h => h⟩
    simp only
    split
    · exact hskip
    · split
      · exact hskip
      · refine ⟨_, rfl, ?_⟩
        intro t ht
        rwa [nowOf_run] at ht

theorem advance_onward (h : w.advance crates call phase = some w') :
    Onward w w' call phase := by
  cases phase with
  | creating body createdAt secret =>
    cases h
    exact proceed_onward fun _ _ => rfl
  | inserting stored | updating stored | deleting id =>
    cases h
    exact ⟨.done, rfl, nofun⟩
  | reading id enabled =>
    cases h
    exact proceed_onward fun _ _ => rfl
  | clearing id =>
    cases h
    exact ⟨.deleting id, rfl, nofun⟩
  | listing now =>
    cases h
    exact ⟨_, rfl, fun _ h => h⟩
  | ticking pass =>
    cases h
    exact tick_onward
  | firing id now =>
    cases h
    exact proceed_onward fun _ => nowOf_fire
  | triggering id body signature now =>
    cases h
    exact proceed_onward fun _ => nowOf_trigger
  | ensuring run spec next | applying run spec existed next | recording run execution next =>
    cases h
    exact ⟨_, rfl, fun _ h => h⟩
  | trimming run next =>
    cases h
    exact finish_onward (trimRuns w.runs run.automationId) run next
  | done => cases h

theorem fail_onward {message : String} (h : w.fail call message phase = some w') :
    Onward w w' call phase := by
  cases phase with
  | creating | inserting | reading | updating | clearing | deleting | firing | triggering
  | listing =>
    cases h
    exact ⟨.done, rfl, nofun⟩
  | ticking pass =>
    obtain ⟨now, rest⟩ := pass
    cases rest with
    | nil => cases h
    | cons stored rest =>
      cases h
      exact ⟨_, rfl, fun _ h => h⟩
  | ensuring run spec next | applying run spec existed next =>
    cases h
    exact ⟨_, rfl, fun _ h => h⟩
  | recording run execution next | trimming run next =>
    cases h
    exact finish_onward w.runs run next
  | done => cases h

theorem onward_now {call' : κ} {now : DateTime} (h : Onward w w' call old)
    (hold : w.calls call = some old) (slot : w'.calls call' = some phase)
    (hnow : nowOf phase = some now) : ∃ old, w.calls call' = some old ∧ nowOf old = some now := by
  obtain ⟨next, hcalls, hsame⟩ := h
  rw [hcalls] at slot
  rcases Slots.update_some slot with ⟨rfl, rfl⟩ | ⟨-, hkept⟩
  · exact ⟨old, hold, hsame now hnow⟩
  · exact ⟨phase, hkept, hnow⟩

/-- A pass is one there was, or one that begins. -/
theorem step_now {now : DateTime} (h : w.step crates a = some w')
    (slot : w'.calls call = some phase) (hnow : nowOf phase = some now) :
    (∃ old, w.calls call = some old ∧ nowOf old = some now) ∨ a = .begin call (.tick now) := by
  cases a with
  | begin call' request =>
    simp only [World.step] at h
    split at h <;> cases h
    rcases Slots.update_some slot with ⟨rfl, rfl⟩ | ⟨-, hold⟩
    · right
      cases request with
      | tick t =>
        cases hnow
        rfl
      | create | setEnabled | delete | fire | trigger => cases hnow
    · exact Or.inl ⟨phase, hold, hnow⟩
  | next call' =>
    simp only [World.step] at h
    split at h
    · cases h
    · exact Or.inl (onward_now (advance_onward h) ‹_› slot hnow)
  | fail call' message =>
    simp only [World.step] at h
    split at h
    · cases h
    · exact Or.inl (onward_now (fail_onward h) ‹_› slot hnow)
  | remove name | apply name spec =>
    cases h
    exact Or.inl ⟨phase, slot, hnow⟩

/-- What is claimed was claimed before, or the pass has come to it. -/
theorem claimed_step {id fireAt : String} (h : w.step crates a = some w')
    (hmem : .claimed call id fireAt ∈ w'.history) : .claimed call id fireAt ∈ w.history ∨
      ∃ now stored rest, a = .next call ∧ w.calls call = some (.ticking ⟨now, stored :: rest⟩) ∧
        stored.automation.id = id ∧ dueTick crates stored now = some fireAt ∧
        ∃ row, rowOf w.rows id = some row ∧ row.isBefore fireAt = true := by
  cases step_effect h with
  | removed name rows calls history | applied name spec rows calls history =>
    exact Or.inl (history ▸ hmem)
  | moved other phase happened turn kept calls history plain =>
    rw [history] at hmem
    rcases List.mem_append.mp hmem with hmem | hmem
    · exact Or.inl hmem
    · exact (plain _ hmem).elim
  | inserted other stored slot rows cluster calls history
  | updated other stored slot rows cluster calls history
  | deleted other id' existed slot rows cluster calls history
  | spawned other run spec existed next execution slot rows cluster calls history
  | recorded other run execution next slot kept calls history =>
    rw [history] at hmem
    exact (List.mem_append.mp hmem).imp_right fun hnew => by cases List.mem_singleton.mp hnew
  | claimed other now stored rest fire spec slot due rows cluster calls history =>
    rw [history] at hmem
    rcases List.mem_append.mp hmem with hmem | hmem
    · exact Or.inl hmem
    · cases List.mem_singleton.mp hmem
      exact Or.inr ⟨now, stored, rest, rfl, slot, rfl, due, before_of_claimed rows⟩

/-- What has spawned did so before, or was about to. -/
theorem ensured_step {run : AutomationRun} {execution : Execution}
    (h : w.step crates a = some w') (hmem : .ensured call run execution ∈ w'.history) :
    .ensured call run execution ∈ w.history ∨
      ∃ old, w.calls call = some old ∧ spawnOf old = some run := by
  cases step_effect h with
  | removed name rows calls history | applied name spec rows calls history =>
    exact Or.inl (history ▸ hmem)
  | moved other phase happened turn kept calls history plain =>
    rw [history] at hmem
    rcases List.mem_append.mp hmem with hmem | hmem
    · exact Or.inl hmem
    · exact (plain _ hmem).elim
  | inserted other stored slot rows cluster calls history
  | updated other stored slot rows cluster calls history
  | deleted other id' existed slot rows cluster calls history
  | claimed other now stored rest fire spec slot due rows cluster calls history
  | recorded other run' execution' next slot kept calls history =>
    rw [history] at hmem
    exact (List.mem_append.mp hmem).imp_right fun hnew => by cases List.mem_singleton.mp hnew
  | spawned other run' spec existed next execution' slot rows cluster calls history =>
    rw [history] at hmem
    rcases List.mem_append.mp hmem with hmem | hmem
    · exact Or.inl hmem
    · cases List.mem_singleton.mp hmem
      exact Or.inr ⟨_, slot, rfl⟩

/-- A scheduled run about to spawn was so before, or its tick is claimed now. -/
theorem pending_step {run : AutomationRun} (h : w.step crates a = some w')
    (slot' : w'.calls call = some phase) (hspawn : spawnOf phase = some run)
    (hsource : run.source = .schedule) :
    (∃ old, w.calls call = some old ∧ spawnOf old = some run) ∨
      .claimed call run.automationId run.firedAt ∈ w'.history := by
  have hmove : ∀ other next, w'.calls = Function.update w.calls other (some next) →
      (spawnOf next = some run → ∃ old, w.calls other = some old ∧ spawnOf old = some run) →
      ∃ old, w.calls call = some old ∧ spawnOf old = some run := by
    intro other next hcalls hnext
    rw [hcalls] at slot'
    rcases Slots.update_some slot' with ⟨rfl, rfl⟩ | ⟨-, hold⟩
    · exact hnext hspawn
    · exact ⟨phase, hold, hspawn⟩
  cases step_effect h with
  | removed name rows calls history | applied name spec rows calls history =>
    exact Or.inl ⟨phase, calls ▸ slot', hspawn⟩
  | moved other next happened turn kept calls history plain =>
    exact Or.inl (hmove other next calls fun hs => turn.spawn run hs hsource)
  | inserted other stored slot rows cluster calls history
  | updated other stored slot rows cluster calls history
  | deleted other id' existed slot rows cluster calls history
  | spawned other run' spec existed next execution' slot rows cluster calls history
  | recorded other run' execution' next slot kept calls history =>
    exact Or.inl (hmove other _ calls nofun)
  | claimed other now stored rest fire spec slot due rows cluster calls history =>
    rw [calls] at slot'
    rcases Slots.update_some slot' with ⟨rfl, rfl⟩ | ⟨-, hold⟩
    · cases hspawn
      exact Or.inr (history ▸ List.mem_append_right _ (List.mem_singleton_self _))
    · exact Or.inl ⟨phase, hold, hspawn⟩

end Step

section Keep

variable {σ κ : Type} [DecidableEq κ] {crates : Crates σ} {o o' : Timed κ} {t : DateTime}
  {a : Action κ}

theorem step_eq (h : o.step crates (t, a) = some o') :
    o.world.step crates a = some o'.world ∧ o'.clock = t ∧ onTime o.clock t a = true ∧
      o'.settings = note o.world t o.settings a := by
  unfold Timed.step at h
  split at h
  · obtain ⟨w', hw, rfl⟩ := Option.map_eq_some_iff.mp h
    exact ⟨hw, rfl, ‹_›, rfl⟩
  · cases h

omit [DecidableEq κ] in
theorem onTime_le {clock : DateTime} (h : onTime clock t a = true) : clock ≤ t := by
  unfold onTime at h
  split at h
  · rw [Bool.and_eq_true] at h
    exact of_decide_eq_true h.1
  · exact of_decide_eq_true h

omit [DecidableEq κ] in
/-- What was set at a time that has passed stays. -/
theorem offAt_note {w : World κ} {r : String → List (DateTime × Bool)} {id : String}
    {tick : DateTime} (h : tick < t) : OffAt (note w t r a id) tick ↔ OffAt (r id) tick := by
  have hupdate : ∀ other on, OffAt (Function.update r other (r other ++ [(t, on)]) id) tick ↔
      OffAt (r id) tick := by
    intro other on
    by_cases hid : id = other
    · subst hid
      rw [Function.update_self]
      exact offAt_snoc h
    · rw [Function.update_of_ne hid]
  cases a with
  | next call =>
    cases slot : w.calls call with
    | none => simp only [note, slot]
    | some phase =>
      cases phase with
      | inserting stored | updating stored | deleting other =>
        simp only [note, slot]
        exact hupdate _ _
      | _ => simp only [note, slot]
  | _ => exact Iff.rfl

/-- No pass is ahead of the clock, and what is claimed came due while the automation was not
disabled; a scheduled run has its tick claimed. -/
structure Timely (o : Timed κ) : Prop where
  passes : ∀ call phase now, o.world.calls call = some phase → nowOf phase = some now →
    now ≤ o.clock
  claims : ∀ call id fireAt, .claimed call id fireAt ∈ o.world.history →
    ∃ tick, fireAt = stamp tick ∧ tick.nanosecond = 0 ∧ tick < o.clock ∧ ¬OffAt (o.settings id) tick
  pending : ∀ call phase run, o.world.calls call = some phase → spawnOf phase = some run →
    run.source = .schedule →
    ∃ claimer, .claimed claimer run.automationId run.firedAt ∈ o.world.history
  started : ∀ call run execution, .ensured call run execution ∈ o.world.history →
    run.source = .schedule →
    ∃ claimer, .claimed claimer run.automationId run.firedAt ∈ o.world.history

omit [DecidableEq κ] in
theorem Timely.start (t : DateTime) : Timely (Timed.start t : Timed κ) := by
  constructor <;> simp [Timed.start, World.start]

omit [DecidableEq κ] in
theorem Timely.notReplayed (h : Timely o) : NotReplayed o := by
  intro id tick hwhole hoff
  have hclaims : ∀ call, .claimed call id (stamp tick) ∉ o.world.history := by
    intro call hmem
    obtain ⟨tick', hstamp, hwhole', -, hon⟩ := h.claims call id _ hmem
    rw [stamp_inj hwhole hwhole' hstamp] at hoff
    exact hon hoff
  refine ⟨hclaims, ?_⟩
  intro call run execution hmem hsource hid hfired
  obtain ⟨claimer, hclaimed⟩ := h.started call run execution hmem hsource
  rw [hid, hfired] at hclaimed
  exact hclaims claimer hclaimed

theorem Timely.step (hp : Prior crates) (h : Timely o) (hok : Undisabled crates o (t, a))
    (hs : o.step crates (t, a) = some o') : Timely o' := by
  obtain ⟨hw, hclock, htime, hsettings⟩ := step_eq hs
  have hle := onTime_le htime
  have history := history_kept hw
  constructor
  · intro call phase now slot hnow
    rw [hclock]
    rcases step_now hw slot hnow with ⟨old, hold, hbefore⟩ | rfl
    · exact (h.passes call old now hold hbefore).trans hle
    · simp only [onTime, Bool.and_eq_true, decide_eq_true_eq] at htime
      exact htime.2.le
  · intro call id fireAt hmem
    rw [hclock, hsettings]
    have hold : ∃ tick, fireAt = stamp tick ∧ tick.nanosecond = 0 ∧ tick < o.clock ∧
        ¬OffAt (o.settings id) tick := by
      rcases claimed_step hw hmem with hmem |
        ⟨now, stored, rest, rfl, slot, rfl, due, row, hrow, hlast⟩
      · exact h.claims call id fireAt hmem
      · obtain ⟨tick, howes, rfl⟩ := dueTick_iff.mp due
        obtain ⟨schedule, parsed, -, -, hbefore⟩ := howes.due
        obtain ⟨hwhole, hlt⟩ := hp parsed now tick hbefore
        have hnow : now ≤ o.clock := h.passes call _ now slot rfl
        simp only [Undisabled, slot] at hok
        exact ⟨tick, rfl, hwhole, hlt.trans_le hnow, hok tick row howes hrow hlast⟩
    obtain ⟨tick, hstamp, hwhole, hlt, hon⟩ := hold
    -- the clock is past the tick, so that no setting from now on counts for it
    have hpast := hlt.trans_le hle
    exact ⟨tick, hstamp, hwhole, hpast, fun hoff => hon ((offAt_note hpast).mp hoff)⟩
  · intro call phase run slot hspawn hsource
    rcases pending_step hw slot hspawn hsource with ⟨old, hold, hbefore⟩ | hclaimed
    · obtain ⟨claimer, hmem⟩ := h.pending call old run hold hbefore hsource
      exact ⟨claimer, history hmem⟩
    · exact ⟨call, hclaimed⟩
  · intro call run execution hmem hsource
    rcases ensured_step hw hmem with hmem | ⟨old, hold, hspawn⟩
    · obtain ⟨claimer, hclaimed⟩ := h.started call run execution hmem hsource
      exact ⟨claimer, history hclaimed⟩
    · obtain ⟨claimer, hclaimed⟩ := h.pending call old run hold hspawn hsource
      exact ⟨claimer, history hclaimed⟩

/-- A pass that comes to a tick of a disabled time replays it. -/
theorem replays (hp : Prior crates) (hok : ¬Undisabled crates o (t, a))
    (hs : o.step crates (t, a) = some o') : ¬NotReplayed o' := by
  obtain ⟨hw, hclock, htime, hsettings⟩ := step_eq hs
  cases a with
  | next call =>
    cases slot : o.world.calls call with
    | none => simp [Undisabled, slot] at hok
    | some phase =>
      cases phase with
      | ticking pass =>
        obtain ⟨now, rest⟩ := pass
        cases rest with
        | nil => simp [Undisabled, slot] at hok
        | cons stored rest =>
          simp only [Undisabled, slot, not_forall, not_not] at hok
          obtain ⟨tick, row, howes, hrow, hlast, hoff⟩ := hok
          obtain ⟨schedule, parsed, -, -, hbefore⟩ := howes.due
          obtain ⟨hwhole, -⟩ := hp parsed now tick hbefore
          have hdue := dueTick_iff.mpr ⟨tick, howes, rfl⟩
          obtain ⟨rows, hclaim⟩ := claimed_of_before hrow hlast
          simp only [World.step, slot, World.advance, World.tick, hdue, hclaim,
            Option.some.injEq] at hw
          have hmem : .claimed call stored.automation.id (stamp tick) ∈ o'.world.history := by
            rw [← hw]
            exact List.mem_append_right _ (List.mem_singleton_self _)
          have hsame : o'.settings = o.settings := by simp only [hsettings, note, slot]
          intro hgood
          exact (hgood _ tick hwhole (hsame ▸ hoff)).1 call hmem
      | _ => simp [Undisabled, slot] at hok
  | _ => exact absurd trivial hok

end Keep

/-- No tick of a disabled time is replayed in a run exactly where its passes come to none. -/
theorem never_replayed_iff {σ κ : Type} [DecidableEq κ] (crates : Crates σ) (hp : Prior crates)
    (t : DateTime) (as : List (DateTime × Action κ)) (o : Timed κ)
    (h : Machine.run (Timed.step crates) (Timed.start t) as = some o) :
    Machine.Always (Timed.step crates) NotReplayed (Timed.start t) as ↔
      Machine.Steps (Timed.step crates) (Undisabled crates) (Timed.start t) as :=
  Machine.always_iff_steps (P := Timely) (fun _ hi => hi.notReplayed)
    (fun _ _ _ hi hok hs => hi.step hp hok hs) (fun _ _ _ _ hok hs => replays hp hok hs)
    (.start t) h

section Sample

/-- The crates as they are for an hourly schedule, but for a pass on the hour. -/
def pastHour : Crates Unit :=
  { hourly with before := fun _ now => if topOfHour now < now then some (topOfHour now) else none }

theorem pastHour_prior : Prior pastHour := by
  intro schedule now tick h
  simp only [pastHour] at h
  split at h <;> cases h
  exact ⟨rfl, ‹_›⟩

/-- An automation created at half past ten is disabled and enabled, and a pass comes after. -/
def edited (disabled enabled pass : DateTime) : List (DateTime × Action Nat) :=
  [(clock 10 30 0, .begin 0 (.create sweep (clock 10 30 0) "")), (clock 10 30 0, .next 0),
    (clock 10 30 0, .next 0),
    (disabled, .begin 1 (.setEnabled sweep.id false)), (disabled, .next 1), (disabled, .next 1),
    (enabled, .begin 2 (.setEnabled sweep.id true)), (enabled, .next 2), (enabled, .next 2),
    (pass, .begin 3 (.tick pass)), (pass, .next 3), (pass, .next 3), (pass, .next 3),
    (pass, .next 3)]

def enabledInTime : List (DateTime × Action Nat) :=
  edited (clock 10 40 0) (clock 10 50 0) (clock 11 0 10)

theorem never_replayed_enabled : Machine.Always (Timed.step pastHour) NotReplayed
    (Timed.start (clock 10 0 0)) enabledInTime := by
  refine (never_replayed_iff pastHour pastHour_prior (clock 10 0 0) enabledInTime _ rfl).mpr ?_
  iterate 11 refine Machine.steps_cons trivial rfl ?_
  refine Machine.steps_cons ?_ rfl ?_
  · rintro tick row ⟨-, ⟨schedule, parsed, hcron, -, hbefore⟩, -⟩ - -
    cases hbefore
    decide
  iterate 2 refine Machine.steps_cons trivial rfl ?_
  trivial

def enabledLate : List (DateTime × Action Nat) :=
  edited (clock 10 40 0) (clock 11 10 0) (clock 11 10 10)

/-- The tick of eleven o'clock is made up for at ten past, when the automation is enabled again. -/
theorem tick_replayed : ∃ o, Machine.run (Timed.step pastHour) (Timed.start (clock 10 0 0))
    enabledLate = some o ∧ OffAt (o.settings sweep.id) (clock 11 0 0) ∧
    .claimed 3 sweep.id (stamp (clock 11 0 0)) ∈ o.world.history ∧
    ∃ run execution, .ensured 3 run execution ∈ o.world.history ∧ run.source = .schedule ∧
      run.automationId = sweep.id ∧ run.firedAt = stamp (clock 11 0 0) := by
  refine ⟨_, rfl, rfl, ?_, ⟨sweep.id, stamp (clock 11 0 0), .schedule, none, none⟩, ⟨0, true⟩, ?_,
    rfl, rfl, rfl⟩
  · iterate 3 apply List.mem_cons_of_mem
    exact List.mem_cons_self
  · exact List.mem_append_right _ (List.mem_singleton_self _)

end Sample

end Prospero.Proofs.DisabledTicks
