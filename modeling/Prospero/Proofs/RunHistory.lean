import Prospero.Lib.Newest
import Prospero.Proofs.AutomationEngine
import Prospero.RunHistory

namespace Prospero.Proofs.RunHistory
open Prospero.Automations Prospero.Proofs.Automations Newest

section Model

variable {κ : Type}

def runsOf (w : World κ) (id : String) : List AutomationRun :=
  w.runs.filter fun run => run.automationId = id

/-- The automation exists. -/
def Present (w : World κ) (id : String) : Prop := (rowOf w.rows id).isSome = true

/-- Of one automation, the runs recorded since its latest creation, and whether a delete has
cleared some of them away. -/
structure Record where
  recorded : List AutomationRun
  cleared : Bool

/-- An automation is created by a create, and by an edit of one that is gone. -/
def note (w : World κ) (r : String → Record) : Action κ → String → Record
  | .next call =>
    match w.calls call with
    | some (.inserting stored) => Function.update r stored.automation.id ⟨[], false⟩
    | some (.updating stored) =>
      if (rowOf w.rows stored.automation.id).isSome then r
      else Function.update r stored.automation.id ⟨[], false⟩
    | some (.clearing id) =>
      Function.update r id { r id with cleared := (r id).cleared || !(r id).recorded.isEmpty }
    | some (.recording run _ _) => Function.update r run.automationId
        { r run.automationId with recorded := (r run.automationId).recorded ++ [run] }
    | _ => r
  | _ => r

/-- The engines, with a record kept of every automation. -/
structure Observed (κ : Type) where
  world : World κ
  record : String → Record

variable [DecidableEq κ] {σ : Type} (crates : Crates σ)

def Observed.step (o : Observed κ) (a : Action κ) : Option (Observed κ) :=
  (o.world.step crates a).map fun w => ⟨w, note o.world o.record a⟩

def Observed.start : Observed κ := ⟨World.start, fun _ => ⟨[], false⟩⟩

end Model

section Step

variable {σ κ : Type} [DecidableEq κ] {crates : Crates σ} {w w' : World κ} {a : Action κ}
  {call : κ} {phase : Phase}

/-- What one step does to the runs and to which automations there are. -/
inductive RunsStep (w w' : World κ) : Action κ → Prop
  | cleared (call : κ) (id : String) (slot : w.calls call = some (.clearing id))
      (runs : w'.runs = w.runs.filter fun run => run.automationId ≠ id) (rows : w'.rows = w.rows) :
      RunsStep w w' (.next call)
  | recorded (call : κ) (run : AutomationRun) (execution : Option Execution) (next : Option Pass)
      (slot : w.calls call = some (.recording run execution next))
      (runs : w'.runs = w.runs ++ [run]) (rows : w'.rows = w.rows)
      (history : .recorded call run execution ∈ w'.history) : RunsStep w w' (.next call)
  | trimmed (call : κ) (run : AutomationRun) (next : Option Pass)
      (slot : w.calls call = some (.trimming run next))
      (runs : w'.runs = trimRuns w.runs run.automationId) (rows : w'.rows = w.rows) :
      RunsStep w w' (.next call)
  | inserted (call : κ) (stored : StoredAutomation)
      (slot : w.calls call = some (.inserting stored)) (runs : w'.runs = w.runs)
      (rows : w'.rows = w.rows.upsertAutomation stored) : RunsStep w w' (.next call)
  | updated (call : κ) (stored : StoredAutomation)
      (slot : w.calls call = some (.updating stored)) (runs : w'.runs = w.runs)
      (rows : w'.rows = w.rows.upsertAutomation stored) : RunsStep w w' (.next call)
  | other {a : Action κ} (runs : w'.runs = w.runs)
      (rows : ∀ id, Present w' id → Present w id) (quiet : ∀ r, note w r a = r) : RunsStep w w' a

theorem proceed_runs {α : Type} (w : World κ) (call : κ) (r : Except Automations.CoreError α)
    (next : α → Phase) : (w.proceed call r next).runs = w.runs ∧
      (w.proceed call r next).rows = w.rows := by
  cases r with
  | error e => exact ⟨rfl, rfl⟩
  | ok x => exact ⟨rfl, rfl⟩

theorem finish_runs (w : World κ) (call : κ) (run : AutomationRun) (next : Option Pass) :
    (w.finish call run next).runs = w.runs ∧ (w.finish call run next).rows = w.rows := by
  cases next with
  | none => exact ⟨rfl, rfl⟩
  | some pass => exact ⟨rfl, rfl⟩

omit [DecidableEq κ] in
theorem other_of_same (h : w'.runs = w.runs ∧ w'.rows = w.rows) (quiet : ∀ r, note w r a = r) :
    RunsStep w w' a := by
  refine .other h.1 ?_ quiet
  intro id hid
  rwa [Present, h.2] at hid

variable (crates) in
theorem tick_runs (w : World κ) (call : κ) (pass : Pass) :
    (w.tick crates call pass).runs = w.runs ∧
      ∀ id, Present (w.tick crates call pass) id → Present w id := by
  unfold World.tick
  split
  · exact ⟨rfl, fun _ h => h⟩
  · simp only
    split
    · exact ⟨rfl, fun _ h => h⟩
    · split
      · exact ⟨rfl, fun _ h => h⟩
      · rename_i rows hclaim
        refine ⟨rfl, ?_⟩
        intro id hid
        obtain ⟨row, hrow, -, hrows⟩ := claim_eq hclaim
        rw [Present, hrows] at hid
        split at hid
        · rename_i heq
          rw [Present, heq, hrow]
          rfl
        · exact hid

theorem advance_runs (slot : w.calls call = some phase)
    (h : w.advance crates call phase = some w') : RunsStep w w' (.next call) := by
  cases phase with
  | creating body createdAt secret | reading id enabled | firing id now
  | triggering id body signature now =>
    cases h
    exact other_of_same (proceed_runs ..) (by simp [note, slot])
  | inserting stored =>
    cases h
    exact .inserted call stored slot rfl rfl
  | updating stored =>
    cases h
    exact .updated call stored slot rfl rfl
  | clearing id =>
    cases h
    exact .cleared call id slot rfl rfl
  | deleting id =>
    cases h
    refine .other rfl ?_ (by simp [note, slot])
    intro other hother
    rw [Present, World.reply, World.setCall, rowOf_erase] at hother
    split at hother
    · cases hother
    · exact hother
  | listing now =>
    cases h
    exact other_of_same ⟨rfl, rfl⟩ (by simp [note, slot])
  | ticking pass =>
    cases h
    obtain ⟨hruns, hrows⟩ := tick_runs crates w call pass
    exact .other hruns hrows (by simp [note, slot])
  | ensuring run spec next | applying run spec existed next =>
    cases h
    exact other_of_same ⟨rfl, rfl⟩ (by simp [note, slot])
  | recording run execution next =>
    cases h
    have hlogged := List.mem_append_right w.history
      (List.mem_singleton_self (Happening.recorded call run execution))
    exact .recorded call run execution next slot rfl rfl hlogged
  | trimming run next =>
    cases h
    obtain ⟨hruns, hrows⟩ :=
      finish_runs { w with runs := trimRuns w.runs run.automationId } call run next
    exact .trimmed call run next slot hruns hrows
  | done => cases h

theorem fail_runs {message : String} (h : w.fail call message phase = some w') :
    RunsStep w w' (.fail call message) := by
  have hquiet : ∀ r, note w r (.fail call message) = r := fun _ => rfl
  cases phase with
  | creating | inserting | reading | updating | clearing | deleting | firing | triggering
  | listing | ensuring | applying =>
    cases h
    exact other_of_same ⟨rfl, rfl⟩ hquiet
  | ticking pass =>
    obtain ⟨now, rest⟩ := pass
    cases rest with
    | nil => cases h
    | cons stored rest =>
      cases h
      exact other_of_same ⟨rfl, rfl⟩ hquiet
  | recording run execution next | trimming run next =>
    cases h
    exact other_of_same (finish_runs ..) hquiet
  | done => cases h

theorem step_runs (h : w.step crates a = some w') : RunsStep w w' a := by
  cases a with
  | begin call request =>
    simp only [World.step] at h
    split at h <;> cases h
    exact other_of_same ⟨rfl, rfl⟩ fun _ => rfl
  | next call =>
    simp only [World.step] at h
    split at h
    · cases h
    · exact advance_runs ‹_› h
  | fail call message =>
    simp only [World.step] at h
    split at h
    · cases h
    · exact fail_runs h
  | remove name | apply name spec =>
    cases h
    exact other_of_same ⟨rfl, rfl⟩ fun _ => rfl

end Step

section Table

variable {κ : Type} {w w' : World κ} {id other : String} {run : AutomationRun}

theorem filter_cleared (runs : List AutomationRun) :
    (runs.filter fun run => run.automationId ≠ other).filter (fun run => run.automationId = id) =
      if id = other then [] else runs.filter fun run => run.automationId = id := by
  rw [List.filter_filter]
  split
  · rename_i heq
    apply List.filter_eq_nil_iff.mpr
    intro r _
    simp [heq]
  · rename_i hne
    apply List.filter_congr
    intro r _
    by_cases hr : r.automationId = id <;> simp [hr, hne]

theorem runsOf_cleared (h : w'.runs = w.runs.filter fun run => run.automationId ≠ other) :
    runsOf w' id = if id = other then [] else runsOf w id := by
  rw [runsOf, h]
  exact filter_cleared w.runs

theorem runsOf_recorded (h : w'.runs = w.runs ++ [run]) :
    runsOf w' id = if run.automationId = id then runsOf w id ++ [run] else runsOf w id := by
  rw [runsOf, h, List.filter_append]
  split
  · rename_i heq
    simp [runsOf, heq]
  · rename_i hne
    simp [runsOf, hne]

theorem runsOf_trimmed (h : w'.runs = trimRuns w.runs other) : runsOf w' id =
    if id = other then newest AutomationRun.firedAt runHistoryLimit (runsOf w id)
    else runsOf w id := by
  have hmine : ∀ r ∈ newest AutomationRun.firedAt runHistoryLimit (runsOf w other),
      r.automationId = other := by
    intro r hr
    have hmem := (descending_perm _).mem_iff.mp (List.mem_of_mem_take hr)
    exact of_decide_eq_true (List.mem_filter.mp hmem).2
  have hruns : w'.runs = (w.runs.filter fun run => run.automationId ≠ other) ++
      newest AutomationRun.firedAt runHistoryLimit (runsOf w other) := h
  rw [runsOf, hruns, List.filter_append, filter_cleared]
  split
  · rename_i heq
    subst heq
    rw [List.nil_append, List.filter_eq_self]
    intro r hr
    exact decide_eq_true (hmine r hr)
  · rename_i hne
    have hnone : (newest AutomationRun.firedAt runHistoryLimit (runsOf w other)).filter
        (fun run => run.automationId = id) = [] := by
      apply List.filter_eq_nil_iff.mpr
      intro r hr
      simp [hmine r hr, Ne.symm hne]
    rw [hnone, List.append_nil]
    rfl

theorem listRuns_eq (limit : UInt64) :
    listRuns w.runs id limit =
      Words.limit limit.toInt64 (descending AutomationRun.firedAt (runsOf w id)) := rfl

end Table

section Keep

variable {σ κ : Type} [DecidableEq κ] (crates : Crates σ)

/-- No two runs of an automation are fired at one time. -/
def Distinct (o : Observed κ) : Action κ → Prop
  | .next call =>
    match o.world.calls call with
    | some (.recording run _ _) => ∀ call' earlier execution,
        .recorded call' earlier execution ∈ o.world.history →
        earlier.automationId = run.automationId → earlier.firedAt ≠ run.firedAt
    | _ => True
  | _ => True

/-- An automation is created where no run of its id is left, and no history is trimmed that a
delete has cleared while the automation is still there. -/
def Orderly (o : Observed κ) : Action κ → Prop
  | .next call =>
    match o.world.calls call with
    | some (.inserting stored) => runsOf o.world stored.automation.id = []
    | some (.updating stored) =>
      ¬Present o.world stored.automation.id → runsOf o.world stored.automation.id = []
    | some (.trimming run _) =>
      Present o.world run.automationId → (o.record run.automationId).cleared = false
    | _ => True
  | _ => True

/-- The history of an automation is the newest of what was recorded since its creation, and is
listed so. -/
structure Bounded (o : Observed κ) (id : String) : Prop where
  bounded : (runsOf o.world id).length ≤ runHistoryLimit
  kept : runsOf o.world id = newest AutomationRun.firedAt runHistoryLimit (o.record id).recorded
  sorted : (runsOf o.world id).Pairwise fun x y => y.firedAt < x.firedAt
  listed : ∀ limit : UInt64, listRuns o.world.runs id limit = (runsOf o.world id).take limit.toNat

/-- A run is recorded, and the history trimmed after it. -/
def Tidy (o : Observed κ) (a : Action κ) : Prop :=
  match a with
  | .next call =>
    match o.world.calls call with
    | some (.recording run _ _) => ∀ o', o.step crates a = some o' →
        ∀ id, id ≠ run.automationId → runsOf o'.world id = runsOf o.world id
    | some (.trimming run _) => ∀ o', o.step crates a = some o' →
        (∀ id, id ≠ run.automationId → runsOf o'.world id = runsOf o.world id) ∧
          (Present o'.world run.automationId → Bounded o' run.automationId)
    | _ => True
  | _ => True

/-- What holds as long as all is orderly. -/
structure Archive (o : Observed κ) : Prop where
  kept : ∀ id, Present o.world id → (o.record id).cleared = false →
    Kept AutomationRun.firedAt runHistoryLimit (o.record id).recorded (runsOf o.world id)
  distinct : ∀ id, ((o.record id).recorded.map AutomationRun.firedAt).Nodup
  logged : ∀ id, ∀ run ∈ (o.record id).recorded, run.automationId = id ∧
    ∃ call execution, .recorded call run execution ∈ o.world.history

variable {crates} {o o' : Observed κ} {a : Action κ}

omit [DecidableEq κ] in
theorem Archive.start : Archive (Observed.start : Observed κ) := by
  constructor <;> simp [Observed.start, World.start, Present, rowOf]

omit [DecidableEq κ] in
/-- What a step leaves of a record: nothing new, or one run recorded now. -/
theorem Archive.of_record (h : Archive o) (history : o.world.history ⊆ o'.world.history)
    (kept : ∀ id, Present o'.world id → (o'.record id).cleared = false →
      Kept AutomationRun.firedAt runHistoryLimit (o'.record id).recorded (runsOf o'.world id))
    (record : ∀ id, (o'.record id).recorded = [] ∨
      (o'.record id).recorded = (o.record id).recorded ∨
      ∃ run, (o'.record id).recorded = (o.record id).recorded ++ [run] ∧ run.automationId = id ∧
        (∀ earlier ∈ (o.record id).recorded, earlier.firedAt ≠ run.firedAt) ∧
        ∃ call execution, .recorded call run execution ∈ o'.world.history) : Archive o' := by
  have hold : ∀ id, ∀ run ∈ (o.record id).recorded, run.automationId = id ∧
      ∃ call execution, .recorded call run execution ∈ o'.world.history := by
    intro id run hrun
    obtain ⟨hid, call, execution, hmem⟩ := h.logged id run hrun
    exact ⟨hid, call, execution, history hmem⟩
  refine ⟨kept, ?_, ?_⟩
  · intro id
    rcases record id with hnil | hsame | ⟨run, hsnoc, -, hfresh, -⟩
    · rw [hnil]
      exact List.nodup_nil
    · rw [hsame]
      exact h.distinct id
    · rw [hsnoc, List.map_append]
      refine (h.distinct id).append (List.nodup_singleton _) ?_
      intro t ht ht'
      obtain ⟨earlier, hearlier, rfl⟩ := List.mem_map.mp ht
      exact hfresh earlier hearlier (by simpa using ht')
  · intro id run hrun
    rcases record id with hnil | hsame | ⟨new, hsnoc, hid, -, hlogged⟩
    · rw [hnil] at hrun
      cases hrun
    · exact hold id run (hsame ▸ hrun)
    · rw [hsnoc] at hrun
      rcases List.mem_append.mp hrun with hrun | hrun
      · exact hold id run hrun
      · rw [List.mem_singleton.mp hrun]
        exact ⟨hid, hlogged⟩

omit [DecidableEq κ] in
/-- The other automations are as they were. -/
theorem Archive.turn (h : Archive o) (history : o.world.history ⊆ o'.world.history) (id : String)
    (others : ∀ other, other ≠ id → (Present o'.world other → Present o.world other) ∧
      runsOf o'.world other = runsOf o.world other ∧ o'.record other = o.record other)
    (kept : Present o'.world id → (o'.record id).cleared = false →
      Kept AutomationRun.firedAt runHistoryLimit (o'.record id).recorded (runsOf o'.world id))
    (record : (o'.record id).recorded = [] ∨ (o'.record id).recorded = (o.record id).recorded ∨
      ∃ run, (o'.record id).recorded = (o.record id).recorded ++ [run] ∧ run.automationId = id ∧
        (∀ earlier ∈ (o.record id).recorded, earlier.firedAt ≠ run.firedAt) ∧
        ∃ call execution, .recorded call run execution ∈ o'.world.history) : Archive o' := by
  apply h.of_record history
  · intro other hpresent hcleared
    by_cases hid : other = id
    · subst hid
      exact kept hpresent hcleared
    · obtain ⟨hbefore, hruns, hrecord⟩ := others other hid
      rw [hrecord] at hcleared ⊢
      rw [hruns]
      exact h.kept other (hbefore hpresent) hcleared
  · intro other
    by_cases hid : other = id
    · subst hid
      exact record
    · exact Or.inr (Or.inl (congrArg Record.recorded (others other hid).2.2))

omit [DecidableEq κ] in
/-- Nothing changes but that an automation may go. -/
theorem Archive.frame (h : Archive o) (history : o.world.history ⊆ o'.world.history)
    (runs : o'.world.runs = o.world.runs)
    (rows : ∀ id, Present o'.world id → Present o.world id) (record : o'.record = o.record) :
    Archive o' := by
  have hruns : ∀ id, runsOf o'.world id = runsOf o.world id := by
    intro id
    rw [runsOf, runs]
    rfl
  apply h.of_record history
  · intro id hpresent hcleared
    rw [record] at hcleared ⊢
    rw [hruns]
    exact h.kept id (rows id hpresent) hcleared
  · intro id
    exact Or.inr (Or.inl (congrArg (fun r => (r id).recorded) record))

omit [DecidableEq κ] in
/-- An automation is created where no run is left. -/
theorem Archive.created {stored : StoredAutomation} (h : Archive o)
    (history : o.world.history ⊆ o'.world.history) (runs : o'.world.runs = o.world.runs)
    (rows : o'.world.rows = o.world.rows.upsertAutomation stored)
    (record : o'.record = Function.update o.record stored.automation.id ⟨[], false⟩)
    (hnone : runsOf o.world stored.automation.id = []) : Archive o' := by
  have hruns : ∀ id, runsOf o'.world id = runsOf o.world id := by
    intro id
    rw [runsOf, runs]
    rfl
  refine h.turn history stored.automation.id ?_ ?_ ?_
  · intro other hne
    rw [Present, rows, rowOf_upsert, if_neg hne, hruns, record, Function.update_of_ne hne]
    exact ⟨fun hp => hp, rfl, rfl⟩
  · intro _ _
    rw [record, Function.update_self, hruns, hnone]
    exact Kept.refl []
  · rw [record, Function.update_self]
    exact Or.inl rfl

omit [DecidableEq κ] in
theorem Archive.cleared {id : String} (h : Archive o)
    (history : o.world.history ⊆ o'.world.history)
    (runs : o'.world.runs = o.world.runs.filter fun run => run.automationId ≠ id)
    (rows : o'.world.rows = o.world.rows)
    (record : o'.record = Function.update o.record id
      { o.record id with cleared := (o.record id).cleared || !(o.record id).recorded.isEmpty }) :
    Archive o' := by
  have hruns : ∀ other, runsOf o'.world other = if other = id then [] else runsOf o.world other :=
    fun _ => runsOf_cleared runs
  refine h.turn history id ?_ ?_ ?_
  · intro other hne
    rw [Present, rows, hruns, if_neg hne, record, Function.update_of_ne hne]
    exact ⟨fun hp => hp, rfl, rfl⟩
  · intro _ hcleared
    rw [record, Function.update_self] at hcleared ⊢
    simp only [Bool.or_eq_false_iff, Bool.not_eq_false', List.isEmpty_iff] at hcleared
    rw [hruns, if_pos rfl]
    simp only [hcleared.2]
    exact Kept.refl []
  · rw [record, Function.update_self]
    exact Or.inr (Or.inl rfl)

omit [DecidableEq κ] in
/-- A run is recorded at a time no other run of the automation was fired at. -/
theorem Archive.recorded {run : AutomationRun} (h : Archive o)
    (history : o.world.history ⊆ o'.world.history)
    (runs : o'.world.runs = o.world.runs ++ [run]) (rows : o'.world.rows = o.world.rows)
    (record : o'.record = Function.update o.record run.automationId
      { o.record run.automationId with
        recorded := (o.record run.automationId).recorded ++ [run] })
    (fresh : ∀ call earlier execution, .recorded call earlier execution ∈ o.world.history →
      earlier.automationId = run.automationId → earlier.firedAt ≠ run.firedAt)
    (logged : ∃ call execution, .recorded call run execution ∈ o'.world.history) : Archive o' := by
  have hruns : ∀ other, runsOf o'.world other =
      if run.automationId = other then runsOf o.world other ++ [run] else runsOf o.world other :=
    fun _ => runsOf_recorded runs
  refine h.turn history run.automationId ?_ ?_ ?_
  · intro other hne
    rw [Present, rows, hruns, if_neg (Ne.symm hne), record, Function.update_of_ne hne]
    exact ⟨fun hp => hp, rfl, rfl⟩
  · intro hpresent hcleared
    rw [Present, rows] at hpresent
    rw [record, Function.update_self] at hcleared ⊢
    rw [hruns, if_pos rfl]
    exact (h.kept _ hpresent hcleared).snoc run
  · rw [record, Function.update_self]
    right
    right
    refine ⟨run, rfl, rfl, ?_, logged⟩
    intro earlier hearlier
    obtain ⟨hmine, call, execution, hmem⟩ := h.logged _ earlier hearlier
    exact fresh call earlier execution hmem hmine

omit [DecidableEq κ] in
theorem Archive.trimmed {id : String} (h : Archive o)
    (history : o.world.history ⊆ o'.world.history)
    (runs : o'.world.runs = trimRuns o.world.runs id) (rows : o'.world.rows = o.world.rows)
    (record : o'.record = o.record) : Archive o' := by
  have hruns : ∀ other, runsOf o'.world other = if other = id then
      newest AutomationRun.firedAt runHistoryLimit (runsOf o.world other)
      else runsOf o.world other := fun _ => runsOf_trimmed runs
  refine h.turn history id ?_ ?_ ?_
  · intro other hne
    rw [Present, rows, hruns, if_neg hne, record]
    exact ⟨fun hp => hp, rfl, rfl⟩
  · intro hpresent hcleared
    rw [Present, rows] at hpresent
    rw [record] at hcleared ⊢
    rw [hruns, if_pos rfl]
    exact (h.kept id hpresent hcleared).trim (h.distinct id)
  · rw [record]
    exact Or.inr (Or.inl rfl)

theorem Archive.step (h : Archive o) (hd : Distinct o a) (hok : Orderly o a)
    (hs : o.step crates a = some o') : Archive o' := by
  obtain ⟨w', hw, rfl⟩ := Option.map_eq_some_iff.mp hs
  have history := history_kept hw
  cases step_runs hw with
  | cleared call id slot runs rows => exact h.cleared history runs rows (by simp only [note, slot])
  | recorded call run execution next slot runs rows logged =>
    simp only [Distinct, slot] at hd
    exact h.recorded history runs rows (by simp only [note, slot]) hd ⟨call, execution, logged⟩
  | trimmed call run next slot runs rows =>
    exact h.trimmed history runs rows (by simp only [note, slot])
  | inserted call stored slot runs rows =>
    simp only [Orderly, slot] at hok
    exact h.created history runs rows (by simp only [note, slot]) hok
  | updated call stored slot runs rows =>
    simp only [Orderly, slot] at hok
    have hnote : note o.world o.record (.next call) =
        if (rowOf o.world.rows stored.automation.id).isSome then o.record
        else Function.update o.record stored.automation.id ⟨[], false⟩ := by
      simp only [note, slot]
    by_cases hpresent : Present o.world stored.automation.id
    · refine h.frame history runs ?_ (hnote.trans (if_pos hpresent))
      intro id hafter
      by_cases hid : id = stored.automation.id
      · rwa [hid]
      · rwa [Present, rows, rowOf_upsert, if_neg hid] at hafter
    · exact h.created history runs rows (hnote.trans (if_neg hpresent)) (hok hpresent)
  | other runs rows quiet => exact h.frame history runs rows (quiet o.record)

omit [DecidableEq κ] in
/-- What is cut to the newest is listed as it should be. -/
theorem Bounded.of_newest {id : String}
    (h : runsOf o.world id = newest AutomationRun.firedAt runHistoryLimit (o.record id).recorded)
    (hd : ((o.record id).recorded.map AutomationRun.firedAt).Nodup) : Bounded o id := by
  have hlength : (runsOf o.world id).length ≤ runHistoryLimit := h ▸ newest_length _
  have hsorted : (runsOf o.world id).Pairwise fun x y => y.firedAt < x.firedAt :=
    h ▸ newest_pairwise hd
  refine ⟨hlength, h, hsorted, ?_⟩
  intro limit
  have hsame : descending AutomationRun.firedAt (runsOf o.world id) = runsOf o.world id :=
    descending_of_pairwise hsorted
  rw [listRuns_eq, hsame]
  apply Words.limit_cast
  have hsmall : runHistoryLimit < 2 ^ 63 := by decide
  omega

theorem Archive.tidy (h : Archive o) (hok : Orderly o a) : Tidy crates o a := by
  cases a with
  | next call =>
    unfold Tidy
    simp only
    cases slot : o.world.calls call with
    | none => trivial
    | some phase =>
      cases phase with
      | recording run execution next =>
        intro o' hs id hid
        obtain ⟨w', hw, rfl⟩ := Option.map_eq_some_iff.mp hs
        simp only [World.step, slot, World.advance, Option.some.injEq] at hw
        have hruns : runsOf w' id = if run.automationId = id then runsOf o.world id ++ [run]
            else runsOf o.world id := runsOf_recorded (hw ▸ rfl)
        rw [hruns, if_neg (Ne.symm hid)]
      | trimming run next =>
        simp only [Orderly, slot] at hok
        intro o' hs
        obtain ⟨w', hw, rfl⟩ := Option.map_eq_some_iff.mp hs
        simp only [World.step, slot, World.advance, Option.some.injEq] at hw
        obtain ⟨hfinish, hrows⟩ :=
          finish_runs { o.world with runs := trimRuns o.world.runs run.automationId } call run next
        rw [hw] at hfinish hrows
        have hruns : ∀ id, runsOf w' id = if id = run.automationId then
            newest AutomationRun.firedAt runHistoryLimit (runsOf o.world id)
            else runsOf o.world id := fun _ => runsOf_trimmed hfinish
        refine ⟨fun id hid => (hruns id).trans (if_neg hid), ?_⟩
        intro hpresent
        rw [Present, hrows] at hpresent
        have hcleared := hok hpresent
        have hkept := h.kept _ hpresent hcleared
        have hdistinct := h.distinct run.automationId
        have hnote : note o.world o.record (.next call) = o.record := by simp only [note, slot]
        apply Bounded.of_newest
        · simp only [hnote]
          rw [hruns, if_pos rfl, hkept.newest_eq hdistinct]
        · simp only [hnote]
          exact hdistinct
      | _ => trivial
  | _ => trivial

end Keep

/-- A run of the engines whose steps are orderly leaves every history as it should be after
each recording. -/
theorem history_tidy {σ κ : Type} [DecidableEq κ] (crates : Crates σ) (as : List (Action κ))
    (h : Machine.Steps (Observed.step crates) (fun o a => Distinct o a ∧ Orderly o a)
      Observed.start as) :
    Machine.Steps (Observed.step crates) (Tidy crates) Observed.start as := by
  have htidy : ∀ (o : Observed κ) a, Archive o → Distinct o a ∧ Orderly o a → Tidy crates o a :=
    fun _ _ hi hok => hi.tidy hok.2
  have hkeep : ∀ (o : Observed κ) a o', Archive o → Distinct o a ∧ Orderly o a →
      o.step crates a = some o' → Archive o' := fun _ _ _ hi hok hs => hi.step hok.1 hok.2 hs
  exact Machine.steps_of_steps htidy hkeep Archive.start h

section Sample

/-- An automation is created and fired by hand. -/
def firedByHand : List (Action Nat) :=
  [.begin 0 (.create sweep (clock 10 30 0) ""), .next 0, .next 0,
    .begin 1 (.fire sweep.id (clock 10 40 0)), .next 1, .next 1, .next 1, .next 1, .next 1]

theorem firedByHand_orderly : Machine.Steps (Observed.step hourly)
    (fun o a => Distinct o a ∧ Orderly o a) Observed.start firedByHand := by
  iterate 2 refine Machine.steps_cons ⟨trivial, trivial⟩ rfl ?_
  refine Machine.steps_cons ⟨trivial, rfl⟩ rfl ?_
  iterate 4 refine Machine.steps_cons ⟨trivial, trivial⟩ rfl ?_
  refine Machine.steps_cons ⟨?_, trivial⟩ rfl ?_
  · rintro call earlier execution (_ | ⟨_, _ | ⟨_, _ | _⟩⟩)
  refine Machine.steps_cons ⟨trivial, fun _ => rfl⟩ rfl ?_
  trivial

theorem history_tidy_fired :
    Machine.Steps (Observed.step hourly) (Tidy hourly) Observed.start firedByHand :=
  history_tidy hourly firedByHand firedByHand_orderly

/-- A run in flight is recorded when its automation is gone, which is then created again and
fired. -/
def outlived : List (Action Nat) :=
  [.begin 0 (.create sweep (clock 10 30 0) ""), .next 0, .next 0,
    .begin 1 (.fire sweep.id (clock 10 40 0)), .next 1, .next 1, .next 1,
    .begin 2 (.delete sweep.id), .next 2, .next 2, .next 1, .next 1,
    .begin 3 (.create sweep (clock 11 30 0) ""), .next 3, .next 3,
    .begin 4 (.fire sweep.id (clock 11 40 0)), .next 4, .next 4, .next 4, .next 4, .next 4]

theorem outlived_distinct :
    Machine.Steps (Observed.step hourly) Distinct Observed.start outlived := by
  iterate 10 refine Machine.steps_cons trivial rfl ?_
  refine Machine.steps_cons ?_ rfl ?_
  · rintro call earlier execution (_ | ⟨_, _ | ⟨_, _ | ⟨_, _ | _⟩⟩⟩)
  iterate 8 refine Machine.steps_cons trivial rfl ?_
  refine Machine.steps_cons ?_ rfl ?_
  · rintro call earlier execution
      (_ | ⟨_, _ | ⟨_, _ | ⟨_, _ | ⟨_, _ | ⟨_, _ | ⟨_, _ | ⟨_, _ | _⟩⟩⟩⟩⟩⟩⟩) -
    decide
  refine Machine.steps_cons trivial rfl ?_
  trivial

/-- The new automation has the old one's run in its history. -/
theorem run_outlives_delete :
    Machine.Steps (Observed.step hourly) Distinct Observed.start outlived ∧
      ¬Machine.Steps (Observed.step hourly) (Tidy hourly) Observed.start outlived ∧
      ∃ o, Machine.run (Observed.step hourly) Observed.start outlived = some o ∧
        (o.record sweep.id).recorded.map AutomationRun.firedAt = ["2026-09-20T11:40:00Z"] ∧
        (listRuns o.world.runs sweep.id 10).map AutomationRun.firedAt =
          ["2026-09-20T11:40:00Z", "2026-09-20T10:40:00Z"] := by
  refine ⟨outlived_distinct, ?_, ⟨_, rfl, rfl, rfl⟩⟩
  intro h
  iterate 20 replace h := h.2 _ rfl
  have hkept := ((h.1 _ rfl).2 rfl).kept
  have hlength := congrArg List.length hkept
  cases hlength

end Sample

end Prospero.Proofs.RunHistory
