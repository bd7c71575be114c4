import Prospero.Attribution
import Prospero.Lib.Machine
import Prospero.Proofs.Auth
import Prospero.Proofs.Reconcile

namespace Prospero.Proofs.Attribution
open Prospero.Attribution
open Prospero.Auth (Headers Identity Principal Request TokenEntry middleware requiredAccess
  resolvePrincipal subjectHeader)
open Prospero.Deadlines (Stamp)
open Prospero.Reconcile (Entry Roster diff diffRecord)
open Prospero.Proofs.Auth (admitted_principal admitted_subject admitted_unguarded subject_none)
open Prospero.Proofs.Reconcile (Moves call_step)
open Prospero.Spawning (spoken)

variable {server : Server} {π τ : Type}

/-- What polls and watches write of what they see. -/
def observation : EventKind → Bool
  | .agentDiscovered | .statusChanged .. | .agentGone | .repoHealth _ | .agentTimedOut _ => true
  | _ => false

def origin : Task server → Option Request
  | .background _ => none
  | .request r _ _ _ _ => some r

/-- An observation names nobody, and a person is only named beside the
authenticated principal whose request named them. -/
structure Faithful (x : Written server) : Prop where
  observed : x.task.job.observes = true → observation x.event.kind = true →
    x.event.actor = none ∧ x.event.onBehalfOf = none
  asserted : ∀ subject, x.event.onBehalfOf = some subject → ∃ r principal,
    origin x.task = some r ∧ subjectHeader r.headers = .ok (some subject) ∧
      resolvePrincipal server.crypto server.auth r.headers r.nowUnix = some principal ∧
      x.event.actor = some principal.tokenName

def Exact (w : World server π) : Prop := ∀ x ∈ w.written, Faithful x

/-- Not a poll that a request has started, nor a webhook whose request claims to
act for someone. -/
def Plain : Task server → Prop
  | .background _ => True
  | .request r job _ _ _ =>
    job ≠ .poll ∧ (r.route = .automationTrigger → r.headers.onBehalfOf = none)

/-- The task whose emission an action is. -/
def writer (w : World server π) : Action π τ → Option (Task server)
  | .emit repo call _ _ | .setDeadline repo call _ _ | .timeOut repo call _ _ =>
    some (w.tasks repo call)
  | .attached .. => some (.background .attach)
  | .watched .. => some (.background .watch)
  | _ => none

/-- Whatever emits is plain. -/
def PlainWrites (w : World server π) (a : Action π τ) : Prop :=
  ∀ task, writer w a = some task → Plain task

section Identity

variable {r : Request} {job : Job} {identity : Identity}

/-- A poll in a request needs the admin scope. -/
theorem poll_access (h : performs r.method r.route .poll = true) :
    requiredAccess r.method r.route = .requires .admin ∧ r.route ∉ [.mcp, .mcpTail] := by
  obtain ⟨method, route, headers, now⟩ := r
  dsimp only at h ⊢
  unfold performs at h
  split at h
  case h_1 => exact ⟨rfl, by simp⟩
  case h_2 => exact ⟨rfl, by simp⟩
  all_goals simp_all

/-- Of the handlers that emit, the webhook's alone asks for no scope. -/
theorem performs_access (h : performs r.method r.route job = true) :
    (r.route = .automationTrigger ∧ requiredAccess r.method r.route = .unguarded) ∨
      (r.route ≠ .automationTrigger ∧
        ∃ need, requiredAccess r.method r.route = .requires need) := by
  obtain ⟨method, route, headers, now⟩ := r
  dsimp only at h ⊢
  unfold performs at h
  split at h
  case h_5 => exact Or.inl ⟨rfl, rfl⟩
  case h_6 => exact Or.inr ⟨by simp, .operate, by cases method <;> rfl⟩
  case h_7 => exact Or.inr ⟨by simp, .admin, by cases method <;> rfl⟩
  case h_9 => cases h
  all_goals exact Or.inr ⟨by simp, _, rfl⟩

theorem performs_observes (h : performs r.method r.route job = true)
    (hobserves : job.observes = true) : job = .poll := by
  cases job with
  | poll => rfl
  | spawn | rm | attach => cases hobserves
  | watch => simp [performs] at h

theorem scopeOf_of_ne (h : r.route ∉ [.mcp, .mcpTail]) : server.scopeOf r identity = identity :=
  if_neg fun hmcp => h hmcp.1

/-- No identity is more than what the middleware made out. -/
theorem scopeOf_subject {subject : String}
    (h : (server.scopeOf r identity).subject = some subject) :
    server.scopeOf r identity = identity := by
  unfold Server.scopeOf at h ⊢
  split at h
  · cases h
  · rename_i hcarried
    exact if_neg hcarried

variable {task : Task server} {kind : EventKind}

/-- What a plain task writes is attributed as it should be. -/
theorem plain_faithful (henabled : server.auth.isEnabled = true) (htask : Plain task)
    (repo id : String) (kind : EventKind) (stamp : Stamp) :
    Faithful ⟨task, nextEvent task.identity repo id kind stamp⟩ := by
  cases task with
  | background job =>
    refine ⟨fun _ _ => ⟨rfl, rfl⟩, ?_⟩
    intro subject hsubject
    cases hsubject
  | request r job identity admitted performed =>
    obtain ⟨hpoll, htrigger⟩ := htask
    constructor
    · intro hobserves
      exact absurd (performs_observes performed hobserves) hpoll
    · intro subject hsubject
      have hscope := scopeOf_subject hsubject
      have hidentity : identity.subject = some subject := hscope ▸ hsubject
      have hheader := (admitted_subject admitted).trans (congrArg Except.ok hidentity)
      rcases performs_access performed with ⟨hroute, -⟩ | ⟨-, need, haccess⟩
      · have habsent := subject_none.mpr (htrigger hroute)
        rw [hheader] at habsent
        cases habsent
      · obtain ⟨principal, hresolved, hactor⟩ := admitted_principal admitted henabled haccess
        refine ⟨r, principal, rfl, hheader, hresolved, ?_⟩
        exact (congrArg Identity.actor hscope).trans hactor

/-- What a poll in a request writes has its actor, and what a webhook with a
subject writes has no actor beside it. -/
theorem unfaithful (henabled : server.auth.isEnabled = true) (htask : ¬Plain task)
    (hkind : task.job = .poll → observation kind = true) (repo id : String) (stamp : Stamp) :
    ¬Faithful ⟨task, nextEvent task.identity repo id kind stamp⟩ := by
  intro hfaithful
  cases task with
  | background job => exact htask trivial
  | request r job identity admitted performed =>
    by_cases hpoll : job = .poll
    · subst hpoll
      obtain ⟨haccess, hroute⟩ := poll_access performed
      obtain ⟨principal, -, hactor⟩ := admitted_principal admitted henabled haccess
      have hnone : (server.scopeOf r identity).actor = none :=
        (hfaithful.observed rfl (hkind rfl)).1
      rw [scopeOf_of_ne hroute, hactor] at hnone
      cases hnone
    · have hwebhook : r.route = .automationTrigger ∧ r.headers.onBehalfOf ≠ none := by
        by_contra hother
        exact htask ⟨hpoll, fun hroute => by_contra fun hheader => hother ⟨hroute, hheader⟩⟩
      obtain ⟨hroute, hheader⟩ := hwebhook
      have hscope : server.scopeOf r identity = identity := scopeOf_of_ne (by simp [hroute])
      have haccess : requiredAccess r.method r.route = .unguarded := by
        rcases performs_access performed with ⟨-, haccess⟩ | ⟨hne, -⟩
        · exact haccess
        · exact absurd hroute hne
      cases hsubject : identity.subject with
      | none =>
        apply hheader
        exact subject_none.mp ((admitted_subject admitted).trans (congrArg Except.ok hsubject))
      | some subject =>
        have hasserted : (server.scopeOf r identity).subject = some subject := by
          rw [hscope, hsubject]
        obtain ⟨_, principal, -, -, -, hactor⟩ := hfaithful.asserted subject hasserted
        have hnone : (server.scopeOf r identity).actor = none := by
          rw [hscope]
          exact admitted_unguarded admitted haccess
        cases hnone.symm.trans hactor

end Identity

section Emit

variable [DecidableEq π] {w : World server π} {task : Task server} {repo id : String}
  {kind : EventKind} {stamp : Stamp} {lost : Option (Stamp × CoreError)}

omit [DecidableEq π] in
theorem emit_written {x : Written server}
    (h : x ∈ (w.emit task repo id kind stamp lost).written) : x ∈ w.written ∨
      ∃ kind' stamp', x = ⟨task, nextEvent task.identity repo id kind' stamp'⟩ := by
  rcases List.mem_append.mp h with h | h
  · exact Or.inl h
  · right
    obtain ⟨e, he, rfl⟩ := List.mem_map.mp h
    rcases List.mem_cons.mp he with rfl | he
    · exact ⟨kind, stamp, rfl⟩
    · obtain ⟨⟨gap, err⟩, -, rfl⟩ := Option.map_eq_some_iff.mp (Option.mem_toList.mp he)
      exact ⟨_, gap, rfl⟩

omit [DecidableEq π] in
theorem mem_emit : ⟨task, nextEvent task.identity repo id kind stamp⟩ ∈
    (w.emit task repo id kind stamp lost).written :=
  List.mem_append_right _ (List.mem_map_of_mem (List.mem_cons_self ..))

end Emit

section Fleet

variable [DecidableEq π] {f f' : Reconcile.World π} {a : Reconcile.Action π}

/-- What a call of a fleet has yet to emit are observations. -/
def Reports : Reconcile.Phase → Prop
  | .reporting _ _ pending => ∀ e ∈ pending, observation e.kind = true
  | .last e => observation e.kind = true
  | _ => True

omit [DecidableEq π] in
theorem diff_observes {own : Bool} {prior records : Roster} {attachedNow : List String} {e : Entry}
    (h : e ∈ diff own prior attachedNow records) : observation e.kind = true := by
  rcases List.mem_append.mp h with h | h
  · obtain ⟨rec, -, h⟩ := List.mem_filterMap.mp h
    unfold diffRecord at h
    split at h <;> cases (Option.ite_none_right_eq_some.mp h).2 <;> rfl
  · obtain ⟨old, -, h⟩ := List.mem_filterMap.mp h
    cases (Option.ite_none_right_eq_some.mp h).2
    rfl

/-- Only a spawn has something else to emit. -/
theorem reports_step {call : Nat} {y : Reconcile.Call π} (h : f.step a = some f')
    (hspawn : ∀ process id, a ≠ .spawn call process id)
    (hold : ∀ x, f.calls call = some x → Reports x.phase) (hy : f'.calls call = some y) :
    Reports y.phase := by
  rcases call_step h hy with hx | hm
  · exact hold y hx
  · cases hm with
    | reporting _ process own records prior slot => exact fun e he => diff_observes he
    | reported _ process own records e pending slot =>
      exact fun e' he' => hold _ slot e' (List.mem_cons_of_mem e he')
    | spawned _ process id slot => exact absurd rfl (hspawn process id)
    | gone | unreachable | recovered => rfl
    | _ => trivial

omit [DecidableEq π] in
theorem spoken_reports {call : Nat} {process : π} {e : Entry}
    (h : spoken f (.emit call) = some (process, e))
    (hold : ∀ x, f.calls call = some x → Reports x.phase) : observation e.kind = true := by
  obtain ⟨x, hx, h⟩ := Option.bind_eq_some_iff.mp h
  have hreports := hold x hx
  split at h
  · rename_i own records e' pending hphase
    cases h
    rw [hphase] at hreports
    exact hreports e (List.mem_cons_self ..)
  · rename_i e' hphase
    cases h
    rwa [hphase] at hreports
  · cases h

end Fleet

section Step

variable [DecidableEq π] [LinearOrder τ] {parse : String → Option τ} {w w' : World server π}
  {a : Action π τ}

/-- What an enabled action finds, and what it leaves. -/
inductive Effect (parse : String → Option τ) (w : World server π) :
    Action π τ → World server π → Prop
  | fleet (repo : String) (a : Reconcile.Action π) (f : Reconcile.World π)
      (quiet : silent a = true) (moved : (w.fleets repo).step a = some f) :
      Effect parse w (.fleet repo a) ((w.nowRest repo a).setFleet repo f)
  | restart (process : π) : Effect parse w (.restart process) (w.restart process)
  | forget (process : π) (repo : String) :
      Effect parse w (.forget process repo) (w.forget process repo)
  | background (job : Job) (repo : String) (call : Nat) (process : π) (w' : World server π)
      (begun : w.begin (.background job) repo call process = some w') :
      Effect parse w (.background job repo call process) w'
  | request (r : Request) (job : Job) (repo : String) (call : Nat) (process : π)
      (w' : World server π) (identity : Identity)
      (admitted : middleware server.crypto server.auth r = .ok identity)
      (performed : performs r.method r.route job = true)
      (begun : w.begin (.request r job identity admitted performed) repo call process = some w') :
      Effect parse w (.request r job repo call process) w'
  | emit (repo : String) (call : Nat) (stamp : Stamp) (lost : Option (Stamp × CoreError))
      (process : π) (e : Entry) (f : Reconcile.World π)
      (said : spoken (w.fleets repo) (.emit call) = some (process, e))
      (moved : (w.fleets repo).step (.emit call) = some f) :
      Effect parse w (.emit repo call stamp lost)
        ((w.setFleet repo f).emit (w.tasks repo call) repo e.agentId e.kind stamp lost)
  | announce (repo : String) (call : Nat) (stamp : Stamp) (lost : Option (Stamp × CoreError))
      (process : π) (e : Entry) (f : Reconcile.World π) (id deadline : String)
      (said : spoken (w.fleets repo) (.emit call) = some (process, e))
      (moved : (w.fleets repo).step (.emit call) = some f)
      (timed : (w.tasks repo call).job = .spawn id (some deadline)) :
      Effect parse w (.emit repo call stamp lost)
        (((w.setFleet repo f).emit (w.tasks repo call) repo e.agentId e.kind stamp lost).setRest
          repo call (some ⟨process, .setting id deadline⟩))
  | setDeadline (repo : String) (call : Nat) (stamp : Stamp) (lost : Option (Stamp × CoreError))
      (process : π) (id deadline : String)
      (slot : w.rest repo call = some ⟨process, .setting id deadline⟩) :
      Effect parse w (.setDeadline repo call stamp lost)
        (((w.setDeadlines process
          (Function.update (w.deadlines process) id (some deadline))).emit (w.tasks repo call) repo
            id (.deadlineSet deadline) stamp lost).setRest repo call none)
  | select (repo : String) (call : Nat) (history : String → List FleetEvent) (now : τ)
      (process : π) (slot : w.rest repo call = some ⟨process, .enforcing⟩)
      (deadlines : String → Option String) (due : List (String × String)) :
      Effect parse w (.select repo call history now)
        ((w.setDeadlines process deadlines).setRest repo call (some ⟨process, .killing due⟩))
  | timeOut (repo : String) (call : Nat) (stamp : Stamp) (lost : Option (Stamp × CoreError))
      (process : π) (id deadline : String) (due : List (String × String))
      (slot : w.rest repo call = some ⟨process, .killing ((id, deadline) :: due)⟩) :
      Effect parse w (.timeOut repo call stamp lost)
        ((w.emit (w.tasks repo call) repo id (.agentTimedOut deadline) stamp lost).setRest
          repo call (some ⟨process, .timedOut id due⟩))
  | killed (repo : String) (call : Nat) (process : π) (id : String) (due : List (String × String))
      (slot : w.rest repo call = some ⟨process, .timedOut id due⟩) :
      Effect parse w (.kill repo call true)
        ((w.setDeadlines process (Function.update (w.deadlines process) id none)).setRest
          repo call (some ⟨process, .killing due⟩))
  | missed (repo : String) (call : Nat) (process : π) (id : String) (due : List (String × String))
      (slot : w.rest repo call = some ⟨process, .timedOut id due⟩) :
      Effect parse w (.kill repo call false)
        (w.setRest repo call (some ⟨process, .killing due⟩))
  | done (repo : String) (call : Nat) (process : π)
      (slot : w.rest repo call = some ⟨process, .killing []⟩) :
      Effect parse w (.done repo call) (w.setRest repo call none)
  | attached (repo id : String) (kind : EventKind) (stamp : Stamp)
      (lost : Option (Stamp × CoreError)) :
      Effect parse w (.attached repo id kind stamp lost)
        (w.emit (.background .attach) repo id kind stamp lost)
  | watched (repo id : String) (fromStatus toStatus : AgentStatus) (stamp : Stamp)
      (lost : Option (Stamp × CoreError)) :
      Effect parse w (.watched repo id fromStatus toStatus stamp lost)
        (w.emit (.background .watch) repo id (.statusChanged fromStatus toStatus) stamp lost)

theorem step_effect (h : w.step parse a = some w') : Effect parse w a w' := by
  cases a with
  | fleet repo a =>
    obtain ⟨hquiet, h⟩ := Option.ite_none_right_eq_some.mp h
    obtain ⟨f, hmoved, rfl⟩ := Option.map_eq_some_iff.mp h
    exact .fleet repo a f hquiet hmoved
  | restart process =>
    cases h
    exact .restart process
  | forget process repo =>
    cases h
    exact .forget process repo
  | background job repo call process => exact .background job repo call process w' h
  | request r job repo call process =>
    simp only [World.step] at h
    split at h
    · rename_i identity admitted
      obtain ⟨performed, hbegun⟩ := Option.dite_none_right_eq_some.mp h
      exact .request r job repo call process w' identity admitted performed hbegun
    · cases h
  | emit repo call stamp lost =>
    simp only [World.step] at h
    split at h
    · rename_i process e f said moved
      split at h
      · rename_i id deadline timed
        cases h
        exact .announce repo call stamp lost process e f id deadline said moved timed
      · cases h
        exact .emit repo call stamp lost process e f said moved
    · cases h
  | setDeadline repo call stamp lost =>
    obtain ⟨⟨process, stage⟩, hx, h⟩ := Option.bind_eq_some_iff.mp h
    dsimp only at h
    split at h <;> cases h
    exact .setDeadline repo call stamp lost process _ _ hx
  | select repo call history now =>
    obtain ⟨⟨process, stage⟩, hx, h⟩ := Option.bind_eq_some_iff.mp h
    dsimp only at h
    split at h <;> cases h
    exact .select repo call history now process hx _ _
  | timeOut repo call stamp lost =>
    obtain ⟨⟨process, stage⟩, hx, h⟩ := Option.bind_eq_some_iff.mp h
    dsimp only at h
    split at h <;> cases h
    exact .timeOut repo call stamp lost process _ _ _ hx
  | kill repo call ok =>
    obtain ⟨⟨process, stage⟩, hx, h⟩ := Option.bind_eq_some_iff.mp h
    dsimp only at h
    split at h
    · cases ok <;> cases h
      · exact .missed repo call process _ _ hx
      · exact .killed repo call process _ _ hx
    · cases h
  | done repo call =>
    obtain ⟨⟨process, stage⟩, hx, h⟩ := Option.bind_eq_some_iff.mp h
    dsimp only at h
    split at h <;> cases h
    exact .done repo call process hx
  | attached repo id kind stamp lost =>
    cases h
    exact .attached repo id kind stamp lost
  | watched repo id fromStatus toStatus stamp lost =>
    cases h
    exact .watched repo id fromStatus toStatus stamp lost

end Step

/-- A call that a poll runs in reports observations and sets no deadline. -/
structure Sane (w : World server π) : Prop where
  polls : ∀ repo call x, (w.fleets repo).calls call = some x →
    (w.tasks repo call).job = .poll → Reports x.phase
  setting : ∀ repo call process id deadline,
    w.rest repo call = some ⟨process, .setting id deadline⟩ → (w.tasks repo call).job ≠ .poll

section Sane

variable [DecidableEq π] [LinearOrder τ] {parse : String → Option τ} {w w' : World server π}
  {a : Action π τ} {repo : String} {call : Nat} {task : Task server}

omit [DecidableEq π] in
theorem Sane.start (registries : String → Roster) :
    Sane (World.start server registries : World server π) :=
  ⟨fun _ _ _ hx => (nomatch hx), fun _ _ _ _ _ hx => (nomatch hx)⟩

omit [DecidableEq π] in
theorem setRest_some {repo' : String} {call' : Nat} {x : Option (Rest π)} {y : Rest π}
    (h : (w.setRest repo call x).rest repo' call' = some y) :
    (repo' = repo ∧ call' = call ∧ x = some y) ∨ w.rest repo' call' = some y := by
  simp only [World.setRest] at h
  by_cases hrepo : repo' = repo
  · subst hrepo
    rw [Function.update_self] at h
    by_cases hcall : call' = call
    · subst hcall
      rw [Function.update_self] at h
      exact Or.inl ⟨rfl, rfl, h⟩
    · rw [Function.update_of_ne hcall] at h
      exact Or.inr h
  · rw [Function.update_of_ne hrepo] at h
    exact Or.inr h

omit [DecidableEq π] in
theorem setTask_of_ne {repo' : String} {call' : Nat} (h : ¬(repo' = repo ∧ call' = call)) :
    (w.setTask repo call task).tasks repo' call' = w.tasks repo' call' := by
  simp only [World.setTask]
  by_cases hrepo : repo' = repo
  · subst hrepo
    rw [Function.update_self]
    exact Function.update_of_ne (fun hcall => h ⟨rfl, hcall⟩) ..
  · rw [Function.update_of_ne hrepo]

omit [DecidableEq π] in
theorem setTask_self : (w.setTask repo call task).tasks repo call = task := by
  simp only [World.setTask]
  rw [Function.update_self, Function.update_self]

/-- Where a call is none of a spawn's, a step of its fleet leaves it with reports. -/
theorem Sane.fleet (hw : Sane w) {b : Reconcile.Action π} {f : Reconcile.World π}
    (moved : (w.fleets repo).step b = some f) {repo' : String} {x : Reconcile.Call π}
    (hx : ((w.setFleet repo f).fleets repo').calls call = some x)
    (hjob : (w.tasks repo' call).job = .poll) (hspawn : ∀ process id, b ≠ .spawn call process id) :
    Reports x.phase := by
  simp only [World.setFleet] at hx
  by_cases hrepo : repo' = repo
  · subst hrepo
    rw [Function.update_self] at hx
    exact reports_step moved hspawn (fun y hy => hw.polls repo' call y hy hjob) hx
  · rw [Function.update_of_ne hrepo] at hx
    exact hw.polls repo' call x hx hjob

theorem opening_free {job : Job} {process : π} {b : Reconcile.Action π} {f f' : Reconcile.World π}
    (hopen : job.opening call process = some b) (moved : f.step b = some f') :
    f.calls call = none := by
  cases job with
  | poll =>
    cases hopen
    cases Reconcile.step_effect moved with | poll _ _ slot => exact slot
  | spawn id deadline =>
    cases hopen
    cases Reconcile.step_effect moved with | spawn _ _ _ slot => exact slot
  | rm id =>
    cases hopen
    cases Reconcile.step_effect moved with | rm _ _ _ slot => exact slot
  | attach | watch => cases hopen

theorem Sane.begin (hw : Sane w) {process : π} (h : w.begin task repo call process = some w') :
    Sane w' ∧ w'.written = w.written := by
  unfold World.begin at h
  split at h
  · rename_i b hrest hopen
    obtain ⟨f, moved, rfl⟩ := Option.map_eq_some_iff.mp h
    have hfree := opening_free hopen moved
    refine ⟨⟨?_, ?_⟩, rfl⟩
    · intro repo' call' x hx hjob
      by_cases hhere : repo' = repo ∧ call' = call
      · obtain ⟨rfl, rfl⟩ := hhere
        rw [setTask_self] at hjob
        rw [hjob] at hopen
        cases hopen
        have hx' : f.calls call' = some x := by simpa [World.setTask, World.setFleet] using hx
        apply reports_step moved (by simp) ?_ hx'
        intro y hy
        cases hfree.symm.trans hy
      · rw [setTask_of_ne hhere] at hjob
        by_cases hother : call' = call
        · subst hother
          have hrepo : repo' ≠ repo := fun he => hhere ⟨he, rfl⟩
          apply hw.polls repo' call' x ?_ hjob
          simpa [World.setTask, World.setFleet, Function.update_of_ne hrepo] using hx
        · refine hw.fleet moved hx hjob ?_
          rintro process' id rfl
          cases hj : task.job with
          | poll | rm | attach | watch => simp [hj, Job.opening] at hopen
          | spawn id' deadline =>
            rw [hj] at hopen
            cases hopen
            exact hother rfl
    · intro repo' call' process' id deadline hx
      have hne : ¬(repo' = repo ∧ call' = call) := by
        rintro ⟨rfl, rfl⟩
        cases hrest.symm.trans hx
      rw [setTask_of_ne hne]
      exact hw.setting repo' call' process' id deadline hx
  · cases h

theorem Sane.setFleet (hw : Sane w) {b : Reconcile.Action π} {f : Reconcile.World π}
    (moved : (w.fleets repo).step b = some f)
    (hspawn : ∀ call process id, b ≠ .spawn call process id) : Sane (w.setFleet repo f) :=
  ⟨fun _ call _ hx hjob => hw.fleet moved hx hjob (hspawn call), hw.setting⟩

omit [DecidableEq π] in
theorem Sane.setRest (hw : Sane w) {x : Option (Rest π)}
    (hx : ∀ process id deadline, x = some ⟨process, .setting id deadline⟩ →
      (w.tasks repo call).job ≠ .poll) : Sane (w.setRest repo call x) := by
  refine ⟨hw.polls, ?_⟩
  intro repo' call' process id deadline hy
  rcases setRest_some hy with ⟨rfl, rfl, he⟩ | hold
  · exact hx process id deadline he
  · exact hw.setting repo' call' process id deadline hold

omit [DecidableEq π] in
theorem Sane.nowRest (hw : Sane w) (repo : String) (b : Reconcile.Action π) :
    Sane (w.nowRest repo b) := by
  unfold World.nowRest
  split
  · split
    · exact hw.setRest fun _ _ _ he => nomatch he
    · exact hw
  · exact hw

omit [DecidableEq π] in
theorem nowRest_frame (w : World server π) (repo : String) (b : Reconcile.Action π) :
    (w.nowRest repo b).fleets = w.fleets ∧ (w.nowRest repo b).written = w.written := by
  unfold World.nowRest
  split
  · split <;> exact ⟨rfl, rfl⟩
  · exact ⟨rfl, rfl⟩

theorem Sane.restart (hw : Sane w) (process : π) : Sane (w.restart process) := by
  constructor
  · intro repo call x hx
    exact hw.polls repo call x (Option.filter_eq_some_iff.mp hx).1
  · intro repo call owner id deadline hx
    exact hw.setting repo call owner id deadline (Option.filter_eq_some_iff.mp hx).1

theorem Sane.forget (hw : Sane w) (process : π) (repo : String) :
    Sane (w.forget process repo) := by
  refine ⟨?_, hw.setting⟩
  intro repo' call x hx
  apply hw.polls repo' call x
  simp only [World.forget, World.setFleet] at hx
  by_cases hrepo : repo' = repo
  · subst hrepo
    rwa [Function.update_self] at hx
  · rwa [Function.update_of_ne hrepo] at hx

theorem Sane.step (hw : Sane w) (h : w.step parse a = some w') : Sane w' := by
  cases step_effect h with
  | fleet repo b f quiet moved =>
    apply (hw.nowRest repo b).setFleet
    · rwa [(nowRest_frame w repo b).1]
    · rintro call process id rfl
      cases quiet
  | restart process => exact hw.restart process
  | forget process repo => exact hw.forget process repo
  | background job repo call process w' begun => exact (hw.begin begun).1
  | request r job repo call process w' identity admitted performed begun => exact (hw.begin begun).1
  | emit repo call stamp lost process e f said moved =>
    have hf := hw.setFleet moved (by simp)
    exact ⟨hf.polls, hf.setting⟩
  | announce repo call stamp lost process e f id deadline said moved timed =>
    have hf := hw.setFleet moved (by simp)
    have he : Sane ((w.setFleet repo f).emit (w.tasks repo call) repo e.agentId e.kind
        stamp lost) := ⟨hf.polls, hf.setting⟩
    apply he.setRest
    rintro _ _ _ -
    change (w.tasks repo call).job ≠ .poll
    simp [timed]
  | setDeadline | select | timeOut | killed | missed | done =>
    apply Sane.setRest
    · exact ⟨hw.polls, hw.setting⟩
    · rintro _ _ _ he
      cases he
  | attached | watched => exact ⟨hw.polls, hw.setting⟩

/-- What an action writes: nothing, or one event of its writer and perhaps a marker. -/
theorem written_step (hw : Sane w) (h : w.step parse a = some w') :
    (writer w a = none ∧ w'.written = w.written) ∨ ∃ task repo id kind stamp lost,
      writer w a = some task ∧ w'.written = (w.emit task repo id kind stamp lost).written ∧
        (task.job = .poll → observation kind = true) := by
  cases step_effect h with
  | fleet repo b f quiet moved => exact Or.inl ⟨rfl, (nowRest_frame w repo b).2⟩
  | restart | forget | select | killed | missed | done => exact Or.inl ⟨rfl, rfl⟩
  | background job repo call process w' begun => exact Or.inl ⟨rfl, (hw.begin begun).2⟩
  | request r job repo call process w' identity admitted performed begun =>
    exact Or.inl ⟨rfl, (hw.begin begun).2⟩
  | emit repo call stamp lost process e f said moved
  | announce repo call stamp lost process e f id deadline said moved timed =>
    refine Or.inr ⟨w.tasks repo call, repo, e.agentId, e.kind, stamp, lost, rfl, rfl, ?_⟩
    intro hjob
    exact spoken_reports said fun x hx => hw.polls repo call x hx hjob
  | setDeadline repo call stamp lost process id deadline slot =>
    refine Or.inr ⟨w.tasks repo call, repo, id, .deadlineSet deadline, stamp, lost, rfl, rfl, ?_⟩
    exact fun hjob => absurd hjob (hw.setting repo call process id deadline slot)
  | timeOut repo call stamp lost process id deadline due slot =>
    exact Or.inr ⟨w.tasks repo call, repo, id, .agentTimedOut deadline, stamp, lost, rfl, rfl,
      fun _ => rfl⟩
  | attached repo id kind stamp lost =>
    exact Or.inr ⟨.background .attach, repo, id, kind, stamp, lost, rfl, rfl,
      fun hjob => nomatch hjob⟩
  | watched repo id fromStatus toStatus stamp lost =>
    exact Or.inr ⟨.background .watch, repo, id, .statusChanged fromStatus toStatus, stamp, lost,
      rfl, rfl, fun hjob => nomatch hjob⟩

theorem exact_step (henabled : server.auth.isEnabled = true) (hw : Sane w) (hexact : Exact w)
    (hok : PlainWrites w a) (h : w.step parse a = some w') : Exact w' := by
  intro x hx
  rcases written_step hw h with ⟨-, hsame⟩ | ⟨task, repo, id, kind, stamp, lost, hwriter, hmore, -⟩
  · exact hexact x (hsame ▸ hx)
  · rw [hmore] at hx
    rcases emit_written hx with hold | ⟨kind', stamp', rfl⟩
    · exact hexact x hold
    · exact plain_faithful henabled (hok task hwriter) repo id kind' stamp'

theorem exact_lost (henabled : server.auth.isEnabled = true) (hw : Sane w)
    (hok : ¬PlainWrites w a) (h : w.step parse a = some w') : ¬Exact w' := by
  intro hexact
  apply hok
  intro task hwriter
  by_contra hplain
  rcases written_step hw h with
    ⟨hnone, -⟩ | ⟨task', repo, id, kind, stamp, lost, hwriter', hmore, hkind⟩
  · cases hnone.symm.trans hwriter
  · obtain rfl := Option.some.inj (hwriter.symm.trans hwriter')
    apply unfaithful henabled hplain hkind repo id stamp
    apply hexact
    rw [hmore]
    exact mem_emit

/-- With authentication enabled, every event of a run is attributed as it should
be exactly as long as nothing emits that a request has made poll, or that a
webhook with a subject has made spawn. -/
theorem attribution_exact (server : Server) (henabled : server.auth.isEnabled = true)
    (parse : String → Option τ) (registries : String → Roster) (as : List (Action π τ))
    (t : World server π)
    (hr : Machine.run (World.step parse) (World.start server registries) as = some t) :
    Machine.Always (World.step parse) Exact (World.start server registries) as ↔
      Machine.Steps (World.step parse) PlainWrites (World.start server registries) as := by
  apply Machine.always_iff_steps (P := fun w : World server π => Sane w ∧ Exact w)
    (fun w hw => hw.2) ?_ ?_ ⟨Sane.start registries, fun x hx => nomatch hx⟩ hr
  · rintro w a w' ⟨hsane, hexact⟩ hok h
    exact ⟨hsane.step h, exact_step henabled hsane hexact hok h⟩
  · rintro w a w' ⟨hsane, -⟩ hok h
    exact exact_lost henabled hsane hok h

end Sane

section Runs

/-- The SHA-256 of `pspo_` and 43 times `A`. -/
def rootHash : List UInt8 :=
  [94, 201, 86, 77, 199, 193, 15, 95, 247, 93, 110, 249, 37, 37, 1, 63, 101, 178, 146, 135, 72, 222,
    112, 180, 177, 47, 242, 50, 137, 60, 198, 165]

def rootServer : Server where
  crypto := ⟨fun _ => rootHash, fun _ _ => [], fun _ => ""⟩
  auth := ⟨some [⟨"root", .admin, rootHash⟩], []⟩
  mcpInherits := false

def rootToken : Option String := some "Bearer pspo_AAAAAAAAAAAAAAAAAAAAAAAAAAAAAAAAAAAAAAAAAAA"

def ask (method : Auth.Method) (route : Auth.Route) (authorization onBehalfOf : Option String) :
    Request where
  method := method
  route := route
  headers := ⟨onBehalfOf.map some, authorization.map some, [], none, none, none⟩
  nowUnix := 0

/-- The poll loop discovers an agent, and then a request spawns one for somebody. -/
theorem attribution_exact_run :
    Machine.Always (World.step fun _ => (none : Option Nat)) Exact
      (World.start rootServer fun _ => [] : World rootServer Unit)
      [.fleet "web" (.caliband "a1" (some .running)), .background .poll "web" 0 (),
        .fleet "web" (.list 0), .fleet "web" (.readPrior 0), .fleet "web" (.diff 0),
        .emit "web" 0 ⟨1, "2026-09-20T10:00:00+00:00"⟩ none, .fleet "web" (.replace 0),
        .request (ask .post .workspaceAgents rootToken (some "discord:U123")) (.spawn "a2" none)
          "web" 1 (),
        .emit "web" 1 ⟨1, "2026-09-20T10:00:01+00:00"⟩ none] := by
  refine (attribution_exact rootServer rfl _ _ _ _ rfl).mpr ?_
  iterate 5 refine Machine.steps_cons (fun _ h => nomatch h) rfl ?_
  refine Machine.steps_cons (fun task h => ?_) rfl ?_
  · cases h
    trivial
  iterate 2 refine Machine.steps_cons (fun _ h => nomatch h) rfl ?_
  refine ⟨fun task h => ?_, fun _ _ => trivial⟩
  cases h
  exact ⟨nofun, nofun⟩

/-- A workspace that is added has its first poll put down to the administrator,
and a webhook may name anyone with no credential beside the name. -/
theorem attribution_mistaken :
    rootServer.auth.isEnabled = true ∧
      ¬Machine.Always (World.step fun _ => (none : Option Nat)) Exact
        (World.start rootServer fun _ => [] : World rootServer Unit)
        [.fleet "web" (.caliband "a1" (some .running)),
          .request (ask .post .workspaces rootToken none) .poll "web" 0 (),
          .fleet "web" (.list 0), .fleet "web" (.readPrior 0), .fleet "web" (.diff 0),
          .emit "web" 0 ⟨1, "2026-09-20T10:00:00+00:00"⟩ none] ∧
      ¬Machine.Always (World.step fun _ => (none : Option Nat)) Exact
        (World.start rootServer fun _ => [] : World rootServer Unit)
        [.request (ask .post .automationTrigger none (some "discord:U123")) (.spawn "a2" none)
            "web" 0 (),
          .emit "web" 0 ⟨1, "2026-09-20T10:00:00+00:00"⟩ none] := by
  refine ⟨rfl, ?_, ?_⟩
  · intro h
    have hend := Machine.always_end h rfl
    have hx := hend _ (List.mem_singleton.mpr rfl)
    have hactor : some "root" = none := (hx.observed rfl rfl).1
    cases hactor
  · intro h
    have hend := Machine.always_end h rfl
    have hx := hend _ (List.mem_singleton.mpr rfl)
    obtain ⟨r, principal, -, -, -, hactor⟩ := hx.asserted "discord:U123" rfl
    have hnone : none = some principal.tokenName := hactor
    cases hnone

end Runs

end Prospero.Proofs.Attribution
