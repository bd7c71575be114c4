import Prospero.Proofs.Automation
import Prospero.Proofs.Sessions
import Prospero.Proofs.Unattended

namespace Prospero.Proofs.LeastPrivilege
open Prospero.Automations (Crates Phase Row)
open Prospero.Auth (Crypto Principal resolvePrincipal)
open Proofs.Automations (rowOf)
open Prospero.Unattended Proofs.Unattended

variable {σ κ : Type} [DecidableEq κ] {crypto : Crypto} {crates : Crates σ} {w w' : World κ}

section Scopes

/-- Who a request is from has no scope but the ones below `need`, if it has credentials. -/
def below (crypto : Crypto) (need : Auth.Scope) (r : Request κ) : Bool :=
  (resolvePrincipal crypto r.auth r.headers r.nowUnix).all fun p => decide (p.scope < need)

omit [DecidableEq κ] in
/-- A request whose handler runs has the scope that its route asks for. -/
theorem not_below {r : Request κ} {identity : Auth.Identity} {need : Auth.Scope}
    (h : Auth.middleware crypto r.auth r.http = .ok identity)
    (haccess : Auth.requiredAccess r.call.endpoint.1 r.call.endpoint.2 = .requires need) :
    below crypto need r = false := by
  obtain ⟨p, hp, hmay⟩ := admitted_scoped h need haccess
  have hext : extension crypto r.auth r.http =
      resolvePrincipal crypto r.auth r.headers r.nowUnix := by
    unfold extension
    rw [show Auth.requiredAccess r.http.method r.http.route = .requires need from haccess]
    rfl
  rw [below, ← hext, hp, Option.all_some]
  exact decide_eq_false hmay

end Scopes

section Readers

end Readers

section Operators

/-- A request of somebody who is no admin, or something else than a request. -/
def unprivileged (crypto : Crypto) : Action κ → Bool
  | .request r => below crypto .admin r
  | _ => true

/-- The call writes an automation, or deletes one. -/
def Writing : Phase → Prop
  | .creating _ _ _ | .inserting _ | .reading _ _ | .updating _ | .clearing _ | .deleting _ => True
  | _ => False

def Quiet (w : Automations.World κ) : Prop :=
  ∀ call phase, w.calls call = some phase → ¬Writing phase

/-- What is configured of an automation: all of its row but when it last fired. -/
def configured (w : Automations.World κ) (id : String) :
    Option (Automations.Automation × Option String) :=
  (rowOf w.rows id).map fun row => (row.spec, row.webhookSecret)

section Engine

variable {e e' : Automations.World κ} {call : κ} {phase : Phase}

theorem Quiet.update (h : Quiet e) (hcalls : e'.calls = Function.update e.calls call (some phase))
    (hphase : ¬Writing phase) : Quiet e' := by
  intro other next slot
  rw [hcalls] at slot
  rcases Slots.update_some slot with ⟨-, rfl⟩ | ⟨-, hold⟩
  · exact hphase
  · exact h other next hold

theorem Quiet.reply (h : Quiet e) (r : Except Automations.CoreError Automations.Reply) :
    Quiet (e.reply call r) := h.update rfl id

theorem Quiet.proceed {α : Type} (h : Quiet e) {r : Except Automations.CoreError α}
    {next : α → Phase} (hnext : ∀ x, r = .ok x → ¬Writing (next x)) :
    Quiet (e.proceed call r next) := by
  cases r with
  | error why => exact h.reply _
  | ok x => exact h.update rfl (hnext x rfl)

theorem Quiet.finish {run : Automations.AutomationRun} (h : Quiet e)
    (next : Option Automations.Pass) : Quiet (e.finish call run next) := by
  cases next with
  | none => exact h.reply _
  | some pass => exact h.update rfl id

theorem run_not_writing {stored : Automations.StoredAutomation} {firedAt : String}
    {source : Automations.RunSource} {payload : Option Value} {next : Option Automations.Pass} :
    ¬Writing (Automations.runAutomation crates stored firedAt source payload next) := by
  simp only [Automations.runAutomation]
  split
  · exact id
  · exact id

omit [DecidableEq κ] in
theorem fire_not_writing {id : String} {source : Automations.RunSource} {payload : Option Value}
    {now : DateTime}
    (h : Automations.fireAutomation crates e.rows id source payload now = .ok phase) :
    ¬Writing phase := by
  unfold Automations.fireAutomation at h
  split at h
  · cases h
  · cases h
    exact run_not_writing

omit [DecidableEq κ] in
theorem trigger_not_writing {id : String} {body : List UInt8} {signature : Option String}
    {now : DateTime}
    (h : Automations.triggerWebhook crates e.rows id body signature now = .ok phase) :
    ¬Writing phase := by
  unfold Automations.triggerWebhook at h
  repeat' split at h
  all_goals cases h
  exact run_not_writing

theorem Quiet.tick (h : Quiet e) (pass : Automations.Pass) : Quiet (e.tick crates call pass) := by
  unfold Automations.World.tick
  split
  · exact h.reply _
  · split
    · exact h.update rfl id
    · split
      · exact h.update rfl id
      · exact h.update rfl run_not_writing

theorem Quiet.advance (h : Quiet e) (slot : e.calls call = some phase)
    (hs : e.advance crates call phase = some e') : Quiet e' := by
  have hphase := h call phase slot
  cases phase with
  | creating | inserting | reading | updating | clearing | deleting => exact absurd trivial hphase
  | listing now =>
    cases hs
    exact h.update rfl id
  | ticking pass =>
    cases hs
    exact h.tick pass
  | firing id now =>
    cases hs
    exact h.proceed fun _ => fire_not_writing
  | triggering id body signature now =>
    cases hs
    exact h.proceed fun _ => trigger_not_writing
  | ensuring run spec next | applying run spec existed next | recording run execution next =>
    cases hs
    exact h.update rfl id
  | trimming run next =>
    cases hs
    have htrimmed : Quiet { e with runs := Automations.trimRuns e.runs run.automationId } := h
    exact htrimmed.finish next
  | done => cases hs

theorem Quiet.fail {message : String} (h : Quiet e) (slot : e.calls call = some phase)
    (hs : e.fail call message phase = some e') : Quiet e' := by
  cases phase with
  | ticking pass =>
    obtain ⟨now, rest⟩ := pass
    cases rest with
    | nil => cases hs
    | cons stored rest =>
      cases hs
      exact h.update rfl id
  | ensuring run spec next | applying run spec existed next =>
    cases hs
    exact h.update rfl id
  | recording run execution next | trimming run next =>
    cases hs
    exact h.finish next
  | done => cases hs
  | _ =>
    cases hs
    exact h.reply _

omit [DecidableEq κ] in
theorem configured_claim {id fireAt : String} {rows : Automations.Rows}
    (h : e.rows.claimAutomationFire id fireAt = some rows) (other : String) :
    (rowOf rows other).map (fun row => (row.spec, row.webhookSecret)) = configured e other := by
  obtain ⟨found, hfound, -, hrows⟩ := Automations.claim_eq h
  rw [hrows, configured]
  split
  · rename_i hid
    rw [hid, hfound]
    rfl
  · rfl

/-- Where no call writes an automation, a step of the engines leaves them as configured. -/
theorem configured_step {a : Automations.Action κ} (h : Quiet e) (hs : e.step crates a = some e')
    (id : String) : configured e' id = configured e id := by
  cases Automations.step_effect hs with
  | removed name rows | applied name spec rows
  | spawned call run spec existed next execution slot rows =>
    rw [configured, rows, configured]
  | moved call phase happened turn kept | recorded call run execution next slot kept =>
    rw [configured, kept.rows, configured]
  | inserted call stored slot | updated call stored slot | deleted call id' existed slot =>
    exact absurd trivial (h call _ slot)
  | claimed call now stored rest fireAt spec slot due rows => exact configured_claim rows id

theorem Quiet.step {a : Automations.Action κ} (h : Quiet e) (hs : e.step crates a = some e')
    (hbegin : ∀ call request, a = .begin call request → ¬Writing request.start) : Quiet e' := by
  cases a with
  | begin call request =>
    simp only [Automations.World.step] at hs
    split at hs
    · cases hs
      exact h.update rfl (hbegin call request rfl)
    · cases hs
  | next call =>
    simp only [Automations.World.step] at hs
    split at hs
    · cases hs
    · exact h.advance ‹_› hs
  | fail call message =>
    simp only [Automations.World.step] at hs
    split at hs
    · cases hs
    · exact h.fail ‹_› hs
  | remove name | apply name spec =>
    cases hs
    exact h

end Engine

/-- What a step keeps while only operators act. -/
structure Kept (w w' : World κ) : Prop where
  quiet : Quiet w'.engine
  configured : ∀ id, configured w'.engine id = configured w.engine id

theorem kept_engine {a : Automations.Action κ} (h : Quiet w.engine)
    (hs : w.engine.step crates a = some w'.engine)
    (hbegin : ∀ call request, a = .begin call request → ¬Writing request.start) : Kept w w' :=
  ⟨h.step hs hbegin, configured_step h hs⟩

theorem kept_engage {principal : Option Principal} {call : κ} {request : Automations.Request}
    (h : Quiet w.engine) (hs : w.engage crates principal call request = some w')
    (hbegin : ¬Writing request.start) : Kept w w' := by
  obtain ⟨engine, hengine, rfl⟩ := Option.map_eq_some_iff.mp hs
  refine kept_engine h hengine ?_
  rintro call' request' ⟨rfl, rfl⟩
  exact hbegin

omit [DecidableEq κ] in
theorem kept_restart (h : Quiet w.engine) (id : String) : Kept w (w.restartAgent id) := by
  unfold World.restartAgent
  split
  · exact ⟨h, fun _ => rfl⟩
  · exact ⟨h, fun _ => rfl⟩

theorem kept_serve {r : Request κ} (h : Quiet w.engine) (hr : below crypto .admin r = true)
    (hs : w.serve crypto crates r = some w') : Kept w w' := by
  have hsame : Kept w w := ⟨h, fun _ => rfl⟩
  obtain ⟨tokens, sessionKey, headers, nowUnix, call⟩ := r
  unfold World.serve at hs
  split at hs
  · cases hs
    exact hsame
  · rename_i identity hadmitted
    have hadmin (he : Auth.requiredAccess call.endpoint.1 call.endpoint.2 = .requires .admin) :
        False := by
      rw [not_below hadmitted he] at hr
      cases hr
    cases call with
    | createAutomation | setEnabled | deleteAutomation => exact (hadmin rfl).elim
    | runNow | trigger => exact kept_engage h hs id
    | spawnAgent workspace body =>
      simp only [World.handle] at hs
      split at hs
      · cases hs
        exact hsame
      · cases hs
        exact ⟨h, fun _ => rfl⟩
    | respawnAgent id =>
      cases hs
      exact kept_restart h id
    | mcp tail tool =>
      cases tool with
      | spawnAgent args =>
        cases hs
        exact ⟨h, fun _ => rfl⟩
      | respawnAgent id =>
        cases hs
        exact kept_restart h id
    | other =>
      cases hs
      exact hsame

theorem kept_step {a : Action κ} (h : Quiet w.engine) (ha : unprivileged crypto a = true)
    (hs : w.step crypto crates a = some w') : Kept w w' := by
  cases a with
  | request r => exact kept_serve h ha hs
  | tick call now =>
    obtain ⟨engine, hengine, rfl⟩ := Option.map_eq_some_iff.mp hs
    refine kept_engine h hengine ?_
    rintro call' request' ⟨rfl, rfl⟩
    exact id
  | next call | fail call message =>
    obtain ⟨engine, hengine, rfl⟩ := Option.map_eq_some_iff.mp hs
    refine kept_engine h hengine ?_
    rintro call' request' ⟨⟩
  | place id n =>
    obtain ⟨spawn, -, rfl⟩ := Option.map_eq_some_iff.mp hs
    exact ⟨h, fun _ => rfl⟩
  | drop id =>
    cases hs
    exact ⟨h, fun _ => rfl⟩

/-- While no admin asks for anything, every automation stays as it is configured: whoever
spawns, runs it now or triggers it, and however these interleave with the ticks. -/
theorem configured_run {as : List (Action κ)} (h : Quiet w.engine)
    (has : ∀ a ∈ as, unprivileged crypto a = true)
    (hrun : Machine.run (World.step crypto crates) w as = some w') (id : String) :
    configured w'.engine id = configured w.engine id := by
  induction as generalizing w with
  | nil =>
    cases hrun
    rfl
  | cons a as ih =>
    obtain ⟨ha, hmore⟩ := List.forall_mem_cons.mp has
    obtain ⟨w₁, hstep, hrest⟩ := Machine.run_cons hrun
    have hkept := kept_step h ha hstep
    rw [ih hkept.quiet hmore hrest, hkept.configured]

/-- An automation is configured, and somebody without a token would have it deleted. -/
def swept : World Nat :=
  { World.start with
    engine := { Automations.World.start with
      rows := (∅ : Automations.Rows).upsertAutomation
        (Automations.newAutomation Automations.sweep (Automations.clock 9 0 0) "") } }

def anonymously (call : Call Nat) : Action Nat :=
  .request ⟨[], [], ⟨none, none, [], none, none, none⟩, 0, call⟩

theorem anonymously_unprivileged (call : Call Nat) :
    unprivileged Auth.sampleCrypto (anonymously call) = true := rfl

theorem configured_swept : ∃ w', Machine.run
      (World.step Auth.sampleCrypto Automations.hourly) swept
      [anonymously (.deleteAutomation 0 "sweep"), .drop "a1"] = some w' ∧
    configured w'.engine "sweep" = configured swept.engine "sweep" := by
  have hcalls : swept.engine.calls = fun _ => none := rfl
  have hquiet : Quiet swept.engine := by
    intro call phase slot
    rw [hcalls] at slot
    cases slot
  have hserve : swept.step Auth.sampleCrypto Automations.hourly
      (anonymously (.deleteAutomation 0 "sweep")) = some swept := rfl
  have hrun : ∃ w', Machine.run (World.step Auth.sampleCrypto Automations.hourly) swept
      [anonymously (.deleteAutomation 0 "sweep"), .drop "a1"] = some w' := by
    rw [Machine.run, hserve]
    exact ⟨_, rfl⟩
  obtain ⟨w', hw'⟩ := hrun
  exact ⟨w', hw', configured_run hquiet (List.forall_mem_cons.mpr
    ⟨anonymously_unprivileged _, List.forall_mem_singleton.mpr rfl⟩) hw' "sweep"⟩

end Operators

end Prospero.Proofs.LeastPrivilege
