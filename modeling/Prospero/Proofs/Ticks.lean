import Prospero.Proofs.AutomationLedger

namespace Prospero.Proofs.Ticks
open Prospero.Automations Prospero.Proofs.Automations

section Keep

variable {σ κ : Type} [DecidableEq κ] (crates : Crates σ) (id : String)

/-- The automation keeps existing: it is not created anew and not deleted. -/
def Keeps (w : World κ) : Action κ → Prop
  | .next call =>
    match w.calls call with
    | some (.inserting stored) => stored.automation.id = id → rowOf w.rows id = none
    | some (.deleting other) => other = id → rowOf w.rows id = none
    | _ => True
  | _ => True

/-- The claims of the automation's ticks, each with the pass that made it. -/
def claims (w : World κ) : List (κ × String) := (ledger id w).fired

def startOf : Happening κ → Option (κ × String)
  | .ensured call run _ =>
    if run.source = .schedule ∧ run.automationId = id then some (call, run.firedAt) else none
  | _ => none

/-- The scheduled spawns of the automation. -/
def starts (w : World κ) : List (κ × String) := w.history.filterMap (startOf id)

/-- The instant comes after the creation, whatever fraction of its second that was in. -/
def IsAfter (a : Automation) (tick : DateTime) : Prop :=
  (∃ created, a.createdAt = stamp created) ∧ ∀ created, a.createdAt = stamp created → created < tick

/-- Each tick is claimed by one pass at most, which alone spawns for it; the ticks
claimed go up, and each is a time of the schedule after the creation. -/
structure FiresOnce (w : World κ) : Prop where
  once : ∀ x ∈ claims id w, ∀ y ∈ claims id w, x.2 = y.2 → x = y
  increasing : ∃ ticks : List DateTime, (claims id w).map Prod.snd = ticks.map stamp ∧
    ticks.Pairwise (· < ·) ∧ ∀ tick ∈ ticks, ∃ row, rowOf w.rows id = some row ∧
      IsTick crates row.spec tick ∧ IsAfter row.spec tick
  spawns : starts id w ⊆ claims id w ∧ ((starts id w).map Prod.snd).Nodup

variable {crates id} {w w' : World κ} {call : κ} {phase : Phase} {a : Action κ}

/-- The row stays, but for what edits and claims change. -/
def RowKept (id : String) (w w' : World κ) : Prop :=
  ∀ row, rowOf w.rows id = some row → ∃ row', rowOf w'.rows id = some row' ∧
    core row'.spec = core row.spec ∧ row'.webhookSecret = row.webhookSecret

/-- What the spawns of the automation have to do with its claims. -/
structure Spawning (id : String) (w : World κ) : Prop where
  pending : ∀ call phase run, w.calls call = some phase → spawnOf phase = some run →
    run.source = .schedule → run.automationId = id →
    (call, run.firedAt) ∈ claims id w ∧ ∀ start ∈ starts id w, start.2 ≠ run.firedAt
  started : starts id w ⊆ claims id w
  nodup : ((starts id w).map Prod.snd).Nodup

structure Intact (crates : Crates σ) (id : String) (w : World κ) : Prop where
  inv : Inv id w
  fresh : rowOf w.rows id = none → claims id w = []
  copied : ∀ call phase, w.calls call = some phase → ∀ stored ∈ held phase,
    stored.automation.id = id → ∃ row, rowOf w.rows id = some row ∧ Same stored row
  scheduled : ∀ row, rowOf w.rows id = some row → ∀ claim ∈ claims id w,
    (∃ tick, claim.2 = stamp tick ∧ IsTick crates row.spec tick) ∧ row.spec.createdAt < claim.2
  spawning : Spawning id w

omit [DecidableEq κ] in
theorem Intact.start : Intact crates id (World.start : World κ) := by
  refine ⟨.start, ?_, ?_, ?_, ?_, ?_, ?_⟩ <;>
    simp [World.start, claims, starts, ledger, rowOf]

omit [DecidableEq κ] in
theorem Intact.unraced (h : Intact crates id w) (hok : Keeps id w a) : Unraced crates id w a := by
  cases a with
  | next call =>
    simp only [Keeps] at hok
    simp only [Unraced]
    cases hslot : w.calls call with
    | none => trivial
    | some phase =>
      cases phase with
      | inserting stored =>
        simp only [hslot] at hok
        intro hid
        refine ⟨hok hid, ?_⟩
        intro claim hclaim
        rw [show (ledger id w).fired = [] from h.fresh (hok hid)] at hclaim
        cases hclaim
      | updating stored => exact h.copied call _ hslot stored List.mem_cons_self
      | ticking pass =>
        obtain ⟨now, rest⟩ := pass
        cases rest with
        | nil => trivial
        | cons stored rest =>
          intro hid _ row hrow
          obtain ⟨row', hrow', hsame⟩ := h.copied call _ hslot stored List.mem_cons_self hid
          cases hrow.symm.trans hrow'
          exact (createdAt_eq hsame.1).symm
      | _ => trivial
  | _ => trivial

omit [DecidableEq κ] in
theorem rowKept_of_eq (h : rowOf w'.rows id = rowOf w.rows id) : RowKept id w w' :=
  fun row hrow => ⟨row, h.trans hrow, rfl, rfl⟩

/-- What a step adds to the claims of the automation: nothing, or a due tick. -/
inductive ClaimStep (crates : Crates σ) (id : String) (w w' : World κ) : Action κ → Prop
  | same {a : Action κ} (claims : claims id w' = claims id w) : ClaimStep crates id w w' a
  | claimed (call : κ) (now : DateTime) (stored : StoredAutomation)
      (rest : List StoredAutomation) (fireAt : String) (row : Row)
      (slot : w.calls call = some (.ticking ⟨now, stored :: rest⟩))
      (due : dueTick crates stored now = some fireAt) (automation : stored.automation.id = id)
      (row_eq : rowOf w.rows id = some row)
      (last : ∀ last, row.lastFiredAt = some last → last < fireAt)
      (claims : claims id w' = claims id w ++ [(call, fireAt)]) :
      ClaimStep crates id w w' (.next call)

omit [DecidableEq κ] in
theorem upsert_kept {stored : StoredAutomation} (h : Intact crates id w)
    (slot : w.calls call = some (.updating stored))
    (rows : w'.rows = w.rows.upsertAutomation stored) : RowKept id w w' := by
  intro row hrow
  have hnew := (congrArg (rowOf · id) rows).trans rowOf_upsert
  by_cases hid : id = stored.automation.id
  · rw [if_pos hid] at hnew
    obtain ⟨row', hrow', hsame⟩ := h.copied call _ slot stored List.mem_cons_self hid.symm
    cases hrow.symm.trans hrow'
    exact ⟨_, hnew, hsame⟩
  · rw [if_neg hid] at hnew
    exact rowKept_of_eq hnew row hrow

omit [DecidableEq κ] in
theorem claims_aside {happened : List (Happening κ)} (history : w'.history = w.history ++ happened)
    (haside : ∀ x ∈ happened, Aside id x) : claims id w' = claims id w :=
  congrArg Ledger.fired (ledger_aside history haside)

omit [DecidableEq κ] in
theorem claims_snoc {x : Happening κ} (history : w'.history = w.history ++ [x])
    (hx : ∀ l : Ledger κ, (note id l x).fired = l.fired) : claims id w' = claims id w := by
  rw [claims, ledger_append history]
  exact hx _

/-- An automation that keeps existing keeps its row. -/
theorem step_rows (h : Intact crates id w) (hok : Keeps id w a)
    (hs : w.step crates a = some w') : RowKept id w w' ∧ ClaimStep crates id w w' a := by
  cases step_effect hs with
  | removed name rows calls history | applied name spec rows calls history =>
    exact ⟨rowKept_of_eq (rows ▸ rfl), ClaimStep.same (claims_aside
      (history.trans (List.append_nil _).symm) (by simp))⟩
  | moved call phase happened turn kept calls history plain =>
    exact ⟨rowKept_of_eq (kept.rows ▸ rfl),
      ClaimStep.same (claims_aside history fun x hx => aside_of_plain (plain x hx))⟩
  | inserted call stored slot rows cluster calls history =>
    simp only [Keeps, slot] at hok
    refine ⟨?_, ClaimStep.same (claims_snoc history fun l => ?_)⟩
    · intro row hrow
      have hne : id ≠ stored.automation.id := by
        intro hid
        rw [hok hid.symm] at hrow
        cases hrow
      exact rowKept_of_eq (by rw [rows, rowOf_upsert, if_neg hne]) row hrow
    · rw [note]
      split <;> rfl
  | updated call stored slot rows cluster calls history =>
    exact ⟨upsert_kept h slot rows, ClaimStep.same (claims_snoc history fun _ => rfl)⟩
  | deleted call other existed slot rows cluster calls history =>
    simp only [Keeps, slot] at hok
    refine ⟨?_, ClaimStep.same (claims_snoc history fun l => ?_)⟩
    · intro row hrow
      have hne : id ≠ other := by
        intro hid
        rw [hok hid.symm] at hrow
        cases hrow
      exact rowKept_of_eq (by rw [rows, rowOf_erase, if_neg hne]) row hrow
    · rw [note]
      split <;> rfl
  | claimed call now stored rest fireAt spec slot due rows cluster calls history =>
    obtain ⟨row, hold, hlast, hrows⟩ := claim_eq rows
    by_cases hid : id = stored.automation.id
    · have hrow : rowOf w.rows id = some row := hid ▸ hold
      refine ⟨?_, .claimed call now stored rest fireAt row slot due hid.symm hrow hlast ?_⟩
      · intro row' hrow'
        cases hrow.symm.trans hrow'
        exact ⟨_, (hrows id).trans (if_pos hid), rfl, rfl⟩
      · rw [claims, ledger_append history]
        exact congrArg Ledger.fired (if_pos hid.symm)
    · refine ⟨rowKept_of_eq ((hrows id).trans (if_neg hid)),
        ClaimStep.same (claims_snoc history fun l => ?_)⟩
      rw [note, if_neg (Ne.symm hid)]
  | spawned call run spec existed next execution slot rows cluster calls history =>
    exact ⟨rowKept_of_eq (rows ▸ rfl), ClaimStep.same (claims_snoc history fun _ => rfl)⟩
  | recorded call run execution next slot kept calls history =>
    exact ⟨rowKept_of_eq (kept.rows ▸ rfl), ClaimStep.same (claims_snoc history fun _ => rfl)⟩

/-- What a step has to do with the spawns of the automation. -/
inductive SpawnStep (id : String) (w w' : World κ) : Prop
  | same (starts : starts id w' = starts id w)
      (calls : ∀ call phase run, w'.calls call = some phase → spawnOf phase = some run →
        run.source = .schedule → run.automationId = id →
        ∃ old, w.calls call = some old ∧ spawnOf old = some run) : SpawnStep id w w'
  | spawned (call : κ) (run : AutomationRun) (old phase : Phase)
      (slot : w.calls call = some old) (spawn : spawnOf old = some run)
      (source : run.source = .schedule) (automation : run.automationId = id)
      (calls : w'.calls = Function.update w.calls call (some phase)) (idle : spawnOf phase = none)
      (starts : starts id w' = starts id w ++ [(call, run.firedAt)]) : SpawnStep id w w'
  | claimed (call : κ) (fireAt : String) (phase : Phase) (run : AutomationRun)
      (spawn : spawnOf phase = some run) (tick : run.firedAt = fireAt)
      (calls : w'.calls = Function.update w.calls call (some phase))
      (claims : claims id w' = claims id w ++ [(call, fireAt)])
      (starts : starts id w' = starts id w) : SpawnStep id w w'

omit [DecidableEq κ] in
theorem starts_append {happened : List (Happening κ)}
    (history : w'.history = w.history ++ happened)
    (h : ∀ x ∈ happened, startOf id x = none) : starts id w' = starts id w := by
  rw [starts, history, List.filterMap_append, List.filterMap_eq_nil_iff.mpr h, List.append_nil]
  rfl

omit [DecidableEq κ] in
theorem startOf_plain {x : Happening κ} (h : Plain x) : startOf id x = none := by
  cases x with
  | ensured => exact h.elim
  | _ => rfl

/-- One call moves on, and is not about to spawn unless it was before. -/
theorem SpawnStep.move (starts : starts id w' = starts id w)
    (calls : w'.calls = Function.update w.calls call (some phase))
    (hspawn : ∀ run, spawnOf phase = some run → run.source = .schedule → run.automationId = id →
      ∃ old, w.calls call = some old ∧ spawnOf old = some run) : SpawnStep id w w' := by
  refine .same starts ?_
  intro call' phase' run hslot hs hsource hid
  rw [calls] at hslot
  rcases Slots.update_some hslot with ⟨rfl, rfl⟩ | ⟨-, hold⟩
  · exact hspawn run hs hsource hid
  · exact ⟨phase', hold, hs⟩

theorem spawn_step (hs : w.step crates a = some w') : SpawnStep id w w' := by
  cases step_effect hs with
  | removed name rows calls history | applied name spec rows calls history =>
    refine .same (starts_append (history.trans (List.append_nil _).symm) (by simp)) ?_
    intro call phase run hslot hspawn _ _
    exact ⟨phase, calls ▸ hslot, hspawn⟩
  | moved call phase happened turn kept calls history plain =>
    exact .move (starts_append history fun x hx => startOf_plain (plain x hx)) calls
      fun run hspawn hsource _ => turn.spawn run hspawn hsource
  | inserted call stored slot rows cluster calls history
  | updated call stored slot rows cluster calls history
  | deleted call other existed slot rows cluster calls history =>
    exact .move (starts_append history (by simp [startOf])) calls (by simp [spawnOf])
  | claimed call now stored rest fireAt spec slot due rows cluster calls history =>
    have hstarts : starts id w' = starts id w := starts_append history (by simp [startOf])
    by_cases hid : stored.automation.id = id
    · refine .claimed call fireAt _ _ rfl rfl calls ?_ hstarts
      rw [claims, ledger_append history]
      exact congrArg Ledger.fired (if_pos hid)
    · refine .move hstarts calls ?_
      rintro run hspawn - hrun
      cases hspawn
      exact absurd hrun hid
  | spawned call run spec existed next execution slot rows cluster calls history =>
    by_cases hmine : run.source = .schedule ∧ run.automationId = id
    · refine .spawned call run _ _ slot rfl hmine.1 hmine.2 calls rfl ?_
      rw [starts, history, List.filterMap_append]
      simp [startOf, hmine, starts]
    · exact .move (starts_append history (by simp [startOf, hmine])) calls (by simp [spawnOf])
  | recorded call run execution next slot kept calls history =>
    exact .move (starts_append history (by simp [startOf])) calls (by simp [spawnOf])

omit [DecidableEq κ] in
/-- Claims that go up are told apart by their ticks. -/
theorem claims_once (h : (claims id w).Pairwise fun x y => x.2 < y.2) :
    ∀ x ∈ claims id w, ∀ y ∈ claims id w, x.2 = y.2 → x = y :=
  List.Pairwise.forall_of_forall_of_flip (R := fun x y => x.2 = y.2 → x = y) (fun _ _ _ => rfl)
    (h.imp fun hlt heq => absurd heq hlt.ne) (h.imp fun hlt heq => absurd heq hlt.ne')

theorem Spawning.step (h : Spawning id w) (hs : SpawnStep id w w')
    (hsub : claims id w ⊆ claims id w')
    (hold : (claims id w).Pairwise fun x y => x.2 < y.2)
    (hnew : (claims id w').Pairwise fun x y => x.2 < y.2) : Spawning id w' := by
  cases hs with
  | same starts calls =>
    refine ⟨?_, starts ▸ List.Subset.trans h.started hsub, starts ▸ h.nodup⟩
    intro call phase run hslot hspawn hsource hid
    obtain ⟨old, hslot', hspawn'⟩ := calls call phase run hslot hspawn hsource hid
    obtain ⟨hclaim, hfresh⟩ := h.pending call old run hslot' hspawn' hsource hid
    exact ⟨hsub hclaim, starts ▸ hfresh⟩
  | spawned call run old phase slot spawn source automation calls idle starts =>
    obtain ⟨hclaim, hfresh⟩ := h.pending call old run slot spawn source automation
    refine ⟨?_, ?_, ?_⟩
    · intro call' phase' run' hslot hspawn hsource hid
      rw [calls] at hslot
      rcases Slots.update_some hslot with ⟨-, rfl⟩ | ⟨hne, hslot'⟩
      · rw [idle] at hspawn
        cases hspawn
      · obtain ⟨hclaim', hfresh'⟩ := h.pending call' phase' run' hslot' hspawn hsource hid
        refine ⟨hsub hclaim', ?_⟩
        intro start hstart
        rw [starts] at hstart
        rcases List.mem_append.mp hstart with hstart | hstart
        · exact hfresh' start hstart
        · cases List.mem_singleton.mp hstart
          intro heq
          exact hne (congrArg Prod.fst (claims_once hold _ hclaim _ hclaim' heq)).symm
    · rw [starts]
      refine List.append_subset.mpr ⟨List.Subset.trans h.started hsub, ?_⟩
      exact List.cons_subset.mpr ⟨hsub hclaim, List.nil_subset _⟩
    · rw [starts, List.map_append]
      refine List.nodup_append.mpr ⟨h.nodup, List.nodup_singleton _, ?_⟩
      intro x hx y hy
      obtain ⟨start, hstart, rfl⟩ := List.mem_map.mp hx
      cases List.mem_singleton.mp hy
      exact hfresh start hstart
  | claimed call fireAt phase run spawn tick calls claimed starts =>
    rw [claimed] at hnew
    have hafter : ∀ x ∈ claims id w, x.2 < fireAt := fun x hx =>
      (List.pairwise_append.mp hnew).2.2 x hx _ (List.mem_singleton_self _)
    refine ⟨?_, starts ▸ List.Subset.trans h.started hsub, starts ▸ h.nodup⟩
    intro call' phase' run' hslot hspawn hsource hid
    rw [calls] at hslot
    rcases Slots.update_some hslot with ⟨rfl, rfl⟩ | ⟨-, hslot'⟩
    · cases spawn.symm.trans hspawn
      rw [claimed, tick, starts]
      exact ⟨List.mem_append_right _ (List.mem_singleton_self _),
        fun start hstart => (hafter start (h.started hstart)).ne⟩
    · obtain ⟨hclaim, hfresh⟩ := h.pending call' phase' run' hslot' hspawn hsource hid
      exact ⟨hsub hclaim, starts ▸ hfresh⟩

/-- The copies of the automation agree with its row. -/
theorem copied_step (h : Intact crates id w) (hkept : RowKept id w w')
    (hs : w.step crates a = some w') : ∀ call phase, w'.calls call = some phase →
    ∀ stored ∈ held phase, stored.automation.id = id →
    ∃ row, rowOf w'.rows id = some row ∧ Same stored row := by
  have hold : ∀ stored row, rowOf w.rows id = some row → Same stored row →
      ∃ row', rowOf w'.rows id = some row' ∧ Same stored row' := by
    intro stored row hrow hsame
    obtain ⟨row', hrow', hcore, hsecret⟩ := hkept row hrow
    exact ⟨row', hrow', hsame.1.trans hcore.symm, hsame.2.trans hsecret.symm⟩
  have hcopy : ∀ call stored, Copied w call stored → stored.automation.id = id →
      ∃ row, rowOf w'.rows id = some row ∧ Same stored row := by
    rintro call stored (⟨old, hslot, hmem⟩ | ⟨row, hrow, hsame, -⟩) hid
    · obtain ⟨row, hrow, hsame⟩ := h.copied call old hslot stored hmem hid
      exact hold stored row hrow hsame
    · exact hold stored row (hid ▸ hrow) hsame
  have hcall : ∀ call' phase', w'.calls = Function.update w.calls call' (some phase') →
      (∀ stored ∈ held phase', Copied w call' stored) →
      ∀ call phase, w'.calls call = some phase → ∀ stored ∈ held phase,
      stored.automation.id = id → ∃ row, rowOf w'.rows id = some row ∧ Same stored row := by
    intro call' phase' calls hcopies call phase hslot stored hmem hid
    rw [calls] at hslot
    rcases Slots.update_some hslot with ⟨-, rfl⟩ | ⟨-, hslot'⟩
    · exact hcopy call' stored (hcopies stored hmem) hid
    · exact hcopy call stored (Or.inl ⟨phase, hslot', hmem⟩) hid
  cases step_effect hs with
  | removed name rows calls history | applied name spec rows calls history =>
    intro call phase hslot stored hmem hid
    exact hcopy call stored (Or.inl ⟨phase, calls ▸ hslot, hmem⟩) hid
  | moved call phase happened turn kept calls history plain => exact hcall call _ calls turn.copies
  | inserted call stored slot rows cluster calls history
  | updated call stored slot rows cluster calls history
  | deleted call other existed slot rows cluster calls history =>
    exact hcall call _ calls (by simp [held])
  | claimed call now stored rest fireAt spec slot due rows cluster calls history =>
    exact hcall call _ calls fun copy hmem => Or.inl ⟨_, slot, List.mem_cons_of_mem stored hmem⟩
  | spawned call run spec existed next execution slot rows cluster calls history =>
    exact hcall call _ calls fun copy hmem => Or.inl ⟨_, slot, hmem⟩
  | recorded call run execution next slot kept calls history =>
    exact hcall call _ calls fun copy hmem => Or.inl ⟨_, slot, hmem⟩

omit [DecidableEq κ] in
theorem RowKept.none (h : RowKept id w w') (hnone : rowOf w'.rows id = none) :
    rowOf w.rows id = none := by
  cases hrow : rowOf w.rows id with
  | none => rfl
  | some row =>
    obtain ⟨row', hrow', -⟩ := h row hrow
    rw [hnone] at hrow'
    cases hrow'

omit [DecidableEq κ] in
theorem Intact.scheduled_keep {row' : Row} {claim : κ × String} (h : Intact crates id w)
    (hkept : RowKept id w w') (hrow' : rowOf w'.rows id = some row')
    (hclaim : claim ∈ claims id w) :
    (∃ tick, claim.2 = stamp tick ∧ IsTick crates row'.spec tick) ∧
      row'.spec.createdAt < claim.2 := by
  cases hrow : rowOf w.rows id with
  | none =>
    rw [h.fresh hrow] at hclaim
    cases hclaim
  | some row =>
    obtain ⟨row₁, hrow₁, hcore, -⟩ := hkept row hrow
    cases hrow'.symm.trans hrow₁
    obtain ⟨⟨tick, htick, his⟩, hcreated⟩ := h.scheduled row hrow claim hclaim
    exact ⟨⟨tick, htick, IsTick.transfer his hcore.symm⟩, createdAt_eq hcore ▸ hcreated⟩

theorem Intact.step (hr : Reliable crates) (h : Intact crates id w) (hok : Keeps id w a)
    (hs : w.step crates a = some w') : Intact crates id w' := by
  have hunraced := h.unraced hok
  have hinv := h.inv.step hr hunraced hs
  obtain ⟨hkept, hclaims⟩ := step_rows h hok hs
  have hsub : claims id w ⊆ claims id w' := by
    cases hclaims with
    | same claims => exact claims ▸ List.Subset.refl _
    | claimed call now stored rest fireAt row slot due automation row_eq last claims =>
      exact claims ▸ List.subset_append_left ..
  refine ⟨hinv, ?_, copied_step h hkept hs, ?_,
    h.spawning.step (spawn_step hs) hsub h.inv.increasing hinv.increasing⟩
  · intro hnone
    have hbefore := hkept.none hnone
    cases hclaims with
    | same claims => exact claims ▸ h.fresh hbefore
    | claimed call now stored rest fireAt row slot due automation row_eq last claims =>
      rw [hbefore] at row_eq
      cases row_eq
  · intro row' hrow' claim hclaim
    cases hclaims with
    | same claims => exact h.scheduled_keep hkept hrow' (claims ▸ hclaim)
    | claimed call now stored rest fireAt row slot due automation row_eq last claims =>
      rw [claims] at hclaim
      rcases List.mem_append.mp hclaim with hclaim | hclaim
      · exact h.scheduled_keep hkept hrow' hclaim
      · cases List.mem_singleton.mp hclaim
        obtain ⟨⟨tick, htick, his⟩, hcreated, -⟩ :=
          h.inv.due hr slot hunraced due automation row_eq last
        obtain ⟨row₁, hrow₁, hsame⟩ := h.copied call _ slot stored List.mem_cons_self automation
        cases row_eq.symm.trans hrow₁
        obtain ⟨row₂, hrow₂, hcore, -⟩ := hkept row row_eq
        cases hrow'.symm.trans hrow₂
        exact ⟨⟨tick, htick, IsTick.transfer his (hsame.1.trans hcore.symm)⟩,
          createdAt_eq hcore ▸ hcreated⟩

omit [DecidableEq κ] in
/-- The claims as instants. -/
theorem Intact.ticks (h : Intact crates id w) {l : List (κ × String)} (hl : l ⊆ claims id w) :
    ∃ ticks : List DateTime, l.map Prod.snd = ticks.map stamp ∧ ∀ tick ∈ ticks, ∃ row,
      rowOf w.rows id = some row ∧ IsTick crates row.spec tick ∧ IsAfter row.spec tick := by
  induction l with
  | nil => exact ⟨[], rfl, by simp⟩
  | cons claim l ih =>
    obtain ⟨hclaim, hrest⟩ := List.cons_subset.mp hl
    obtain ⟨ticks, hticks, hall⟩ := ih hrest
    obtain ⟨row, hrow⟩ : ∃ row, rowOf w.rows id = some row := by
      cases hrow : rowOf w.rows id with
      | none =>
        rw [h.fresh hrow] at hclaim
        cases hclaim
      | some row => exact ⟨row, rfl⟩
    obtain ⟨⟨tick, htick, his⟩, hcreated⟩ := h.scheduled row hrow claim hclaim
    refine ⟨tick :: ticks, by simp [hticks, htick], ?_⟩
    intro t ht
    rcases List.mem_cons.mp ht with rfl | ht
    · refine ⟨row, hrow, his, (h.inv.stamped row hrow).created, ?_⟩
      intro created hstamp
      exact lt_of_stamp_lt (hstamp ▸ htick ▸ hcreated)
    · exact hall t ht

omit [DecidableEq κ] in
theorem Intact.firesOnce (h : Intact crates id w) : FiresOnce crates id w := by
  obtain ⟨ticks, hticks, hall⟩ := h.ticks (List.Subset.refl _)
  refine ⟨claims_once h.inv.increasing, ⟨ticks, hticks, ?_, hall⟩,
    h.spawning.started, h.spawning.nodup⟩
  have hup : ((claims id w).map Prod.snd).Pairwise (· < ·) :=
    List.pairwise_map.mpr h.inv.increasing
  rw [hticks] at hup
  exact (List.pairwise_map.mp hup).imp lt_of_stamp_lt

/-- Ticks of an automation that keeps existing fire at most once and in order. -/
theorem ticks_fire_once (hr : Reliable crates) (id : String) (as : List (Action κ))
    (h : Machine.Steps (World.step crates) (Keeps id) World.start as) :
    Machine.Always (World.step crates) (FiresOnce crates id) World.start as :=
  Machine.always_mono (fun _ => Intact.firesOnce)
    (Machine.always_of_steps (fun _ _ _ hi hok hs => hi.step hr hok hs) .start h)

end Keep

/-- Two passes with different clocks read the row before either claims its tick. -/
def overlap : List (Action Nat) :=
  [.begin 0 (.create sweep (clock 10 30 0) ""), .next 0, .next 0,
    .begin 1 (.tick (clock 11 0 10)), .next 1,
    .begin 2 (.tick (clock 11 0 5)), .next 2, .next 1, .next 2, .next 1, .next 1]

theorem overlap_keeps :
    Machine.Steps (World.step hourly) (Keeps sweep.id) World.start overlap := by
  iterate 2 refine Machine.steps_cons trivial rfl ?_
  refine Machine.steps_cons (fun _ => rfl) rfl ?_
  iterate 8 refine Machine.steps_cons trivial rfl ?_
  trivial

theorem overlapping_passes_fire_once :
    ∃ w, Machine.run (World.step hourly) World.start overlap = some w ∧
      claims sweep.id w = [(1, "2026-09-20T11:00:00Z")] ∧ FiresOnce hourly sweep.id w :=
  ⟨_, rfl, rfl,
    Machine.always_end (ticks_fire_once hourly_reliable sweep.id overlap overlap_keeps) rfl⟩

end Prospero.Proofs.Ticks
