import Prospero.Proofs.AutomationEngine

namespace Prospero.Proofs.Automations
open Prospero.Automations

section Ledger

variable {κ : Type} (id : String)

/-- What has come of one automation: the creation that stands, and the claims of
its ticks, each with the call that made it. -/
structure Ledger (κ : Type) where
  created : Option StoredAutomation
  fired : List (κ × String)

def note (l : Ledger κ) : Happening κ → Ledger κ
  | .replied _ (.ok (.created stored)) =>
    if stored.automation.id = id then { l with created := some stored } else l
  | .replied _ (.ok (.deleted other _)) => if other = id then { l with created := none } else l
  | .claimed call other fireAt =>
    if other = id then { l with fired := l.fired ++ [(call, fireAt)] } else l
  | _ => l

/-- An automation is created where there is none, and a tick is claimed for one
there is, and never again. -/
def Allows (l : Ledger κ) : Happening κ → Prop
  | .replied _ (.ok (.created stored)) => stored.automation.id = id → l.created = none
  | .claimed _ other fireAt => other = id →
      l.created.isSome = true ∧ ∀ claim ∈ l.fired, claim.2 ≠ fireAt
  | _ => True

def ledger (w : World κ) : Ledger κ := w.history.foldl (note id) ⟨none, []⟩

/-- Nothing that the ledger of the automation takes down. -/
def Aside (h : Happening κ) : Prop := ∀ l : Ledger κ, note id l h = l ∧ Allows id l h

variable {id} {w w' : World κ}

theorem aside_of_plain {h : Happening κ} (hp : Plain h) : Aside id h := by
  intro l
  cases h with
  | replied call r =>
    cases r with
    | error e => exact ⟨rfl, trivial⟩
    | ok reply =>
      cases reply with
      | created | deleted => exact hp.elim
      | updated | ticked | ran => exact ⟨rfl, trivial⟩
  | claimed | ensured | recorded => exact hp.elim

theorem ledger_append {happened : List (Happening κ)}
    (h : w'.history = w.history ++ happened) :
    ledger id w' = happened.foldl (note id) (ledger id w) := by
  rw [ledger, h, List.foldl_append]
  rfl

theorem ledger_aside {happened : List (Happening κ)} (h : w'.history = w.history ++ happened)
    (haside : ∀ x ∈ happened, Aside id x) : ledger id w' = ledger id w := by
  rw [ledger_append h]
  clear h
  induction happened with
  | nil => rfl
  | cons x xs ih =>
    rw [List.foldl_cons, (haside x List.mem_cons_self _).1]
    exact ih fun y hy => haside y (List.mem_cons_of_mem x hy)

/-- The history goes on as the ledger allows. -/
theorem accepts_snoc {x : Happening κ}
    (hw : Monitor.Accepts (note id) (Allows id) ⟨none, []⟩ w.history)
    (h : w'.history = w.history ++ [x]) (hx : Allows id (ledger id w) x) :
    Monitor.Accepts (note id) (Allows id) ⟨none, []⟩ w'.history := by
  rw [h]
  exact Monitor.accepts_append.mpr ⟨hw, hx, trivial⟩

theorem accepts_aside {happened : List (Happening κ)}
    (hw : Monitor.Accepts (note id) (Allows id) ⟨none, []⟩ w.history)
    (h : w'.history = w.history ++ happened) (haside : ∀ x ∈ happened, Aside id x) :
    Monitor.Accepts (note id) (Allows id) ⟨none, []⟩ w'.history := by
  rw [h]
  refine Monitor.accepts_append.mpr ⟨hw, ?_⟩
  generalize w.history.foldl (note id) ⟨none, []⟩ = l
  clear h
  induction happened generalizing l with
  | nil => trivial
  | cons x xs ih =>
    exact ⟨(haside x List.mem_cons_self l).2,
      ih (fun y hy => haside y (List.mem_cons_of_mem x hy)) _⟩

end Ledger

section Keep

variable {σ κ : Type} [DecidableEq κ] (crates : Crates σ) (id : String)

/-- A create writes its row only where there is none, and not with a time before a
tick already claimed. An edit writes back the automation that is still there, and a
due tick is claimed for the automation the pass has read. -/
def Unraced (w : World κ) : Action κ → Prop
  | .next call =>
    match w.calls call with
    | some (.inserting stored) => stored.automation.id = id →
        rowOf w.rows id = none ∧ ∀ claim ∈ (ledger id w).fired, claim.2 ≤ stored.automation.createdAt
    | some (.updating stored) => stored.automation.id = id →
        ∃ row, rowOf w.rows id = some row ∧ Same stored row
    | some (.ticking ⟨now, stored :: _⟩) => stored.automation.id = id →
        (dueTick crates stored now).isSome = true → ∀ row, rowOf w.rows id = some row →
        row.spec.createdAt = stored.automation.createdAt
    | _ => True
  | _ => True

/-- The automation as it is read now. -/
def current (row : Row) : Automation := (decodeAutomation row).automation

structure Inv (w : World κ) : Prop where
  accepted : Monitor.Accepts (note id) (Allows id) ⟨none, []⟩ w.history
  absent : rowOf w.rows id = none ↔ (ledger id w).created = none
  same : ∀ row stored, rowOf w.rows id = some row → (ledger id w).created = some stored →
    Same stored row
  stamped : ∀ row, rowOf w.rows id = some row → Stamped (current row)
  mark : ∀ row, rowOf w.rows id = some row → ∀ claim ∈ (ledger id w).fired,
    claim.2 ≤ anchor (current row)
  increasing : (ledger id w).fired.Pairwise fun x y => x.2 < y.2
  copies : ∀ call phase, w.calls call = some phase → ∀ stored ∈ held phase,
    stored.automation.id = id → Stamped stored.automation
  inserts : ∀ call stored, w.calls call = some (.inserting stored) →
    ∃ body createdAt secret, stored = newAutomation body createdAt secret

variable {crates id} {w w' : World κ} {call : κ} {phase : Phase} {stored : StoredAutomation}

omit [DecidableEq κ] in
theorem Inv.start : Inv id (World.start : World κ) := by
  constructor <;> simp [World.start, ledger, rowOf, Monitor.Accepts]

theorem Stamped.transfer {a b : Automation} (h : Stamped a) (hcreated : b.createdAt = a.createdAt)
    (hlast : b.lastFiredAt = a.lastFiredAt) : Stamped b :=
  ⟨hcreated ▸ h.created, fun last hl => hcreated ▸ h.fired last (hlast ▸ hl)⟩

omit [DecidableEq κ] in
theorem Inv.copied (h : Inv id w) (hc : Copied w call stored) (hid : stored.automation.id = id) :
    Stamped stored.automation := by
  rcases hc with ⟨old, hold, hmem⟩ | ⟨row, hrow, hsame, hlast⟩
  · exact h.copies call old hold stored hmem hid
  · rw [hid] at hrow
    exact (h.stamped row hrow).transfer (createdAt_eq hsame.1) hlast

/-- What a call's next phase holds is stamped if it is a copy. -/
theorem Inv.copies_update (h : Inv id w)
    (calls : w'.calls = Function.update w.calls call (some phase))
    (hcopies : ∀ stored ∈ held phase, Copied w call stored) :
    ∀ call' phase', w'.calls call' = some phase' → ∀ stored ∈ held phase',
      stored.automation.id = id → Stamped stored.automation := by
  intro call' phase' hslot stored hmem hid
  rw [calls] at hslot
  rcases Slots.update_some hslot with ⟨-, rfl⟩ | ⟨-, hold⟩
  · exact h.copied (hcopies stored hmem) hid
  · exact h.copies call' phase' hold stored hmem hid

theorem Inv.inserts_update (h : Inv id w)
    (calls : w'.calls = Function.update w.calls call (some phase))
    (hinsert : ∀ stored, phase = .inserting stored →
      ∃ body createdAt secret, stored = newAutomation body createdAt secret) :
    ∀ call' stored, w'.calls call' = some (.inserting stored) →
      ∃ body createdAt secret, stored = newAutomation body createdAt secret := by
  intro call' stored hslot
  rw [calls] at hslot
  rcases Slots.update_some hslot with ⟨-, heq⟩ | ⟨-, hold⟩
  · exact hinsert stored heq.symm
  · exact h.inserts call' stored hold

omit [DecidableEq κ] in
/-- The row stays as it is and nothing is taken down about it. -/
theorem Inv.frame {happened : List (Happening κ)} (h : Inv id w)
    (rows : rowOf w'.rows id = rowOf w.rows id) (history : w'.history = w.history ++ happened)
    (haside : ∀ x ∈ happened, Aside id x)
    (hcopies : ∀ call phase, w'.calls call = some phase → ∀ stored ∈ held phase,
      stored.automation.id = id → Stamped stored.automation)
    (hinserts : ∀ call stored, w'.calls call = some (.inserting stored) →
      ∃ body createdAt secret, stored = newAutomation body createdAt secret) : Inv id w' := by
  have hl := ledger_aside history haside
  refine ⟨accepts_aside h.accepted history haside, ?_, ?_, ?_, ?_, ?_, hcopies, hinserts⟩
  · rw [rows, hl]
    exact h.absent
  · rw [rows, hl]
    exact h.same
  · rw [rows]
    exact h.stamped
  · rw [rows, hl]
    exact h.mark
  · rw [hl]
    exact h.increasing

/-- A call is done. -/
theorem Inv.done (h : Inv id w) (calls : w'.calls = Function.update w.calls call (some .done)) :
    (∀ call phase, w'.calls call = some phase → ∀ stored ∈ held phase,
      stored.automation.id = id → Stamped stored.automation) ∧
    ∀ call stored, w'.calls call = some (.inserting stored) →
      ∃ body createdAt secret, stored = newAutomation body createdAt secret :=
  ⟨h.copies_update calls (by simp [held]), h.inserts_update calls (by simp)⟩

theorem Inv.inserted (h : Inv id w) (slot : w.calls call = some (.inserting stored))
    (hok : Unraced crates id w (.next call))
    (rows : w'.rows = w.rows.upsertAutomation stored)
    (calls : w'.calls = Function.update w.calls call (some .done))
    (history : w'.history = w.history ++ [.replied call (.ok (.created stored))]) : Inv id w' := by
  obtain ⟨hcopies, hinserts⟩ := h.done calls
  have hrow : rowOf w'.rows id = if id = stored.automation.id then
      some ⟨encodeSpec stored, stored.webhookSecret, (rowOf w.rows id).bind Row.lastFiredAt⟩
      else rowOf w.rows id := by
    rw [rows, rowOf_upsert]
  by_cases hid : id = stored.automation.id
  · simp only [Unraced, slot] at hok
    obtain ⟨hnone, hfired⟩ := hok hid.symm
    rw [if_pos hid, hnone] at hrow
    have hl : ledger id w' = { ledger id w with created := some stored } := by
      rw [ledger_append history]
      exact if_pos hid.symm
    obtain ⟨body, createdAt, secret, hnew⟩ := h.inserts call stored slot
    refine ⟨accepts_snoc h.accepted history fun _ => h.absent.mp hnone, ?_, ?_, ?_, ?_, ?_,
      hcopies, hinserts⟩
    · simp [hrow, hl]
    · intro row stored' hr hs
      rw [hrow] at hr
      rw [hl] at hs
      cases hr
      cases hs
      exact ⟨rfl, rfl⟩
    · intro row hr
      rw [hrow] at hr
      cases hr
      exact ⟨⟨createdAt, by rw [hnew]; rfl⟩, nofun⟩
    · intro row hr claim hclaim
      rw [hrow] at hr
      rw [hl] at hclaim
      cases hr
      exact hfired claim hclaim
    · rw [hl]
      exact h.increasing
  · rw [if_neg hid] at hrow
    have haside : Aside id (.replied call (.ok (.created stored))) :=
      fun _ => ⟨if_neg (Ne.symm hid), fun heq => absurd heq.symm hid⟩
    exact h.frame hrow history (List.forall_mem_singleton.mpr haside) hcopies hinserts

theorem Inv.updated (h : Inv id w) (slot : w.calls call = some (.updating stored))
    (hok : Unraced crates id w (.next call))
    (rows : w'.rows = w.rows.upsertAutomation stored)
    (calls : w'.calls = Function.update w.calls call (some .done))
    (history : w'.history = w.history ++ [.replied call (.ok (.updated stored))]) : Inv id w' := by
  obtain ⟨hcopies, hinserts⟩ := h.done calls
  have hrow : rowOf w'.rows id = if id = stored.automation.id then
      some ⟨encodeSpec stored, stored.webhookSecret, (rowOf w.rows id).bind Row.lastFiredAt⟩
      else rowOf w.rows id := by
    rw [rows, rowOf_upsert]
  have haside : ∀ x ∈ [Happening.replied call (.ok (.updated stored))], Aside id x :=
    List.forall_mem_singleton.mpr fun _ => ⟨rfl, trivial⟩
  by_cases hid : id = stored.automation.id
  · simp only [Unraced, slot] at hok
    obtain ⟨row, hold, hsame⟩ := hok hid.symm
    rw [if_pos hid, hold] at hrow
    have hl := ledger_aside history haside
    have hnow : Stamped (current row) := h.stamped row hold
    have hcreated : (encodeSpec stored).createdAt = row.spec.createdAt := (createdAt_eq hsame.1)
    refine ⟨accepts_aside h.accepted history haside, ?_, ?_, ?_, ?_, ?_, hcopies, hinserts⟩
    · rw [hl, ← h.absent, hold, hrow]
      simp
    · intro row' stored' hr hs
      rw [hrow] at hr
      rw [hl] at hs
      cases hr
      obtain ⟨hcore, hsecret⟩ := h.same row stored' hold hs
      exact ⟨hcore.trans hsame.1.symm, hsecret.trans hsame.2.symm⟩
    · intro row' hr
      rw [hrow] at hr
      cases hr
      exact hnow.transfer hcreated rfl
    · intro row' hr claim hclaim
      rw [hrow] at hr
      rw [hl] at hclaim
      cases hr
      have hmark := h.mark row hold claim hclaim
      unfold anchor at hmark ⊢
      rw [show (current row).createdAt = (encodeSpec stored).createdAt from hcreated.symm] at hmark
      exact hmark
    · rw [hl]
      exact h.increasing
  · rw [if_neg hid] at hrow
    exact h.frame hrow history haside hcopies hinserts

theorem Inv.deleted {other : String} {existed : Bool} (h : Inv id w)
    (rows : w'.rows = w.rows.erase other)
    (calls : w'.calls = Function.update w.calls call (some .done))
    (history : w'.history = w.history ++ [.replied call (.ok (.deleted other existed))]) :
    Inv id w' := by
  obtain ⟨hcopies, hinserts⟩ := h.done calls
  have hrow : rowOf w'.rows id = if id = other then none else rowOf w.rows id := by
    rw [rows, rowOf_erase]
  by_cases hid : id = other
  · rw [if_pos hid] at hrow
    have hl : ledger id w' = { ledger id w with created := none } := by
      rw [ledger_append history]
      exact if_pos hid.symm
    refine ⟨accepts_snoc h.accepted history trivial, ?_, ?_, ?_, ?_, ?_, hcopies, hinserts⟩
    · simp [hrow, hl]
    · simp [hrow]
    · simp [hrow]
    · simp [hrow]
    · rw [hl]
      exact h.increasing
  · rw [if_neg hid] at hrow
    have haside : Aside id (.replied call (.ok (.deleted other existed))) :=
      fun _ => ⟨if_neg (Ne.symm hid), trivial⟩
    exact h.frame hrow history (List.forall_mem_singleton.mpr haside) hcopies hinserts

omit [DecidableEq κ] in
/-- A tick comes after all that were claimed before it. -/
theorem Inv.due {now : DateTime} {rest : List StoredAutomation} {fireAt : String} {row : Row}
    (hr : Reliable crates) (h : Inv id w)
    (slot : w.calls call = some (.ticking ⟨now, stored :: rest⟩))
    (hok : Unraced crates id w (.next call)) (due : dueTick crates stored now = some fireAt)
    (hid : stored.automation.id = id) (hrow : rowOf w.rows id = some row)
    (hlast : ∀ last, row.lastFiredAt = some last → last < fireAt) :
    (∃ tick, fireAt = stamp tick ∧ IsTick crates stored.automation tick) ∧
      row.spec.createdAt < fireAt ∧ anchor (current row) < fireAt := by
  simp only [Unraced, slot] at hok
  have hcreated := hok hid (by simp [due]) row hrow
  have hstamped := h.copies call _ slot stored List.mem_cons_self hid
  obtain ⟨tick, htick, his, hafter⟩ := dueTick_eq hr hstamped due
  have hlt : row.spec.createdAt < fireAt := by
    rw [hcreated]
    exact lt_of_le_of_lt hstamped.anchor.2 hafter
  refine ⟨⟨tick, htick, his⟩, hlt, ?_⟩
  unfold anchor
  cases hfired : (current row).lastFiredAt with
  | none => exact hlt
  | some last => exact hlast last hfired

theorem Inv.claimed {now : DateTime} {rest : List StoredAutomation} {fireAt : String}
    {spec : TaskSpec} (hr : Reliable crates) (h : Inv id w)
    (slot : w.calls call = some (.ticking ⟨now, stored :: rest⟩))
    (hok : Unraced crates id w (.next call)) (due : dueTick crates stored now = some fireAt)
    (rows : w.rows.claimAutomationFire stored.automation.id fireAt = some w'.rows)
    (calls : w'.calls = Function.update w.calls call (some (.ensuring
      ⟨stored.automation.id, fireAt, .schedule, none, none⟩ spec (some ⟨now, rest⟩))))
    (history : w'.history = w.history ++ [.claimed call stored.automation.id fireAt]) :
    Inv id w' := by
  have hcopies := h.copies_update calls fun copy hcopy =>
    Or.inl ⟨_, slot, List.mem_cons_of_mem stored hcopy⟩
  have hinserts := h.inserts_update calls (by simp)
  obtain ⟨row, hold, hlast, hrows⟩ := claim_eq rows
  have hrow := hrows id
  by_cases hid : id = stored.automation.id
  · rw [if_pos hid] at hrow
    rw [← hid] at hold
    obtain ⟨⟨tick, htick, -⟩, hcreated, hanchor⟩ := h.due hr slot hok due hid.symm hold hlast
    have hl : ledger id w' =
        { ledger id w with fired := (ledger id w).fired ++ [(call, fireAt)] } := by
      rw [ledger_append history]
      exact if_pos hid.symm
    have hnew : ∀ claim ∈ (ledger id w).fired, claim.2 < fireAt :=
      fun claim hclaim => lt_of_le_of_lt (h.mark row hold claim hclaim) hanchor
    refine ⟨accepts_snoc h.accepted history ?_, ?_, ?_, ?_, ?_, ?_, hcopies, hinserts⟩
    · refine fun _ => ⟨?_, fun claim hclaim => (hnew claim hclaim).ne⟩
      rw [Option.isSome_iff_ne_none, ne_eq, ← h.absent, hold]
      simp
    · rw [hl, hrow, ← h.absent, hold]
      simp
    · intro row' stored' hr' hs
      rw [hrow] at hr'
      rw [hl] at hs
      cases hr'
      exact h.same row stored' hold hs
    · intro row' hr'
      rw [hrow] at hr'
      cases hr'
      refine ⟨(h.stamped row hold).created, ?_⟩
      intro last hl'
      cases hl'
      exact ⟨⟨tick, htick⟩, hcreated⟩
    · intro row' hr' claim hclaim
      rw [hrow] at hr'
      rw [hl] at hclaim
      cases hr'
      rcases List.mem_append.mp hclaim with hclaim | hclaim
      · exact (hnew claim hclaim).le
      · cases List.mem_singleton.mp hclaim
        exact le_rfl
    · rw [hl]
      refine List.pairwise_append.mpr ⟨h.increasing, List.pairwise_singleton _ _, ?_⟩
      intro x hx y hy
      cases List.mem_singleton.mp hy
      exact hnew x hx
  · rw [if_neg hid] at hrow
    have haside : Aside id (.claimed call stored.automation.id fireAt) :=
      fun _ => ⟨if_neg (Ne.symm hid), fun heq => absurd heq.symm hid⟩
    exact h.frame hrow history (List.forall_mem_singleton.mpr haside) hcopies hinserts

theorem Inv.step {a : Action κ} (hr : Reliable crates) (h : Inv id w)
    (hok : Unraced crates id w a) (hs : w.step crates a = some w') : Inv id w' := by
  cases step_effect hs with
  | removed name rows calls history | applied name spec rows calls history =>
    exact h.frame (rows ▸ rfl) (history.trans (List.append_nil _).symm) (by simp)
      (calls ▸ h.copies) (calls ▸ h.inserts)
  | moved call phase happened turn kept calls history plain =>
    exact h.frame (kept.rows ▸ rfl) history (fun x hx => aside_of_plain (plain x hx))
      (h.copies_update calls turn.copies) (h.inserts_update calls turn.insert)
  | inserted call stored slot rows cluster calls history =>
    exact h.inserted slot hok rows calls history
  | updated call stored slot rows cluster calls history =>
    exact h.updated slot hok rows calls history
  | deleted call other existed slot rows cluster calls history =>
    exact h.deleted rows calls history
  | claimed call now stored rest fireAt spec slot due rows cluster calls history =>
    exact h.claimed hr slot hok due rows calls history
  | spawned call run spec existed next execution slot rows cluster calls history =>
    exact h.frame (rows ▸ rfl) history (List.forall_mem_singleton.mpr fun _ => ⟨rfl, trivial⟩)
      (h.copies_update calls fun copy hcopy => Or.inl ⟨_, slot, hcopy⟩)
      (h.inserts_update calls (by simp))
  | recorded call run execution next slot kept calls history =>
    exact h.frame (kept.rows ▸ rfl) history (List.forall_mem_singleton.mpr fun _ => ⟨rfl, trivial⟩)
      (h.copies_update calls fun copy hcopy => Or.inl ⟨_, slot, hcopy⟩)
      (h.inserts_update calls (by simp))

end Keep

end Prospero.Proofs.Automations
