import Prospero.ConfigForm
import Prospero.Lib.Checks

namespace Prospero.Proofs.ConfigForm
open Prospero.ConfigForm Checks
open Prospero.Workspaces (RepoProviderConfig)

section Trim

theorem trim_empty : trim "" = "" := rfl

/-- What is left begins with no blank. -/
theorem dropWhile_trim (cs : List Char) :
    (Automations.trim cs).dropWhile Automations.isWhitespace = Automations.trim cs := by
  unfold Automations.trim
  cases hdrop : cs.dropWhile Automations.isWhitespace with
  | nil => rfl
  | cons c rest =>
    have hc : ¬Automations.isWhitespace c = true := by
      have hhead := List.head?_dropWhile_not Automations.isWhitespace cs
      rw [hdrop] at hhead
      simpa using hhead
    cases htrim : (c :: rest).rdropWhile Automations.isWhitespace with
    | nil => rfl
    | cons c' rest' =>
      have hprefix := List.rdropWhile_prefix Automations.isWhitespace (l := c :: rest)
      rw [htrim] at hprefix
      obtain ⟨heq, -⟩ := List.cons_prefix_cons.mp hprefix
      rw [heq, List.dropWhile_cons_of_neg hc]

theorem trim_trim (s : String) : trim (trim s) = trim s := by
  have hlist : Automations.trim (Automations.trim s.toList) = Automations.trim s.toList :=
    calc Automations.trim (Automations.trim s.toList)
        = (Automations.trim s.toList).rdropWhile Automations.isWhitespace :=
          congrArg _ (dropWhile_trim s.toList)
      _ = Automations.trim s.toList := List.rdropWhile_idempotent _ _
  rw [trim, trim, String.toList_ofList, hlist]

theorem trim_isEmpty {s : String} :
    (Automations.trim s.toList).isEmpty = false ↔ trim s ≠ "" := by
  have hempty : Automations.trim s.toList = [] ↔ trim s = "" := by
    rw [← String.toList_inj, trim, String.toList_ofList]
    rfl
  rw [List.isEmpty_eq_false_iff, Ne, hempty]

/-- Nothing to trim, and something there. -/
def Tidy (s : String) : Prop := trim s = s ∧ s ≠ ""

theorem Tidy.someTrimmed {s : String} (h : Tidy s) : someTrimmed s = some s := by
  rw [ConfigForm.someTrimmed, h.1, if_neg h.2]

theorem someTrimmed_getD {o : Option String} (h : ∀ s, o = some s → Tidy s) :
    someTrimmed (o.getD "") = o := by
  cases o with
  | none => rfl
  | some s => exact (h s rfl).someTrimmed

end Trim

section Untouched

/-- Every field that is given is trimmed and not blank. -/
structure TidyConfig (config : WorkspaceConfig) : Prop where
  displayName : ∀ d, config.displayName = some d → Tidy d
  source : ∀ s ∈ config.sources, Tidy s.name ∧ Tidy s.repo ∧ Tidy s.path
  ref : ∀ s ∈ config.sources, ∀ r, s.ref = some r → Tidy r
  provider : ∀ p ∈ config.providers, Tidy p.name ∧ Tidy p.kind
  baseUrl : ∀ p ∈ config.providers, ∀ u, p.baseUrl = some u → Tidy u
  model : ∀ p ∈ config.providers, ∀ m, p.model = some m → Tidy m
  defaultProvider : ∀ d, config.defaultProvider = some d → Tidy d

theorem kept_map {α β γ : Type} {keep : β → Bool} {f : β → γ} {g : α → β} {k : α → γ} {xs : List α}
    (hkeep : ∀ x ∈ xs, keep (g x) = true) (hf : ∀ x ∈ xs, f (g x) = k x) :
    ((xs.map g).filter keep).map f = xs.map k := by
  have hall : (xs.map g).filter keep = xs.map g := by
    rw [List.filter_eq_self]
    intro y hy
    obtain ⟨x, hx, rfl⟩ := List.mem_map.mp hy
    exact hkeep x hx
  rw [hall, List.map_map]
  exact List.map_congr_left hf

variable {config : WorkspaceConfig} {name : String}

theorem openForm_sources (hs : config.sources ≠ []) :
    (openForm (workspaceFromConfig name config)).sources =
      config.sources.map fun s => K8sForm.sourceRow (shownSource (storedSource s)) := by
  simp [openForm, K8sForm.fromSummary, workspaceInfo, workspaceFromConfig, hs]

theorem openForm_providers (hp : config.providers ≠ []) :
    (openForm (workspaceFromConfig name config)).providers =
      config.providers.map fun p => K8sForm.providerRow (shownProvider (storedProvider p)) := by
  simp [openForm, K8sForm.fromSummary, workspaceInfo, workspaceFromConfig, hp]

variable (name) in
/-- The sources come back as they are stored. -/
theorem toConfig_sources (h : TidyConfig config) :
    (openForm (workspaceFromConfig name config)).toConfig.sources.map storedSource =
      config.sources.map storedSource := by
  by_cases hs : config.sources = []
  · simp [openForm, K8sForm.fromSummary, workspaceInfo, workspaceFromConfig, K8sForm.toConfig, hs,
      SourceRow.isBlank, trim_empty]
  · rw [K8sForm.toConfig, openForm_sources hs]
    simp only [List.map_map]
    apply kept_map
    · intro s hmem
      obtain ⟨hname, -, -⟩ := h.source s hmem
      simp [K8sForm.sourceRow, shownSource, storedSource, SourceRow.isBlank, hname.1, hname.2]
    · intro s hmem
      obtain ⟨hname, hrepo, hpath⟩ := h.source s hmem
      have href : someTrimmed (s.ref.getD "main") = some (s.ref.getD "main") := by
        apply Tidy.someTrimmed
        cases hr : s.ref with
        | none => exact ⟨rfl, by decide⟩
        | some r => exact h.ref s hmem r hr
      simp [K8sForm.sourceOf, K8sForm.sourceRow, shownSource, storedSource, hname.1, hrepo.1,
        hpath.1, href]

variable (name) in
/-- The providers come back, each without its Secret. -/
theorem toConfig_providers (h : TidyConfig config) :
    (openForm (workspaceFromConfig name config)).toConfig.providers =
      config.providers.map fun p => { p with credentialsRef := none } := by
  by_cases hp : config.providers = []
  · simp [openForm, K8sForm.fromSummary, workspaceInfo, workspaceFromConfig, K8sForm.toConfig, hp,
      trim_empty]
  · rw [K8sForm.toConfig, openForm_providers hp]
    apply kept_map
    · intro p hmem
      obtain ⟨hname, -⟩ := h.provider p hmem
      simp [K8sForm.providerRow, shownProvider, storedProvider, hname.1, hname.2]
    · intro p hmem
      obtain ⟨hname, hkind⟩ := h.provider p hmem
      have hempty : someTrimmed "" = none := rfl
      simp [K8sForm.providerOf, K8sForm.providerRow, shownProvider, storedProvider, hname.1,
        hkind.1, someTrimmed_getD (h.baseUrl p hmem), someTrimmed_getD (h.model p hmem), hempty]

theorem openForm_displayName (ws : Workspace) : (openForm ws).displayName = ws.spec.displayName := by
  by_cases hempty : ws.spec.displayName = ""
  · simp [openForm, K8sForm.fromSummary, workspaceInfo, hempty]
  · simp [openForm, K8sForm.fromSummary, workspaceInfo, hempty]

theorem toConfig_displayName (h : TidyConfig config) :
    (openForm (workspaceFromConfig name config)).toConfig.displayName.getD name =
        config.displayName.getD name ↔
      config.displayName.isSome = true ∨ trim name = name ∨ trim name = "" := by
  have hshown : (openForm (workspaceFromConfig name config)).displayName =
      config.displayName.getD name := openForm_displayName _
  rw [K8sForm.toConfig, hshown]
  cases hd : config.displayName with
  | some d => simp [(h.displayName d hd).someTrimmed]
  | none =>
    by_cases hblank : trim name = ""
    · simp [someTrimmed, hblank]
    · simp [someTrimmed, hblank]

variable (name) in
/-- A default that names no provider is let go. -/
theorem toConfig_defaultProvider (h : TidyConfig config) :
    (openForm (workspaceFromConfig name config)).toConfig.defaultProvider = config.defaultProvider ↔
      ∀ d, config.defaultProvider = some d → ∃ p ∈ config.providers, p.name = d := by
  have hproviders := toConfig_providers name h
  rw [K8sForm.toConfig] at hproviders ⊢
  simp only at hproviders ⊢
  rw [hproviders]
  cases hd : config.defaultProvider with
  | none => simp [openForm, K8sForm.fromSummary, workspaceInfo, workspaceFromConfig, hd]
  | some d =>
    simp [openForm, K8sForm.fromSummary, workspaceInfo, workspaceFromConfig, hd,
      (h.defaultProvider d hd).someTrimmed, Option.filter_eq_some_iff]

/-- A resource but for its Secret references. -/
def withoutCredentials (ws : Workspace) : Workspace :=
  { ws with spec := { ws.spec with
      providers := ws.spec.providers.map fun p => { p with credentialsRef := none } } }

/-- A form that is opened and saved untouched leaves the resource as it is, or not. -/
theorem untouched_iff (h : TidyConfig config) :
    withoutCredentials (workspaceFromConfig name
        (openForm (workspaceFromConfig name config)).toConfig) =
      withoutCredentials (workspaceFromConfig name config) ↔
    config.localConfig.env = [] ∧ config.isolation = none ∧
      (∀ d, config.defaultProvider = some d → ∃ p ∈ config.providers, p.name = d) ∧
      (config.displayName.isSome = true ∨ trim name = name ∨ trim name = "") := by
  have hproviders : (openForm (workspaceFromConfig name config)).toConfig.providers.map
      (fun p => { storedProvider p with credentialsRef := none }) =
        config.providers.map fun p => { storedProvider p with credentialsRef := none } := by
    rw [toConfig_providers name h, List.map_map]
    rfl
  have hsources := toConfig_sources name h
  have henv : (openForm (workspaceFromConfig name config)).toConfig.localConfig.env = [] := rfl
  have hisolation : (openForm (workspaceFromConfig name config)).toConfig.isolation = none := rfl
  rw [← toConfig_defaultProvider name h, ← toConfig_displayName h]
  generalize (openForm (workspaceFromConfig name config)).toConfig = resaved at *
  simp only [withoutCredentials, workspaceFromConfig, Workspace.mk.injEq, WorkspaceSpec.mk.injEq,
    List.map_map, Function.comp_def, true_and, and_true, hproviders, hsources, henv, hisolation,
    List.map_nil, Option.map_none, List.nil_eq, List.map_eq_nil_iff, eq_comm (a := none),
    Option.map_eq_none_iff]
  constructor
  · intro ⟨hdisplay, hdefault, henv, hisolation⟩
    exact ⟨henv, hisolation, hdefault, hdisplay⟩
  · intro ⟨henv, hisolation, hdefault, hdisplay⟩
    exact ⟨hdisplay, hdefault, henv, hisolation⟩

end Untouched

section Save

theorem refuse_ok {condition : Bool} {message : String} :
    refuse condition message = .ok () ↔ condition = false := by
  cases condition <;> simp [refuse]

variable {debug : String → String} {form : K8sForm} {config : WorkspaceConfig} {name : String}

/-- What the server asks of a configuration. -/
structure Complete (config : WorkspaceConfig) : Prop where
  sources : config.sources ≠ []
  source : ∀ s ∈ config.sources, trim s.name ≠ "" ∧ trim s.repo ≠ "" ∧ trim s.path ≠ ""
  providers : config.providers ≠ []
  provider : ∀ p ∈ config.providers, trim p.name ≠ "" ∧ trim p.kind ≠ ""

theorem checkSource_ok {s : WorkspaceSourceSpec} : checkSource debug s = .ok () ↔
    trim s.name ≠ "" ∧ trim s.repo ≠ "" ∧ trim s.path ≠ "" := by
  simp only [checkSource, refuse_ok, Bool.or_eq_false_iff, trim_isEmpty, and_assoc]

theorem checkProvider_ok {p : ProviderSpec} : checkProvider debug p = .ok () ↔
    trim p.name ≠ "" ∧ trim p.kind ≠ "" := by
  simp only [checkProvider, refuse_ok, Bool.or_eq_false_iff, trim_isEmpty]

theorem validateK8sConfig_ok : validateK8sConfig debug config = .ok () ↔ Complete config := by
  simp only [validateK8sConfig, bind, bind_ok, refuse_ok, forM_ok, checkSource_ok, checkProvider_ok,
    List.isEmpty_eq_false_iff]
  constructor
  · intro ⟨hs, hsource, hp, hprovider⟩
    exact ⟨hs, hsource, hp, hprovider⟩
  · intro h
    exact ⟨h.sources, h.source, h.providers, h.provider⟩

/-- What the form takes the server takes. -/
theorem complete_of_validate (h : form.validate = .ok ()) : Complete form.toConfig := by
  simp only [K8sForm.validate, bind, bind_ok, refuse_ok, forM_ok, List.isEmpty_eq_false_iff] at h
  obtain ⟨hs, hsource, hp, hprovider, -⟩ := h
  refine ⟨hs, ?_, hp, ?_⟩
  · intro s hmem
    have hfilled := hsource s hmem
    simp only [K8sForm.checkSource, bind, bind_ok, refuse_ok, Bool.or_eq_false_iff,
      decide_eq_false_iff_not] at hfilled
    obtain ⟨⟨⟨hname, hrepo⟩, hpath⟩, -⟩ := hfilled
    obtain ⟨row, -, rfl⟩ := List.mem_map.mp hmem
    simpa only [K8sForm.sourceOf, trim_trim] using ⟨hname, hrepo, hpath⟩
  · intro p hmem
    have hkind := hprovider p hmem
    simp only [K8sForm.checkProvider, bind, bind_ok, refuse_ok, decide_eq_false_iff_not] at hkind
    obtain ⟨row, hrow, rfl⟩ := List.mem_map.mp hmem
    have hname : trim row.name ≠ "" := by simpa using (List.mem_filter.mp hrow).2
    simpa only [K8sForm.providerOf, trim_trim] using ⟨hname, hkind.1⟩

theorem save_eq (h : form.validate = .ok ()) :
    form.save debug name = .ok (workspaceFromConfig name form.toConfig) := by
  have hserver : validateK8sConfig debug form.toConfig = .ok () :=
    validateK8sConfig_ok.mpr (complete_of_validate h)
  rw [K8sForm.save, h, setWorkspaceConfig, hserver]
  rfl

/-- A provider of the stored resource has a Secret, and none of that name has one any more. -/
def Lost (stored saved : Workspace) : Prop :=
  ∃ p ∈ stored.spec.providers, p.credentialsRef.isSome = true ∧
    ∀ q ∈ saved.spec.providers, q.name = p.name → q.credentialsRef = none

theorem mem_hadCredentials {stored : Workspace} {n : String} : n ∈ hadCredentials stored ↔
    ∃ p ∈ stored.spec.providers, p.credentialsRef.isSome = true ∧ p.name = n := by
  simp only [hadCredentials, workspaceInfo, List.filter_map, List.map_map, List.mem_map,
    List.mem_filter, Function.comp, shownProvider, and_assoc]

theorem warning_isSome {had : List String} : (form.credentialsWarning had).isSome = true ↔
    ∃ row ∈ form.providers, row.name ∈ had ∧ trim row.secretName = "" := by
  have hrisk : form.atRisk had ≠ [] ↔
      ∃ row ∈ form.providers, row.name ∈ had ∧ trim row.secretName = "" := by
    simp [K8sForm.atRisk]
  rw [← hrisk, K8sForm.credentialsWarning]
  split <;> simp_all

/-- The Secret of a provider that is saved is the one of its row. -/
theorem saved_provider {n : String} (hn : Tidy n) :
    (∀ q ∈ (workspaceFromConfig name form.toConfig).spec.providers, q.name = n →
        q.credentialsRef = none) ↔
      ∀ row ∈ form.providers, trim row.name = n → trim row.secretName = "" := by
  have hsecret : ∀ row : ProviderRow, (storedProvider (K8sForm.providerOf row)).credentialsRef = none ↔
      trim row.secretName = "" := by
    intro row
    simp [storedProvider, K8sForm.providerOf, someTrimmed]
  have hmem : ∀ q, q ∈ (workspaceFromConfig name form.toConfig).spec.providers ↔
      ∃ row ∈ form.providers, trim row.name ≠ "" ∧ storedProvider (K8sForm.providerOf row) = q := by
    intro q
    simp [workspaceFromConfig, K8sForm.toConfig, and_assoc]
  constructor
  · intro h row hrow hname
    have hkept : trim row.name ≠ "" := hname ▸ hn.2
    exact (hsecret row).mp (h _ ((hmem _).mpr ⟨row, hrow, hkept, rfl⟩) hname)
  · intro h q hq hname
    obtain ⟨row, hrow, -, rfl⟩ := (hmem q).mp hq
    exact (hsecret row).mpr (h row hrow hname)

/-- A provider's row under its own name, or one that brings a Secret under it, or the warning
for another. -/
def Kept (config : WorkspaceConfig) (form : K8sForm) : Prop :=
  ∀ p ∈ config.providers, p.credentialsRef.isSome = true →
    (∃ row ∈ form.providers, row.name = p.name) ∨
      (∃ row ∈ form.providers, trim row.name = p.name ∧ trim row.secretName ≠ "") ∨
      ∃ row ∈ form.providers, trim row.secretName = "" ∧
        ∃ q ∈ config.providers, q.credentialsRef.isSome = true ∧ q.name = row.name

theorem warned_iff (name : String) (h : TidyConfig config) :
    (Lost (workspaceFromConfig name config) (workspaceFromConfig name form.toConfig) →
        (form.credentialsWarning (hadCredentials (workspaceFromConfig name config))).isSome = true) ↔
      Kept config form := by
  have hhad : ∀ n, n ∈ hadCredentials (workspaceFromConfig name config) ↔
      ∃ q ∈ config.providers, q.credentialsRef.isSome = true ∧ q.name = n := by
    intro n
    simp [mem_hadCredentials, workspaceFromConfig, storedProvider]
  have hlost : Lost (workspaceFromConfig name config) (workspaceFromConfig name form.toConfig) ↔
      ∃ p ∈ config.providers, p.credentialsRef.isSome = true ∧
        ∀ row ∈ form.providers, trim row.name = p.name → trim row.secretName = "" := by
    constructor
    · intro ⟨q, hq, hcred, hnone⟩
      obtain ⟨p, hp, rfl⟩ := List.mem_map.mp hq
      exact ⟨p, hp, hcred, (saved_provider (h.provider p hp).1).mp hnone⟩
    · intro ⟨p, hp, hcred, hblank⟩
      exact ⟨storedProvider p, List.mem_map.mpr ⟨p, hp, rfl⟩, hcred,
        (saved_provider (h.provider p hp).1).mpr hblank⟩
  rw [hlost, warning_isSome]
  simp only [hhad]
  constructor
  · intro hwarn p hp hcred
    by_cases hblank : ∀ row ∈ form.providers, trim row.name = p.name → trim row.secretName = ""
    · obtain ⟨row, hrow, hother, hsecret⟩ := hwarn ⟨p, hp, hcred, hblank⟩
      exact Or.inr (Or.inr ⟨row, hrow, hsecret, hother⟩)
    · push Not at hblank
      exact Or.inr (Or.inl hblank)
  · intro hkept ⟨p, hp, hcred, hblank⟩
    rcases hkept p hp hcred with ⟨row, hrow, hname⟩ | ⟨row, hrow, hname, hsecret⟩ | hother
    · have htrim : trim row.name = p.name := by rw [hname, (h.provider p hp).1.1]
      exact ⟨row, hrow, ⟨p, hp, hcred, hname.symm⟩, hblank row hrow htrim⟩
    · exact absurd (hblank row hrow hname) hsecret
    · obtain ⟨row, hrow, hsecret, hq⟩ := hother
      exact ⟨row, hrow, hq, hsecret⟩

end Save

theorem config_edit_iff (debug : String → String) (name : String) (config : WorkspaceConfig)
    (htidy : TidyConfig config) :
    (withoutCredentials (workspaceFromConfig name
          (openForm (workspaceFromConfig name config)).toConfig) =
        withoutCredentials (workspaceFromConfig name config) ↔
      config.localConfig.env = [] ∧ config.isolation = none ∧
        (∀ d, config.defaultProvider = some d → ∃ p ∈ config.providers, p.name = d) ∧
        (config.displayName.isSome = true ∨ trim name = name ∨ trim name = "")) ∧
      ∀ form : K8sForm,
        (∀ saved, form.save debug name = .ok saved → Lost (workspaceFromConfig name config) saved →
          (form.credentialsWarning (hadCredentials (workspaceFromConfig name config))).isSome =
            true) ↔
        (form.validate = .ok () → Kept config form) := by
  refine ⟨untouched_iff htidy, fun form => ?_⟩
  rw [← warned_iff name htidy]
  constructor
  · intro hwarn hvalid
    exact hwarn _ (save_eq hvalid)
  · intro hwarn saved hsave
    have hvalid : form.validate = .ok () := (bind_ok.mp hsave).1
    rw [save_eq hvalid] at hsave
    cases hsave
    exact hwarn hvalid

section Sample

/-- Everything is set. -/
def teamConfig : WorkspaceConfig where
  displayName := some "Team A"
  sources := [⟨"caliban", "git@host:caliban.git", none, "/work/caliban"⟩]
  providers := [⟨"planner", "anthropic", none, some "claude", some ⟨"llm-keys", "anthropic"⟩⟩]
  defaultProvider := some "planner"
  isolation := some ⟨some "gvisor", none⟩
  localConfig := ⟨none, none, none, [("FOO", "bar")]⟩

/-- Nothing but what the editor shows. -/
def plainConfig : WorkspaceConfig :=
  { teamConfig with isolation := none, localConfig := RepoProviderConfig.default }

theorem tidy_of_shown {config : WorkspaceConfig} (hname : config.displayName = some "Team A")
    (hsources : config.sources = teamConfig.sources)
    (hproviders : config.providers = teamConfig.providers)
    (hdefault : config.defaultProvider = some "planner") : TidyConfig config where
  displayName := by simp [hname, Tidy]; decide
  source := by simp [hsources, teamConfig, Tidy]; decide
  ref := by simp [hsources, teamConfig]
  provider := by simp [hproviders, teamConfig, Tidy]; decide
  baseUrl := by simp [hproviders, teamConfig]
  model := by simp [hproviders, teamConfig, Tidy]; decide
  defaultProvider := by simp [hdefault, Tidy]; decide

theorem config_edit_iff_plain :
    withoutCredentials (workspaceFromConfig "team"
        (openForm (workspaceFromConfig "team" plainConfig)).toConfig) =
      withoutCredentials (workspaceFromConfig "team" plainConfig) :=
  (config_edit_iff id "team" plainConfig (tidy_of_shown rfl rfl rfl rfl)).1.mpr
    ⟨rfl, rfl, by simp [plainConfig, teamConfig], Or.inl rfl⟩

/-- A blank has slipped in behind the provider's name. -/
def respelled : K8sForm :=
  { openForm (workspaceFromConfig "team" teamConfig) with
    providers := [⟨"planner ", "anthropic", "", "claude", "", ""⟩] }

/-- Saved untouched, the environment and the isolation are gone; respelled, the Secret is,
without a word. -/
theorem edit_erases_config :
    TidyConfig teamConfig ∧ validateK8sConfig id teamConfig = .ok () ∧
      (openForm (workspaceFromConfig "team" teamConfig)).validate = .ok () ∧
      ¬ withoutCredentials (workspaceFromConfig "team"
          (openForm (workspaceFromConfig "team" teamConfig)).toConfig) =
        withoutCredentials (workspaceFromConfig "team" teamConfig) ∧
      respelled.save id "team" = .ok (workspaceFromConfig "team" respelled.toConfig) ∧
      Lost (workspaceFromConfig "team" teamConfig)
        (workspaceFromConfig "team" respelled.toConfig) ∧
      respelled.credentialsWarning (hadCredentials (workspaceFromConfig "team" teamConfig)) =
        none := by
  refine ⟨tidy_of_shown rfl rfl rfl rfl, rfl, rfl, by decide, rfl, ?_, rfl⟩
  refine ⟨_, List.mem_singleton_self _, rfl, ?_⟩
  intro q hq _
  rw [List.mem_singleton.mp hq]
  rfl

end Sample

end Prospero.Proofs.ConfigForm
