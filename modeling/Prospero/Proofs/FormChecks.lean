import Prospero.Proofs.ConfigForm

namespace Prospero.Proofs.FormChecks
open Prospero.ConfigForm Checks
open Prospero.Workspaces (RepoProviderConfig providerVars validateProviderConfig)
open Prospero.Proofs.ConfigForm

section K8s

/-- What the form promises of a configuration, over what the server asks. -/
structure Sound (config : WorkspaceConfig) : Prop where
  sources : (config.sources.map WorkspaceSourceSpec.name).Nodup
  providers : (config.providers.map ProviderSpec.name).Nodup
  absolute : ∀ s ∈ config.sources, s.path.toList.head? = some '/'
  default : ∀ d, config.defaultProvider = some d → d ∈ config.providers.map ProviderSpec.name

theorem repeated_none {seen names : List String} (hseen : seen.Nodup) :
    K8sForm.repeated seen names = none ↔ (seen ++ names).Nodup := by
  induction names generalizing seen with
  | nil => simp [K8sForm.repeated, hseen]
  | cons name names ih =>
    rw [K8sForm.repeated]
    by_cases hmem : name ∈ seen
    · have hnot : ¬ (seen ++ name :: names).Nodup := by
        rw [List.nodup_append]
        rintro ⟨-, -, hdisjoint⟩
        exact hdisjoint name hmem name List.mem_cons_self rfl
      simp [hmem, hnot]
    · have hgrown : (seen ++ [name]).Nodup :=
        hseen.append (List.nodup_singleton name) (by simpa using hmem)
      rw [if_neg hmem, ih hgrown, List.append_assoc, List.singleton_append]

theorem checkRepeated_ok {what : String} {names : List String} :
    K8sForm.checkRepeated what names = .ok () ↔ names.Nodup := by
  rw [← List.nil_append names, ← repeated_none List.nodup_nil, List.nil_append,
    K8sForm.checkRepeated]
  cases K8sForm.repeated [] names with
  | none => simp
  | some name => simp

variable {form : K8sForm}

theorem toConfig_default {d : String} (h : form.toConfig.defaultProvider = some d) :
    d ∈ form.toConfig.providers.map ProviderSpec.name := by
  have hany := (Option.filter_eq_some_iff.mp h).2
  obtain ⟨p, hp, hname⟩ := List.any_eq_true.mp hany
  exact List.mem_map.mpr ⟨p, hp, of_decide_eq_true hname⟩

theorem sound_of_validate (h : form.validate = .ok ()) : Sound form.toConfig := by
  simp only [K8sForm.validate, bind, bind_ok, refuse_ok, forM_ok, checkRepeated_ok] at h
  obtain ⟨-, hsource, -, -, hproviders, hsources⟩ := h
  refine ⟨hsources, hproviders, ?_, fun d => toConfig_default⟩
  intro s hmem
  have hslash := hsource s hmem
  simp only [K8sForm.checkSource, bind, bind_ok, refuse_ok] at hslash
  have hhead := hslash.2
  cases hpath : s.path.toList.head? with
  | none => simp [hpath] at hhead
  | some c =>
    have hc : c = '/' := by simpa [hpath] using hhead
    rw [hc]

end K8s

section Local

variable {cfg : RepoProviderConfig} {form : LocalForm}

/-- A provider of the pickers has a variable for its key, or none is asked for it. -/
theorem providerVars_isNone {provider : String} :
    (providerVars provider).2.isNone = true ↔
      LocalForm.keyless provider = true ∨ provider ∉ providerKinds := by
  unfold providerVars LocalForm.keyless providerKinds
  split <;> simp_all
  tauto

theorem validateProviderConfig_ok : validateProviderConfig cfg = .ok () ↔
    ∀ provider, cfg.provider = some provider → cfg.apiKeyFromEnv.isSome = true →
      LocalForm.keyless provider = false ∧ provider ∈ providerKinds := by
  unfold validateProviderConfig
  cases hprovider : cfg.provider with
  | none => simp
  | some provider =>
    simp only [providerVars_isNone, Option.some.injEq, forall_eq']
    by_cases hkey : cfg.apiKeyFromEnv.isSome = true
    · by_cases hkeyless : LocalForm.keyless provider = true <;> simp [hkey, hkeyless]
    · simp [hkey]

theorem someTrimmed_eq_some {s t : String} : someTrimmed s = some t ↔ trim s ≠ "" ∧ trim s = t := by
  by_cases hblank : trim s = "" <;> simp [someTrimmed, hblank]

theorem someTrimmed_isSome {s : String} : (someTrimmed s).isSome = true ↔ trim s ≠ "" := by
  by_cases hblank : trim s = "" <;> simp [someTrimmed, hblank]

theorem localValidate_ok : form.validate = .ok () ↔
    (trim form.apiKeyFromEnv ≠ "" → LocalForm.keyless (trim form.provider) = false) := by
  rw [LocalForm.validate, refuse_ok]
  simp

/-- The server's check of the form's configuration. -/
theorem toConfig_ok : validateProviderConfig form.toConfig.localConfig = .ok () ↔
    (trim form.provider ≠ "" → trim form.apiKeyFromEnv ≠ "" →
      LocalForm.keyless (trim form.provider) = false ∧ trim form.provider ∈ providerKinds) := by
  rw [validateProviderConfig_ok]
  simp only [LocalForm.toConfig, someTrimmed_eq_some, someTrimmed_isSome]
  constructor
  · intro h hprovider hkey
    exact h _ ⟨hprovider, rfl⟩ hkey
  · rintro h provider ⟨hprovider, rfl⟩ hkey
    exact h hprovider hkey

/-- No key is named, or no provider, or one that the pickers offer. -/
def Offered (form : LocalForm) : Prop :=
  trim form.apiKeyFromEnv = "" ∨ trim form.provider = "" ∨ trim form.provider ∈ providerKinds

theorem local_agrees_iff : (form.validate = .ok () →
      validateProviderConfig form.toConfig.localConfig = .ok ()) ↔ Offered form := by
  rw [localValidate_ok, toConfig_ok, Offered]
  constructor
  · intro h
    by_contra hnone
    push Not at hnone
    obtain ⟨hkey, hprovider, hkind⟩ := hnone
    -- what no picker offers is not known to be keyless either
    have hkeyless : LocalForm.keyless (trim form.provider) = false := by
      rw [Bool.eq_false_iff]
      intro hk
      apply hkind
      rcases Bool.or_eq_true_iff.mp hk with hk | hk
      · rw [of_decide_eq_true hk]
        decide
      · rw [of_decide_eq_true hk]
        decide
    exact hkind (h (fun _ => hkeyless) hprovider hkey).2
  · intro hoffered hvalid hprovider hkey
    rcases hoffered with hblank | hblank | hkind
    · exact absurd hblank hkey
    · exact absurd hblank hprovider
    · exact ⟨hvalid hkey, hkind⟩

end Local

theorem forms_agree_iff (debug : String → String) :
    (∀ form : K8sForm, form.validate = .ok () →
      validateK8sConfig debug form.toConfig = .ok () ∧ Sound form.toConfig) ∧
    ∀ form : LocalForm,
      (form.validate = .ok () → validateProviderConfig form.toConfig.localConfig = .ok ()) ↔
        Offered form := by
  refine ⟨fun form hvalid => ?_, fun form => local_agrees_iff⟩
  exact ⟨validateK8sConfig_ok.mpr (complete_of_validate hvalid), sound_of_validate hvalid⟩

section Sample

/-- Registered without a key, under a provider that the pickers do not have. -/
def azure : RepoProviderConfig := ⟨some "azure", none, none, []⟩

/-- The form that opens on it, once a variable is named for the key. -/
def keyed : LocalForm := { LocalForm.fromConfig azure with apiKeyFromEnv := "AZURE_KEY" }

theorem unknown_provider_passes :
    validateProviderConfig azure = .ok () ∧ keyed.validate = .ok () ∧
      ¬ validateProviderConfig keyed.toConfig.localConfig = .ok () := by
  refine ⟨rfl, rfl, ?_⟩
  rw [toConfig_ok]
  intro h
  exact absurd (h (by decide) (by decide)).2 (by decide)

end Sample

end Prospero.Proofs.FormChecks
