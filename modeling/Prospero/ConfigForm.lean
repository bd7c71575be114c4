import Prospero.Automation
import Prospero.Workspaces

namespace Prospero.ConfigForm
open Workspaces (RepoProviderConfig)

section Model

/-- A key of an existing Secret, by name; the CRD mirrors it. -/
structure CredentialsRef where
  secretName : String
  key : String
deriving DecidableEq

structure WorkspaceSourceSpec where
  name : String
  repo : String
  ref : Option String
  path : String
deriving DecidableEq

structure ProviderSpec where
  name : String
  kind : String
  baseUrl : Option String
  model : Option String
  credentialsRef : Option CredentialsRef
deriving DecidableEq

structure IsolationConfig where
  runtimeClass : Option String
  worktrees : Option String
deriving DecidableEq

structure WorkspaceConfig where
  displayName : Option String
  sources : List WorkspaceSourceSpec
  providers : List ProviderSpec
  defaultProvider : Option String
  isolation : Option IsolationConfig
  localConfig : RepoProviderConfig
deriving DecidableEq

/-- A provider as it is read back, without its Secret. -/
structure ProviderInfo where
  name : String
  kind : String
  baseUrl : Option String
  model : Option String
  hasCredentials : Bool
deriving DecidableEq

structure WorkspaceStatusInfo where
  phase : String
  message : Option String
deriving DecidableEq

structure WorkspaceInfo where
  name : String
  displayName : Option String
  sources : List WorkspaceSourceSpec
  providers : List ProviderInfo
  defaultProvider : Option String
  status : Option WorkspaceStatusInfo
deriving DecidableEq

end Model

section Crd

structure Source where
  name : String
  repo : String
  ref : String
  path : String
deriving DecidableEq

structure Provider where
  name : String
  kind : String
  baseUrl : Option String
  model : Option String
  credentialsRef : Option CredentialsRef
deriving DecidableEq

structure EnvEntry where
  name : String
  value : String
deriving DecidableEq

structure IsolationSpec where
  runtimeClass : Option String
  worktrees : Option String
deriving DecidableEq

structure WorkspaceSpec where
  displayName : String
  sources : List Source
  providers : List Provider
  defaultProvider : Option String
  env : List EnvEntry
  isolation : Option IsolationSpec
deriving DecidableEq

structure WorkspaceStatus where
  phase : String
  message : Option String
deriving DecidableEq

/-- The custom resource, under its `metadata.name`. -/
structure Workspace where
  name : Option String
  spec : WorkspaceSpec
  status : Option WorkspaceStatus
deriving DecidableEq

end Crd

section Api

section Validate

def refuse (condition : Bool) (message : String) : Except String Unit :=
  if condition then .error message else .ok ()

variable (debug : String → String)

def checkSource (s : WorkspaceSourceSpec) : Except String Unit :=
  refuse ((Automations.trim s.name.toList).isEmpty || (Automations.trim s.repo.toList).isEmpty ||
    (Automations.trim s.path.toList).isEmpty)
    ("source " ++ debug s.name ++ " needs a name, repo, and path")

def checkProvider (p : ProviderSpec) : Except String Unit :=
  refuse ((Automations.trim p.name.toList).isEmpty || (Automations.trim p.kind.toList).isEmpty)
    ("provider " ++ debug p.name ++ " needs a name and kind")

/-- What the apiserver would refuse with a 422. -/
def validateK8sConfig (config : WorkspaceConfig) : Except String Unit := do
  refuse config.sources.isEmpty "workspace requires at least one source"
  config.sources.forM (checkSource debug)
  refuse config.providers.isEmpty "workspace requires at least one provider"
  config.providers.forM (checkProvider debug)

end Validate

def storedSource (s : WorkspaceSourceSpec) : Source where
  name := s.name
  repo := s.repo
  ref := s.ref.getD "main"
  path := s.path

def storedProvider (p : ProviderSpec) : Provider where
  name := p.name
  kind := p.kind
  baseUrl := p.baseUrl
  model := p.model
  credentialsRef := p.credentialsRef

def workspaceFromConfig (name : String) (config : WorkspaceConfig) : Workspace where
  name := some name
  spec := {
    displayName := config.displayName.getD name
    sources := config.sources.map storedSource
    providers := config.providers.map storedProvider
    defaultProvider := config.defaultProvider
    env := config.localConfig.env.map fun (name, value) => ⟨name, value⟩
    isolation := config.isolation.map fun i => ⟨i.runtimeClass, i.worktrees⟩ }
  status := none

def shownSource (s : Source) : WorkspaceSourceSpec where
  name := s.name
  repo := s.repo
  ref := some s.ref
  path := s.path

def shownProvider (p : Provider) : ProviderInfo where
  name := p.name
  kind := p.kind
  baseUrl := p.baseUrl
  model := p.model
  hasCredentials := p.credentialsRef.isSome

def workspaceInfo (ws : Workspace) : WorkspaceInfo where
  name := ws.name.getD ""
  displayName := if ws.spec.displayName = "" then none else some ws.spec.displayName
  sources := ws.spec.sources.map shownSource
  providers := ws.spec.providers.map shownProvider
  defaultProvider := ws.spec.defaultProvider
  status := ws.status.map fun s => ⟨s.phase, s.message⟩

/-- What `set_workspace_config` applies. -/
def setWorkspaceConfig (debug : String → String) (name : String) (config : WorkspaceConfig) :
    Except String Workspace := do
  validateK8sConfig debug config
  return workspaceFromConfig name config

end Api

section Form

/-- `str::trim` -/
def trim (s : String) : String := String.ofList (Automations.trim s.toList)

/-- What is blank counts as absent. -/
def someTrimmed (s : String) : Option String :=
  if trim s = "" then none else some (trim s)

/-- Rows with a blank key are dropped; of two with one key the later is kept. -/
def envMap (rows : List (String × String)) : List (String × String) :=
  (rows.filterMap fun (k, v) => if trim k = "" then none else some (trim k, trim v)).foldl
    (fun env row => Table.upsert Prod.fst row env) []

/-- `PROVIDER_KINDS`, as the pickers offer them. -/
def providerKinds : List String := ["anthropic", "openai", "google", "bedrock", "vertex"]

/-- The local backend's form. `apiKeyFromEnv` names a variable, never the key. -/
structure LocalForm where
  provider : String
  baseUrl : String
  apiKeyFromEnv : String
  env : List (String × String)
deriving DecidableEq

namespace LocalForm

def fromConfig (cfg : RepoProviderConfig) : LocalForm where
  provider := cfg.provider.getD ""
  baseUrl := cfg.baseUrl.getD ""
  apiKeyFromEnv := cfg.apiKeyFromEnv.getD ""
  env := cfg.env

def toConfig (form : LocalForm) : WorkspaceConfig where
  displayName := none
  sources := []
  providers := []
  defaultProvider := none
  isolation := none
  localConfig := {
    provider := someTrimmed form.provider
    baseUrl := someTrimmed form.baseUrl
    apiKeyFromEnv := someTrimmed form.apiKeyFromEnv
    env := envMap form.env }

/-- What goes by the credentials of its cloud. -/
def keyless (provider : String) : Bool := provider = "bedrock" || provider = "vertex"

/-- What the backend would refuse, said before the round trip. -/
def validate (form : LocalForm) : Except String Unit :=
  let provider := trim form.provider
  refuse (trim form.apiKeyFromEnv ≠ "" && keyless provider)
    (provider ++ " takes no API key — clear the env-var field, or pick another provider.")

end LocalForm

structure SourceRow where
  name : String
  repo : String
  ref : String
  path : String
deriving DecidableEq

def SourceRow.isBlank (s : SourceRow) : Bool :=
  trim s.name = "" && trim s.repo = "" && trim s.path = ""

structure ProviderRow where
  name : String
  kind : String
  baseUrl : String
  model : String
  secretName : String
  secretKey : String
deriving DecidableEq

structure K8sForm where
  displayName : String
  sources : List SourceRow
  providers : List ProviderRow
  defaultProvider : Option String
  env : List (String × String)
deriving DecidableEq

namespace K8sForm

def sourceRow (s : WorkspaceSourceSpec) : SourceRow where
  name := s.name
  repo := s.repo
  ref := s.ref.getD ""
  path := s.path

def providerRow (p : ProviderInfo) : ProviderRow where
  name := p.name
  kind := p.kind
  baseUrl := p.baseUrl.getD ""
  model := p.model.getD ""
  secretName := ""
  secretKey := ""

def fromSummary (displayName : Option String) (sources : List WorkspaceSourceSpec)
    (providers : List ProviderInfo) (defaultProvider : Option String) : K8sForm where
  displayName := displayName.getD ""
  sources :=
    if sources = [] then [⟨"", "", "", ""⟩]
    else sources.map sourceRow
  providers :=
    if providers = [] then [⟨"", "anthropic", "", "", "", ""⟩]
    else providers.map providerRow
  defaultProvider := defaultProvider
  env := []

/-- The rows whose Secret was there and has not been entered again. -/
def atRisk (form : K8sForm) (hadCredentials : List String) : List String :=
  (form.providers.filter fun p => p.name ∈ hadCredentials && trim p.secretName = "").map
    ProviderRow.name

def credentialsWarning (form : K8sForm) (hadCredentials : List String) : Option String :=
  match form.atRisk hadCredentials with
  | [] => none
  | names => some ("Credentials are never read back. Re-enter the Secret for " ++
      ", ".intercalate names ++ " or saving will leave " ++
      (if names.length = 1 then "it" else "them") ++ " keyless.")

def sourceOf (s : SourceRow) : WorkspaceSourceSpec where
  name := trim s.name
  repo := trim s.repo
  ref := someTrimmed s.ref
  path := trim s.path

def providerOf (p : ProviderRow) : ProviderSpec where
  name := trim p.name
  kind := trim p.kind
  baseUrl := someTrimmed p.baseUrl
  model := someTrimmed p.model
  credentialsRef := (someTrimmed p.secretName).map fun secretName => ⟨secretName, trim p.secretKey⟩

def toConfig (form : K8sForm) : WorkspaceConfig :=
  let providers := (form.providers.filter fun p => trim p.name ≠ "").map providerOf
  { displayName := someTrimmed form.displayName
    sources := (form.sources.filter fun s => !s.isBlank).map sourceOf
    providers := providers
    -- a default that names no provider any more is let go
    defaultProvider := (form.defaultProvider.bind someTrimmed).filter fun d =>
      providers.any fun p => p.name = d
    isolation := none
    localConfig := { RepoProviderConfig.default with env := envMap form.env } }

/-- The first name that stands among those before it. -/
def repeated (seen : List String) : List String → Option String
  | [] => none
  | name :: names => if name ∈ seen then some name else repeated (seen ++ [name]) names

def checkSource (s : WorkspaceSourceSpec) : Except String Unit := do
  refuse (s.name = "" || s.repo = "" || s.path = "")
    ("Source \"" ++ (if s.name = "" then "(unnamed)" else s.name) ++
      "\" needs a name, a git remote, and a mount path.")
  refuse (!s.path.toList.head?.any (· = '/'))
    ("Source \"" ++ s.name ++ "\" needs an absolute mount path (starting with /).")

def checkProvider (p : ProviderSpec) : Except String Unit := do
  refuse (p.kind = "") ("Provider \"" ++ p.name ++ "\" needs a kind.")
  match p.credentialsRef with
  | some c =>
    refuse (c.key = "") ("Provider \"" ++ p.name ++ "\" names Secret \"" ++ c.secretName ++
      "\" but no key within it.")
  | none => pure ()

def checkRepeated (what : String) (names : List String) : Except String Unit :=
  match repeated [] names with
  | some name => .error ("Two " ++ what ++ " are both named \"" ++ name ++ "\".")
  | none => .ok ()

/-- What the CRD would refuse, said beside the form. -/
def validate (form : K8sForm) : Except String Unit := do
  let cfg := form.toConfig
  refuse cfg.sources.isEmpty "Add at least one source — a name, git remote, and mount path."
  cfg.sources.forM checkSource
  refuse cfg.providers.isEmpty "Add at least one provider — a name and a kind."
  cfg.providers.forM checkProvider
  checkRepeated "providers" (cfg.providers.map ProviderSpec.name)
  checkRepeated "sources" (cfg.sources.map WorkspaceSourceSpec.name)

/-- What a submitted form leaves stored, where neither side refuses it. -/
def save (debug : String → String) (name : String) (form : K8sForm) : Except String Workspace := do
  form.validate
  setWorkspaceConfig debug name form.toConfig

end K8sForm

/-- The form that opens on a stored workspace. -/
def openForm (ws : Workspace) : K8sForm :=
  let info := workspaceInfo ws
  K8sForm.fromSummary info.displayName info.sources info.providers info.defaultProvider

/-- The providers whose Secret the server says is there. -/
def hadCredentials (ws : Workspace) : List String :=
  ((workspaceInfo ws).providers.filter ProviderInfo.hasCredentials).map ProviderInfo.name

end Form

end Prospero.ConfigForm
