import Mathlib.Data.String.Basic
import Prospero.Leases
import Prospero.Lib.Table

namespace Prospero.Workspaces

structure RepoProviderConfig where
  provider : Option String
  baseUrl : Option String
  apiKeyFromEnv : Option String
  env : List (String × String)
deriving DecidableEq

def RepoProviderConfig.default : RepoProviderConfig := ⟨none, none, none, []⟩

structure RegisteredWorkspace where
  name : String
  root : String
  config : RepoProviderConfig
deriving DecidableEq

inductive CoreError
  | conflict (message : String)
  | providerMisconfigured (message : String)
  | workspaceNotFound (name : String)
  | discovery (message : String)
  | store (message : String)
deriving DecidableEq

/-- `(base_url_var, api_key_var)` of a provider. -/
def providerVars : String → Option String × Option String
  | "anthropic" => (some "ANTHROPIC_BASE_URL", some "ANTHROPIC_API_KEY")
  | "openai" => (some "OPENAI_BASE_URL", some "OPENAI_API_KEY")
  | "google" => (some "GEMINI_BASE_URL", some "GEMINI_API_KEY")
  | _ => (none, none)

def validateProviderConfig (cfg : RepoProviderConfig) : Except String Unit :=
  match cfg.provider with
  | none => .ok ()
  | some provider =>
    if cfg.apiKeyFromEnv.isSome ∧ (providerVars provider).2.isNone then
      .error (s!"provider '{provider}' has no api-key env var, so api_key_from_env " ++
        "would be ignored; remove api_key_from_env for this provider (it is " ++
        "only meaningful for anthropic/openai/google)")
    else .ok ()

structure Registry where
  workspaces : List RegisteredWorkspace
deriving DecidableEq

namespace Registry

def get (reg : Registry) (name : String) : Option RegisteredWorkspace :=
  Table.get RegisteredWorkspace.name name reg.workspaces

/-- Idempotent only where the entry has the same root; no root goes by two names. -/
def add (reg : Registry) (name root : String) : Except CoreError Registry :=
  match reg.get name with
  | some existing =>
    if existing.root = root then .ok reg
    else .error (.conflict s!"workspace name '{name}' already registered with a different root")
  | none =>
    match reg.workspaces.find? fun r => r.root = root with
    | some other =>
      .error (.conflict s!"root {root} is already registered as workspace '{other.name}'")
    | none => .ok ⟨reg.workspaces ++ [⟨name, root, .default⟩]⟩

/-- Absent where the source returns `false`, having removed nothing. -/
def remove (reg : Registry) (name : String) : Option Registry :=
  match reg.get name with
  | none => none
  | some _ => some ⟨Table.delete RegisteredWorkspace.name name reg.workspaces⟩

/-- Absent where the source returns `false`. -/
def setConfig (reg : Registry) (name : String) (config : RepoProviderConfig) : Option Registry :=
  match reg.get name with
  | none => none
  | some _ =>
    some ⟨Table.modify RegisteredWorkspace.name name (fun r => { r with config := config })
      reg.workspaces⟩

end Registry

/-- An entry of the fleet snapshot. -/
structure Workspace where
  name : String
  root : String
  config : RepoProviderConfig
deriving DecidableEq

def RegisteredWorkspace.toWorkspace (r : RegisteredWorkspace) : Workspace :=
  ⟨r.name, r.root, r.config⟩

/-- A control client: of the caliband of one root, or of the network's one. -/
structure Client where
  root : Option String
deriving DecidableEq

/-- What a `FleetManager` has in memory. `networkClient` is what its configuration
makes of a caliband on the network: whether there is one, or the error in it. -/
structure Manager where
  registry : Registry
  workspaces : List Workspace
  clients : String → Option Client
  networkClient : Except CoreError Bool

namespace Manager

/-- `FleetManager::with_seams`. -/
def start (networkClient : Except CoreError Bool) (durable : List RegisteredWorkspace) :
    Manager where
  registry := ⟨durable⟩
  workspaces := durable.map RegisteredWorkspace.toWorkspace
  clients := fun _ => none
  networkClient := networkClient

/-- What `snapshot` serves: each entry under the configuration of the registry. -/
def snapshot (m : Manager) : List Workspace :=
  m.workspaces.map fun w =>
    match m.registry.get w.name with
    | some r => { w with config := r.config }
    | none => w

/-- `add_workspace_with_config` under the registry lock, with the record that it
goes on to store. -/
def addWorkspaceWithConfig (m : Manager) (name root : String) (config : RepoProviderConfig) :
    Except CoreError (Manager × RegisteredWorkspace) :=
  match validateProviderConfig config with
  | .error e => .error (.providerMisconfigured e)
  | .ok () =>
    match m.registry.add name root with
    | .error e => .error e
    | .ok reg =>
      let reg := (reg.setConfig name config).getD reg
      -- The entry is there ("repo just inserted must exist"): see `addWorkspace_record`.
      .ok ({ m with registry := reg }, (reg.get name).getD ⟨name, root, config⟩)

/-- Its entry in the snapshot, once it is stored. -/
def push (m : Manager) (r : RegisteredWorkspace) : Manager :=
  if m.workspaces.any fun w => w.name = r.name then m
  else { m with workspaces := m.workspaces ++ [r.toWorkspace] }

/-- `remove_repo` under the registry lock. -/
def removeRepo (m : Manager) (name : String) : Option Manager :=
  (m.registry.remove name).map fun reg => { m with registry := reg }

def prune (m : Manager) (name : String) : Manager :=
  { m with workspaces := Table.delete Workspace.name name m.workspaces }

def dropClient (m : Manager) (name : String) : Manager :=
  { m with clients := Function.update m.clients name none }

def insertClient (m : Manager) (name : String) (client : Client) : Manager :=
  { m with clients := Function.update m.clients name (some client) }

/-- `set_repo_config_registry_only`, with the record that it stores before it
lets go of the registry lock. -/
def setRepoConfig (m : Manager) (name : String) (config : RepoProviderConfig) :
    Except CoreError (Manager × RegisteredWorkspace) :=
  match validateProviderConfig config with
  | .error e => .error (.providerMisconfigured e)
  | .ok () =>
    match m.registry.setConfig name config with
    | none => .error (.workspaceNotFound name)
    | some reg =>
      match reg.get name with
      | none => .error (.workspaceNotFound name)
      | some record => .ok ({ m with registry := reg }, record)

/-- `refresh_registry_from_store` after its lock: entries of names that are not
durable go, and durable names without one get theirs. -/
def reconcile (m : Manager) (durable : List RegisteredWorkspace) : Manager :=
  durable.foldl push { m with
    workspaces := m.workspaces.filter fun w => durable.any fun d => d.name = w.name }

end Manager

/-- What a call has still to do. Each constructor is a section of its own: between
two of them the registry lock is free, or the store is waited for. -/
inductive Phase
  | storing (record : RegisteredWorkspace)
  | pushing (record : RegisteredWorkspace)
  | deleting (name : String)
  | pruning (name : String)
  | forgetting (name : String)
  | reconciling (durable : List RegisteredWorkspace)
  | connecting (name root : String)
deriving DecidableEq

structure Call where
  replica : ReplicaId
  phase : Phase
deriving DecidableEq

/-- An operation whose write went through. -/
inductive Change
  | added (record : RegisteredWorkspace)
  | removed (name : String)
  | configured (name : String) (config : RepoProviderConfig)
deriving DecidableEq

/-- The managers of all replicas over the one `repos` table. `changes` are the
acknowledged operations in the order of their writes, and `behind` tells that
another replica has written since this one last read the table. `returned` has
`true` where a call returns `()`. -/
structure World where
  repos : List RegisteredWorkspace
  managers : ReplicaId → Manager
  calls : Nat → Option Call
  returned : Nat → Option (Except CoreError Bool)
  changes : List Change
  behind : ReplicaId → Bool

/-- `canonical` is what the file system makes of the root; `failure` is the text
of a statement's error. The poll that ends an `add` is a `clientFor` of its own.
`dropClient` follows a failed list of agents, or a caliband's restart; `restart`
is the replica's. -/
inductive Action
  | add (id : Nat) (me : ReplicaId) (name root : String) (canonical : Option String)
      (config : RepoProviderConfig)
  | upsert (id : Nat) (failure : Option String)
  | push (id : Nat)
  | remove (id : Nat) (me : ReplicaId) (name : String)
  | delete (id : Nat) (failure : Option String)
  | prune (id : Nat)
  | forget (id : Nat)
  | setConfig (id : Nat) (me : ReplicaId) (name : String) (config : RepoProviderConfig)
      (failure : Option String)
  | refresh (id : Nat) (me : ReplicaId) (failure : Option String)
  | reconcile (id : Nat)
  | clientFor (id : Nat) (me : ReplicaId) (name : String)
  | connected (id : Nat) (failure : Option String)
  | dropClient (me : ReplicaId) (name : String)
  | restart (me : ReplicaId)

namespace World

def start (networkClient : ReplicaId → Except CoreError Bool) : World where
  repos := []
  managers := fun me => .start (networkClient me) []
  calls := fun _ => none
  returned := fun _ => none
  changes := []
  behind := fun _ => false

def setManager (w : World) (me : ReplicaId) (m : Manager) : World :=
  { w with managers := Function.update w.managers me m }

def setPhase (w : World) (id : Nat) (me : ReplicaId) (phase : Phase) : World :=
  { w with calls := Function.update w.calls id (some ⟨me, phase⟩) }

def finish (w : World) (id : Nat) (result : Except CoreError Bool) : World :=
  { w with
    calls := Function.update w.calls id none
    returned := Function.update w.returned id (some result) }

/-- A write of one replica leaves the others behind. -/
def write (w : World) (me : ReplicaId) (repos : List RegisteredWorkspace) (change : Change) :
    World :=
  { w with
    repos := repos
    changes := w.changes ++ [change]
    behind := fun r => if r = me then w.behind r else true }

def upsertRepo (w : World) (me : ReplicaId) (record : RegisteredWorkspace) (change : Change) :
    World :=
  w.write me (Table.upsert RegisteredWorkspace.name record w.repos) change

def deleteRepo (w : World) (me : ReplicaId) (name : String) : World :=
  w.write me (Table.delete RegisteredWorkspace.name name w.repos) (.removed name)

/-- The process dies and comes back: its calls are gone, and its memory is what
the table holds. -/
def restart (w : World) (me : ReplicaId) : World where
  repos := w.repos
  managers := Function.update w.managers me (.start (w.managers me).networkClient w.repos)
  calls := fun id => (w.calls id).filter fun c => c.replica ≠ me
  returned := w.returned
  changes := w.changes
  behind := Function.update w.behind me false

end World

def upsertError (message : String) : CoreError := .store ("upsert_repo: " ++ message)

def deleteError (message : String) : CoreError := .store ("delete_repo: " ++ message)

open World in
/-- One section of one call. A call that starts has a number of its own. -/
def step (w : World) : Action → Option World
  | .add id me name root canonical config =>
    if (w.calls id).isSome then none
    else
      match (w.managers me).addWorkspaceWithConfig name (canonical.getD root) config with
      | .error e => some (w.finish id (.error e))
      | .ok (m, record) => some ((w.setManager me m).setPhase id me (.storing record))
  | .upsert id failure =>
    match w.calls id with
    | some ⟨me, .storing record⟩ =>
      match failure with
      | some message => some (w.finish id (.error (upsertError message)))
      | none => some ((w.upsertRepo me record (.added record)).setPhase id me (.pushing record))
    | _ => none
  | .push id =>
    match w.calls id with
    | some ⟨me, .pushing record⟩ =>
      some ((w.setManager me ((w.managers me).push record)).finish id (.ok true))
    | _ => none
  | .remove id me name =>
    if (w.calls id).isSome then none
    else
      match (w.managers me).removeRepo name with
      | none => some (w.finish id (.ok false))
      | some m => some ((w.setManager me m).setPhase id me (.deleting name))
  | .delete id failure =>
    match w.calls id with
    | some ⟨me, .deleting name⟩ =>
      match failure with
      | some message => some (w.finish id (.error (deleteError message)))
      | none => some ((w.deleteRepo me name).setPhase id me (.pruning name))
    | _ => none
  | .prune id =>
    match w.calls id with
    | some ⟨me, .pruning name⟩ =>
      some ((w.setManager me ((w.managers me).prune name)).setPhase id me (.forgetting name))
    | _ => none
  | .forget id =>
    match w.calls id with
    | some ⟨me, .forgetting name⟩ =>
      some ((w.setManager me ((w.managers me).dropClient name)).finish id (.ok true))
    | _ => none
  | .setConfig id me name config failure =>
    if (w.calls id).isSome then none
    else
      match (w.managers me).setRepoConfig name config with
      | .error e => some (w.finish id (.error e))
      | .ok (m, record) =>
        match failure with
        | some message => some ((w.setManager me m).finish id (.error (upsertError message)))
        | none =>
          some (((w.setManager me m).upsertRepo me record (.configured name config)).finish id
            (.ok true))
  | .refresh id me failure =>
    if (w.calls id).isSome then none
    else
      match failure with
      | some _ => some (w.finish id (.ok true))
      | none =>
        let m := { w.managers me with registry := ⟨w.repos⟩ }
        some { (w.setManager me m).setPhase id me (.reconciling w.repos) with
          behind := Function.update w.behind me false }
  | .reconcile id =>
    match w.calls id with
    | some ⟨me, .reconciling durable⟩ =>
      some ((w.setManager me ((w.managers me).reconcile durable)).finish id (.ok true))
    | _ => none
  | .clientFor id me name =>
    if (w.calls id).isSome then none
    else
      match (w.managers me).clients name with
      | some _ => some (w.finish id (.ok true))
      | none =>
        match (w.managers me).networkClient with
        | .error e => some (w.finish id (.error e))
        | .ok true =>
          some ((w.setManager me ((w.managers me).insertClient name ⟨none⟩)).finish id (.ok true))
        | .ok false =>
          match (w.managers me).registry.get name with
          | none => some (w.finish id (.error (.workspaceNotFound name)))
          | some r => some (w.setPhase id me (.connecting name r.root))
  | .connected id failure =>
    match w.calls id with
    | some ⟨me, .connecting name root⟩ =>
      match failure with
      | some message => some (w.finish id (.error (.discovery message)))
      | none =>
        some ((w.setManager me ((w.managers me).insertClient name ⟨some root⟩)).finish id
          (.ok true))
    | _ => none
  | .dropClient me name => some (w.setManager me ((w.managers me).dropClient name))
  | .restart me => some (w.restart me)

end Prospero.Workspaces
