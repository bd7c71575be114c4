import Mathlib.Data.Bool.AllAny
import Prospero.Routing

namespace Prospero.Proofs.Routing
open Prospero.Routing
open Prospero.Auth (Method Route)
open PathPattern (Piece)

section Segment

theorem unreserved_plain : Percent.Plain unreserved := by
  intro b hb
  simp only [unreserved, Bool.or_eq_true, Bool.and_eq_true, decide_eq_true_eq,
    UInt8.le_iff_toNat_le] at hb
  constructor
  · rcases hb with (((((hb | hb) | hb) | rfl) | rfl) | rfl) | rfl
    · exact Nat.lt_of_le_of_lt hb.2 (by decide)
    · exact Nat.lt_of_le_of_lt hb.2 (by decide)
    · exact Nat.lt_of_le_of_lt hb.2 (by decide)
    all_goals decide
  · rintro rfl
    revert hb
    decide

/-- A segment's text is what an encoded one is decoded to. -/
theorem decode_encodeSegment (s : String) :
    Lines.decode (Percent.decode (encodeSegment s).toList) = some s := by
  rw [encodeSegment, String.toList_ofList, Percent.decode_encode unreserved_plain]
  exact Lines.decode_eq_some.mpr rfl

theorem asIs_of_unreserved {b : UInt8} (h : unreserved b = true) :
    asIs (Char.ofNat b.toNat) = true := by
  have hall : ∀ n < 128, unreserved (UInt8.ofNat n) = true → asIs (Char.ofNat n) = true := by decide
  apply hall b.toNat (unreserved_plain b h).1
  rw [UInt8.ofNat_toNat]
  exact h

theorem asIs_encodeSegment (s : String) : ∀ x ∈ (encodeSegment s).toList, asIs x = true := by
  have hdigit : ∀ n < 16, asIs (Percent.hexDigit n) = true := by decide
  intro x hx
  rw [encodeSegment, String.toList_ofList] at hx
  rcases Percent.mem_encode hx with ⟨b, -, hkeep, rfl⟩ | rfl | ⟨n, hn, rfl⟩
  · exact asIs_of_unreserved hkeep
  · decide
  · exact hdigit n hn

end Segment

section Path

end Path

/-- The calls that name an agent or a workspace. -/
inductive Op
  | killAgent
  | removeAgent
  | respawnAgent
  | sendInput
  | endInput
  | spawnAgent
  | setWorkspaceConfig
  | removeWorkspace

namespace Op

def call : Op → String → Call
  | killAgent => Routing.killAgent
  | removeAgent => Routing.removeAgent
  | respawnAgent => Routing.respawnAgent
  | sendInput => Routing.sendInput
  | endInput => Routing.endInput
  | spawnAgent => Routing.spawnAgent
  | setWorkspaceConfig => Routing.setWorkspaceConfig
  | removeWorkspace => Routing.removeWorkspace

def route : Op → Route
  | killAgent => .agentKill
  | removeAgent => .agent
  | respawnAgent => .agentRespawn
  | sendInput => .agentInput
  | endInput => .agentEndInput
  | spawnAgent => .workspaceAgents
  | setWorkspaceConfig => .workspaceConfig
  | removeWorkspace => .workspace

def method : Op → Method
  | removeAgent | removeWorkspace => .delete
  | setWorkspaceConfig => .put
  | _ => .post

/-- What stands around the name in a call's path. -/
def around (op : Op) (name : List Char) : List (List Char) :=
  let (kind, tail) : String × List String := match op with
    | killAgent => ("agents", ["kill"])
    | removeAgent => ("agents", [])
    | respawnAgent => ("agents", ["respawn"])
    | sendInput => ("agents", ["input"])
    | endInput => ("agents", ["end-input"])
    | spawnAgent => ("workspaces", ["agents"])
    | setWorkspaceConfig => ("workspaces", ["config"])
    | removeWorkspace => ("workspaces", [])
  "api".toList :: kind.toList :: name :: tail.map String.toList

variable (op : Op)

/-- The router's entry for a call. -/
def entry : Op → Entry
  | killAgent => ⟨.agentKill, agents [.param, .fixed "kill"], some [.post]⟩
  | removeAgent => ⟨.agent, agents [.param], got [.delete]⟩
  | respawnAgent => ⟨.agentRespawn, agents [.param, .fixed "respawn"], some [.post]⟩
  | sendInput => ⟨.agentInput, agents [.param, .fixed "input"], some [.post]⟩
  | endInput => ⟨.agentEndInput, agents [.param, .fixed "end-input"], some [.post]⟩
  | spawnAgent => ⟨.workspaceAgents, workspaces [.param, .fixed "agents"], got [.post]⟩
  | setWorkspaceConfig => ⟨.workspaceConfig, workspaces [.param, .fixed "config"], some [.put]⟩
  | removeWorkspace => ⟨.workspace, workspaces [.param], some [.delete]⟩

end Op

section Served

variable {c : Crates} (op : Op)

end Served

end Prospero.Proofs.Routing
