import Prospero.Event

namespace Prospero.PollLoop

structure Agent where
  id : String
  workspace : String
  status : AgentStatus
deriving DecidableEq

structure Workspace where
  name : String
  agents : List Agent

structure FleetSnapshot where
  host : String
  workspaces : List Workspace

/-- The sum of the agents' digests. What `DefaultHasher` makes of an agent's id, workspace and
status is a parameter. -/
def activityKey (digest : Agent → UInt64) (snap : FleetSnapshot) : UInt64 :=
  snap.workspaces.foldl (fun key ws => ws.agents.foldl (fun key agent => key + digest agent) key) 0

/-- What the app currently knows about the fleet. -/
inductive Load
  | loading
  | ready (snapshot : FleetSnapshot) (error : Option String)
  | failed (message : String)

inductive SessionState
  | checking
  | signedOut (notice : Option String)
  | signedIn
deriving DecidableEq

def signedOut : String := "signed out"

/-- `POLL_INTERVAL` in steps of `wait_for_tick`. -/
def steps : Nat := 30000 / 150

/-- `USAGE_HEARTBEAT`, in milliseconds. -/
def usageHeartbeat : Int := 60000

/-- Which answer or timer the loop awaits; a wait knows where the counter stood when it
began, and how many steps are left. -/
inductive Phase
  | top
  | capabilities
  | fleet
  | workspaces
  | waiting (start left : Nat)

/-- The loop's variables and the signals it shares with the other parts of the app. History
variables are the answers to `fetch_fleet`, the heartbeats, and the oldest bump of the counter
that no fetch has begun since: whether the loop was waiting then, and the steps it has waited
since. -/
structure World where
  session : SessionState
  load : Load
  refresh : Nat
  activity : Nat
  capsLoaded : Bool
  lastKey : Option UInt64
  lastUsageMs : Int
  phase : Phase
  answers : List (Except String FleetSnapshot)
  beats : Nat
  due : Option (Bool × Nat)

/-- `bump` is an event of the fleet stream or the refresh that a control asks for; `session`
the sign-in form, or another call that was answered with 401; `retry` the button of the
screen that shows a failed first fetch. -/
inductive Action
  | turn
  | capabilities (ok : Bool)
  | fleet (answer : Except String FleetSnapshot)
  | workspaces (nowMs : Int)
  | step
  | bump
  | session (s : SessionState)
  | retry

namespace World

/-- The loop takes an answer to `fetch_fleet`. -/
def answered (digest : Agent → UInt64) (w : World) (answer : Except String FleetSnapshot) :
    World :=
  match answer with
  | .ok snapshot =>
    { w with
      answers := w.answers ++ [answer]
      lastKey := some (activityKey digest snapshot)
      activity := if w.lastKey = some (activityKey digest snapshot) then w.activity
        else w.activity + 1
      load := .ready snapshot none
      phase := .workspaces }
  | .error e =>
    if e = signedOut then
      { w with
        answers := w.answers ++ [answer]
        session := .signedOut (some "Your session ended — sign in again.")
        load := .loading
        phase := .top }
    else
      { w with
        answers := w.answers ++ [answer]
        load := match w.load with
          | .ready snapshot _ => .ready snapshot (some e)
          | _ => .failed e
        phase := .workspaces }

/-- The end of a pass; the wait reads the counter as it is then. -/
def finish (w : World) (nowMs : Int) : World :=
  { w with
    phase := .waiting w.refresh steps
    lastUsageMs := if usageHeartbeat ≤ nowMs - w.lastUsageMs then nowMs else w.lastUsageMs
    activity := if usageHeartbeat ≤ nowMs - w.lastUsageMs then w.activity + 1 else w.activity
    beats := if usageHeartbeat ≤ nowMs - w.lastUsageMs then w.beats + 1 else w.beats }

def slept (w : World) (start left : Nat) : World :=
  { w with
    phase := if w.refresh ≠ start ∨ left ≤ 1 then .top else .waiting start (left - 1)
    due := w.due.map fun (heard, n) => (heard, n + 1) }

def isWaiting (w : World) : Bool :=
  match w.phase with
  | .waiting _ _ => true
  | _ => false

def step (digest : Agent → UInt64) (w : World) : Action → Option World
  | .turn =>
    match w.phase with
    | .top =>
      if w.session ≠ .signedIn then some w
      else if w.capsLoaded then some { w with phase := .fleet, due := none }
      else some { w with phase := .capabilities }
    | _ => none
  | .capabilities ok =>
    match w.phase with
    | .capabilities => some { w with capsLoaded := ok, phase := .fleet, due := none }
    | _ => none
  | .fleet answer =>
    match w.phase with
    | .fleet => some (w.answered digest answer)
    | _ => none
  | .workspaces nowMs =>
    match w.phase with
    | .workspaces => some (w.finish nowMs)
    | _ => none
  | .step =>
    match w.phase with
    | .waiting start left => some (w.slept start left)
    | _ => none
  | .bump =>
    some { w with refresh := w.refresh + 1, due := some (w.due.getD (w.isWaiting, 0)) }
  | .session s => some { w with session := s }
  | .retry =>
    match w.load with
    | .failed _ => some { w with load := .loading }
    | _ => none

def start : World :=
  { session := .checking, load := .loading, refresh := 0, activity := 0, capsLoaded := false
    lastKey := none, lastUsageMs := 0, phase := .top, answers := [], beats := 0, due := none }

end World

end Prospero.PollLoop
