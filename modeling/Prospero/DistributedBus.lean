import Mathlib.Logic.Function.Basic
import Prospero.Store

namespace Prospero.DistributedBus

/-- The doorbell for an event: a pointer to it, `<stream_key>:<seq>`. -/
def payload (e : FleetEvent) : String :=
  e.streamKey ++ ":" ++ toString e.seq

/-- The stream key of a doorbell: what stands before the last colon, since a
key may hold colons of its own. -/
def rsplitOnce (payload : String) : Option StreamKey :=
  match payload.toList.reverse.dropWhile (fun c => c ≠ ':') with
  | [] => none
  | _ :: key => some (String.ofList key.reverse)

/-- A subscription to one stream (`subscribe`) or to all (`drain_doorbell`).
`pending` is what is left of the replay that the doorbell for `key` set off. -/
structure Subscription where
  only : Option StreamKey
  lastSeq : StreamKey → Nat
  key : StreamKey
  pending : List FleetEvent
  listening : Bool

/-- The committed events, the notifications sent so far, and one subscription.
`rung` and `late` are history variables: the events committed when a doorbell
for their stream was processed, and those committed once the subscription had
already read their stream further. -/
structure World where
  log : List FleetEvent
  sent : List String
  sub : Subscription
  yielded : List FleetEvent
  rung : List FleetEvent
  late : List FleetEvent

/-- A doorbell that was sent may arrive at any time, any number of times or
never. `replayOk` is false when the store read it sets off fails. -/
inductive Action
  | commit (e : FleetEvent)
  | publish (e : FleetEvent)
  | doorbell (payload : String) (replayOk : Bool)
  | next
  | recvFailed

def Subscription.heeds (s : Subscription) (key : StreamKey) : Bool :=
  match s.only with
  | some k => key = k
  | none => true

/-- How far the subscription has read a stream, whether yielded yet or not. -/
def Subscription.readUpTo (s : Subscription) (key : StreamKey) : Nat :=
  if s.key = key then s.pending.foldl (fun _ e => e.seq) (s.lastSeq key) else s.lastSeq key

namespace World

/-- The replica that wins the unique index; seqs are allocated from 1. -/
def commit (w : World) (e : FleetEvent) : Option World :=
  match Store.append e w.log with
  | .ok log =>
    if 0 < e.seq then
      some { w with
        log := log
        late := if e.seq ≤ w.sub.readUpTo e.streamKey then e :: w.late else w.late }
    else none
  | .error _ => none

def replay (w : World) (key : StreamKey) : World :=
  { w with
    sub := { w.sub with
      key := key
      pending := Store.replay w.log key (w.sub.lastSeq key + 1) }
    rung := w.log.filter (fun e => e.streamKey = key) ++ w.rung }

def doorbell (w : World) (payload : String) (replayOk : Bool) : World :=
  match rsplitOnce payload with
  | some key => if w.sub.heeds key ∧ replayOk then w.replay key else w
  | none => w

/-- One turn of the loop over the replayed events. -/
def next (w : World) (e : FleetEvent) (rest : List FleetEvent) : World :=
  if e.seq ≤ w.sub.lastSeq w.sub.key then { w with sub := { w.sub with pending := rest } }
  else
    { w with
      sub := { w.sub with
        lastSeq := Function.update w.sub.lastSeq w.sub.key e.seq
        pending := rest }
      yielded := w.yielded ++ [e] }

def step (w : World) : Action → Option World
  | .commit e => w.commit e
  | .publish e => some { w with sent := payload e :: w.sent }
  | .doorbell payload replayOk =>
    match w.sub.pending with
    | [] =>
      if w.sub.listening ∧ payload ∈ w.sent then some (w.doorbell payload replayOk) else none
    | _ :: _ => none
  | .next =>
    match w.sub.pending with
    | e :: rest => some (w.next e rest)
    | [] => none
  | .recvFailed =>
    match w.sub.pending with
    | [] => some { w with sub := { w.sub with listening := false } }
    | _ :: _ => none

end World

/-- The subscription has just issued its `LISTEN`. -/
def World.start (log : List FleetEvent) (only : Option StreamKey) : World :=
  ⟨log, [], ⟨only, fun _ => 0, "", [], true⟩, [], [], []⟩

end Prospero.DistributedBus
