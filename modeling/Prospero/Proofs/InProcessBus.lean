import Prospero.InProcessBus
import Prospero.Lib.Machine
import Prospero.Lib.Slots
import Prospero.Proofs.JsonlStore

namespace Prospero.Proofs.InProcessBus
open Prospero.InProcessBus Broadcast

/-- What a subscription has yielded, and what its channel has dropped for it, is what has been
published since it was made, in that order. -/
def Told (published : List FleetEvent) (s : Subscription) : Prop :=
  ∃ got, Accounts (between published s.joined s.pos) got ∧
    s.yielded = got.filterMap (yield? s.key)

structure Placed (published : List FleetEvent) (s : Subscription) : Prop where
  joined : s.joined ≤ s.pos
  pos : s.pos ≤ published.length
  told : Told published s

def Inv (w : World) : Prop := ∀ id s, w.subscriptions id = some s → Placed w.published s

variable {w w' : World} {s s' : Subscription}

theorem Placed.publish {published : List FleetEvent} (h : Placed published s) (e : FleetEvent) :
    Placed (published ++ [e]) s := by
  obtain ⟨got, haccounts, hyielded⟩ := h.told
  refine ⟨h.joined, ?_, got, ?_, hyielded⟩
  · rw [List.length_append]
    exact h.pos.trans (Nat.le_add_right _ _)
  · rw [between_append h.pos]
    exact haccounts

theorem placed_subscribe (w : World) (key : Option StreamKey) :
    Placed w.published (w.subscribe key) := by
  refine ⟨Nat.le_refl _, Nat.le_refl _, [], ?_, rfl⟩
  rw [World.subscribe, between_self]
  exact .nil

theorem Placed.recv (h : Placed w.published s) (hs : w.recv s = some s') :
    Placed w.published s' := by
  obtain ⟨⟨received, pos⟩, hreceived, rfl⟩ := Option.map_eq_some_iff.mp hs
  obtain ⟨hle, hlen⟩ := recv_le hreceived
  obtain ⟨got, haccounts, hyielded⟩ := h.told
  refine ⟨h.joined.trans hle, hlen, got ++ [received],
    recv_accounts h.joined haccounts hreceived, ?_⟩
  rw [List.filterMap_append, ← hyielded]
  cases hy : yield? s.key received <;> simp [hy]

/-- What a publication, a new subscription and a turn of the loop keep of each subscription,
a step does. -/
theorem forall_step {P : List FleetEvent → Subscription → Prop} {a : Action}
    (h : ∀ id s, w.subscriptions id = some s → P w.published s)
    (publish : ∀ e, a = .publish e → ∀ id s, w.subscriptions id = some s →
      P (w.published ++ [e]) s)
    (subscribe : ∀ key, P w.published (w.subscribe key))
    (recv : ∀ s s', P w.published s → w.recv s = some s' → P w.published s')
    (hs : w.step a = some w') : ∀ id s, w'.subscriptions id = some s → P w'.published s := by
  cases a with
  | publish e =>
    cases hs
    exact publish e rfl
  | subscribe id key =>
    simp only [World.step] at hs
    split at hs
    · cases hs
      intro other s hother
      rcases Slots.update_some hother with ⟨-, rfl⟩ | ⟨-, hold⟩
      · exact subscribe key
      · exact h other s hold
    · cases hs
  | recv id =>
    obtain ⟨s', hs', rfl⟩ := Option.map_eq_some_iff.mp hs
    obtain ⟨s, hid, hrecv⟩ := Option.bind_eq_some_iff.mp hs'
    intro other t hother
    rcases Slots.update_some hother with ⟨-, rfl⟩ | ⟨-, hold⟩
    · exact recv s _ (h id s hid) hrecv
    · exact h other t hold
  | drop id =>
    cases hs
    exact fun other t hother => h other t (Slots.update_none hother).2

theorem Inv.step {a : Action} (h : Inv w) (hs : w.step a = some w') : Inv w' :=
  forall_step h (fun e _ id s hid => (h id s hid).publish e) (placed_subscribe w)
    (fun _ _ hplaced hrecv => hplaced.recv hrecv) hs

section KeepUp

/-- What is published finds every subscription less than the capacity behind. -/
def inTime (w : World) : Action → Prop
  | .publish _ => ∀ id s, w.subscriptions id = some s → w.published.length < s.pos + w.capacity
  | _ => True

/-- A subscription that is no more than the capacity behind, and has been told of no lag. -/
structure Prompt (capacity : Nat) (published : List FleetEvent) (s : Subscription) : Prop where
  placed : Placed published s
  near : published.length ≤ s.pos + capacity
  plain : ∀ n, .lagged n ∉ s.yielded

structure KeptUp (capacity : Nat) (w : World) : Prop where
  bound : w.capacity = capacity
  prompt : ∀ id s, w.subscriptions id = some s → Prompt capacity w.published s

theorem Prompt.recv (h : Prompt w.capacity w.published s) (hs : w.recv s = some s') :
    Prompt w.capacity w.published s' := by
  have hplaced := h.placed.recv hs
  have hnear := h.near
  rw [World.recv, recv_of_near hnear, Option.map_map] at hs
  obtain ⟨e, -, rfl⟩ := Option.map_eq_some_iff.mp hs
  refine ⟨hplaced, ?_, fun n hn => ?_⟩
  · simp only [Function.comp_apply]
    omega
  · rcases List.mem_append.mp hn with hold | hnew
    · exact h.plain n hold
    · simp only [yield?] at hnew
      split at hnew
      · cases List.mem_singleton.mp hnew
      · cases hnew

theorem KeptUp.step {capacity : Nat} {a : Action} (h : KeptUp capacity w) (hok : inTime w a)
    (hs : w.step a = some w') : KeptUp capacity w' := by
  obtain ⟨rfl, hprompt⟩ := h
  have hcapacity : w'.capacity = w.capacity := by
    cases a with
    | publish e | drop id =>
      cases hs
      rfl
    | subscribe id key =>
      simp only [World.step] at hs
      split at hs
      · cases hs
        rfl
      · cases hs
    | recv id =>
      obtain ⟨s', -, rfl⟩ := Option.map_eq_some_iff.mp hs
      rfl
  refine ⟨hcapacity, forall_step hprompt ?_ ?_ (fun _ _ hp hrecv => hp.recv hrecv) hs⟩
  · rintro e rfl id s hid
    obtain ⟨placed, -, plain⟩ := hprompt id s hid
    refine ⟨placed.publish e, ?_, plain⟩
    rw [List.length_append]
    exact hok id s hid
  · exact fun key => ⟨placed_subscribe w key, Nat.le_add_right _ _, fun n => List.not_mem_nil⟩

/-- What is published on a stream between two places. -/
def ofStream (published : List FleetEvent) (s : Subscription) : List BusEvent :=
  ((between published s.joined s.pos).filter fun e => s.key.all (· = e.streamKey)).map .event

theorem Told.complete {published : List FleetEvent} (h : Told published s)
    (hplain : ∀ n, .lagged n ∉ s.yielded) : s.yielded = ofStream published s := by
  obtain ⟨got, haccounts, hyielded⟩ := h
  have hnone : ∀ n, .lagged n ∉ got := by
    intro n hn
    apply hplain n
    rw [hyielded]
    exact List.mem_filterMap.mpr ⟨_, hn, rfl⟩
  rw [hyielded, haccounts.complete hnone, List.filterMap_map, ofStream, ← List.filterMap_eq_map,
    List.filterMap_filter]
  rfl

end KeepUp

end Prospero.Proofs.InProcessBus
