import Mathlib.Tactic.Common

namespace Broadcast

variable {α : Type*}

/-- What a receiver is given: the next value, or word of how many it has missed. -/
inductive Received (α : Type*)
  | value (x : α)
  | lagged (skipped : Nat)

/-- A channel keeps the newest `capacity` of the values sent. A receiver that has fallen
behind them goes on at the oldest one kept. -/
def recv (capacity : Nat) (sent : List α) (pos : Nat) : Option (Received α × Nat) :=
  if pos < sent.length - capacity then
    some (.lagged (sent.length - capacity - pos), sent.length - capacity)
  else sent[pos]?.map fun x => (.value x, pos + 1)

/-- Of the values sent, those from one place up to another. -/
def between (sent : List α) (a b : Nat) : List α := (sent.take b).drop a

/-- Each of the values has been given in its turn, or is counted among those missed. -/
inductive Accounts : List α → List (Received α) → Prop
  | nil : Accounts [] []
  | value {xs : List α} {got : List (Received α)} (x : α) (h : Accounts xs got) :
      Accounts (xs ++ [x]) (got ++ [.value x])
  | lagged {xs : List α} {got : List (Received α)} (missed : List α) (some : missed ≠ [])
      (h : Accounts xs got) : Accounts (xs ++ missed) (got ++ [.lagged missed.length])

section Between

variable {sent : List α} {a b c : Nat}

theorem between_append (hb : b ≤ sent.length) (later : List α) :
    between (sent ++ later) a b = between sent a b := by
  rw [between, between, List.take_append_of_le_length hb]

theorem between_self : between sent a a = [] := by
  rw [between]
  exact List.drop_eq_nil_of_le (List.length_take_le a sent)

theorem between_trans (hab : a ≤ b) (hbc : b ≤ c) (hc : c ≤ sent.length) :
    between sent a b ++ between sent b c = between sent a c := by
  have htake : (sent.take c).take b = sent.take b := by
    rw [List.take_take, Nat.min_eq_left hbc]
  have hlen : a ≤ (sent.take b).length := by
    rw [List.length_take]
    omega
  calc between sent a b ++ between sent b c
      = (sent.take b ++ (sent.take c).drop b).drop a := by
        rw [List.drop_append_of_le_length hlen]
        rfl
    _ = between sent a c := by
        rw [← htake, List.take_append_drop]
        rfl

theorem between_succ {x : α} (h : sent[b]? = some x) : between sent b (b + 1) = [x] := by
  obtain ⟨hb, hx⟩ := List.getElem?_eq_some_iff.mp h
  rw [between, List.take_add_one, h, Option.toList_some, List.drop_append_of_le_length]
  · rw [List.drop_eq_nil_of_le (List.length_take_le b sent)]
    rfl
  · rw [List.length_take]
    omega

theorem length_between (hc : c ≤ sent.length) : (between sent b c).length = c - b := by
  rw [between, List.length_drop, List.length_take, Nat.min_eq_left hc]

end Between

section Receive

variable {capacity pos pos' joined : Nat} {sent : List α} {got : List (Received α)}
  {r : Received α}

theorem recv_le (h : recv capacity sent pos = some (r, pos')) :
    pos ≤ pos' ∧ pos' ≤ sent.length := by
  unfold recv at h
  split at h
  · cases h
    omega
  · obtain ⟨x, hx, heq⟩ := Option.map_eq_some_iff.mp h
    obtain ⟨hlt, -⟩ := List.getElem?_eq_some_iff.mp hx
    cases heq
    omega

/-- What a receiver is given next accounts for what it moves past. -/
theorem recv_accounts (hjoined : joined ≤ pos) (ha : Accounts (between sent joined pos) got)
    (h : recv capacity sent pos = some (r, pos')) :
    Accounts (between sent joined pos') (got ++ [r]) := by
  obtain ⟨hle, hlen⟩ := recv_le h
  rw [← between_trans hjoined hle hlen]
  unfold recv at h
  split at h
  · rename_i hbehind
    cases h
    have hmissed : (between sent pos (sent.length - capacity)).length =
        sent.length - capacity - pos := length_between hlen
    rw [← hmissed]
    refine .lagged _ ?_ ha
    intro hnil
    rw [hnil, List.length_nil] at hmissed
    omega
  · obtain ⟨x, hx, heq⟩ := Option.map_eq_some_iff.mp h
    cases heq
    rw [between_succ hx]
    exact .value x ha

/-- A receiver that is no further behind than the capacity is told of no lag. -/
theorem recv_of_near (hnear : sent.length ≤ pos + capacity) :
    recv capacity sent pos = sent[pos]?.map fun x => (.value x, pos + 1) := by
  have hin : ¬pos < sent.length - capacity := by omega
  rw [recv, if_neg hin]

end Receive

/-- Without a lag everything has been given. -/
theorem Accounts.complete {xs : List α} {got : List (Received α)} (h : Accounts xs got)
    (hnone : ∀ n, .lagged n ∉ got) : got = xs.map .value := by
  induction h with
  | nil => rfl
  | value x h ih =>
    rw [ih fun n hn => hnone n (List.mem_append_left _ hn), List.map_append]
    rfl
  | lagged missed some h ih =>
    exact absurd (List.mem_append_right _ (List.mem_singleton_self _)) (hnone missed.length)

end Broadcast
