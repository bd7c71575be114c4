import Mathlib.Data.List.Destutter
import Prospero.Lib.Machine
import Prospero.PollLoop

namespace Prospero.Proofs.PollLoop
open Prospero.PollLoop

variable {digest : Agent → UInt64} {w w' : World}

section Steps

/-- What a step can come to, and where. -/
inductive Stepped (digest : Agent → UInt64) (w : World) : Action → World → Prop
  | away (hphase : w.phase = .top) (hsession : w.session ≠ .signedIn) : Stepped digest w .turn w
  | fetch (hphase : w.phase = .top) :
    Stepped digest w .turn { w with phase := .fleet, due := none }
  | probe (hphase : w.phase = .top) : Stepped digest w .turn { w with phase := .capabilities }
  | capabilities (hphase : w.phase = .capabilities) (ok : Bool) :
    Stepped digest w (.capabilities ok) { w with capsLoaded := ok, phase := .fleet, due := none }
  | fleet (hphase : w.phase = .fleet) (answer : Except String FleetSnapshot) :
    Stepped digest w (.fleet answer) (w.answered digest answer)
  | workspaces (hphase : w.phase = .workspaces) (nowMs : Int) :
    Stepped digest w (.workspaces nowMs) (w.finish nowMs)
  | slept {start left : Nat} (hphase : w.phase = .waiting start left) :
    Stepped digest w .step (w.slept start left)
  | bump : Stepped digest w .bump
    { w with refresh := w.refresh + 1, due := some (w.due.getD (w.isWaiting, 0)) }
  | session (s : SessionState) : Stepped digest w (.session s) { w with session := s }
  | retry {message : String} (hload : w.load = .failed message) :
    Stepped digest w .retry { w with load := .loading }

theorem step_cases {a : Action} (hs : w.step digest a = some w') : Stepped digest w a w' := by
  cases a with
  | turn =>
    dsimp only [World.step] at hs
    split at hs
    · rename_i hphase
      split at hs
      · rename_i hsession
        cases hs
        exact .away hphase hsession
      · split at hs
        · cases hs
          exact .fetch hphase
        · cases hs
          exact .probe hphase
    · cases hs
  | capabilities ok =>
    dsimp only [World.step] at hs
    split at hs
    · rename_i hphase
      cases hs
      exact .capabilities hphase ok
    · cases hs
  | fleet answer =>
    dsimp only [World.step] at hs
    split at hs
    · rename_i hphase
      cases hs
      exact .fleet hphase answer
    · cases hs
  | workspaces nowMs =>
    dsimp only [World.step] at hs
    split at hs
    · rename_i hphase
      cases hs
      exact .workspaces hphase nowMs
    · cases hs
  | step =>
    dsimp only [World.step] at hs
    split at hs
    · rename_i start left hphase
      cases hs
      exact .slept hphase
    · cases hs
  | bump =>
    cases hs
    exact .bump
  | session s =>
    cases hs
    exact .session s
  | retry =>
    dsimp only [World.step] at hs
    split at hs
    · rename_i message hload
      cases hs
      exact .retry hload
    · cases hs

end Steps

section Screen

/-- On the screen is a snapshot with a note exactly if it was the last that came, nobody was
told to sign in since, and the note is the last error since. -/
def Shown (w : World) : Prop :=
  ∀ snapshot error, w.load = .ready snapshot error ↔
    ∃ (before : List (Except String FleetSnapshot)) (fails : List String),
      w.answers = before ++ .ok snapshot :: fails.map .error ∧ signedOut ∉ fails ∧
        error = fails.getLast?

/-- The last answer is an error, or the snapshot itself. -/
theorem snoc_eq_answers {answers before : List (Except String FleetSnapshot)}
    {answer : Except String FleetSnapshot} {snapshot : FleetSnapshot} {fails : List String} :
    answers ++ [answer] = before ++ .ok snapshot :: fails.map .error ↔
      (fails = [] ∧ answers = before ∧ answer = .ok snapshot) ∨
      ∃ fails' e, fails = fails' ++ [e] ∧ answer = .error e ∧
        answers = before ++ .ok snapshot :: fails'.map .error := by
  cases fails using List.reverseRecOn with
  | nil =>
    constructor
    · intro h
      obtain ⟨hbefore, hlast⟩ := List.append_inj' h rfl
      exact Or.inl ⟨rfl, hbefore, (List.cons.inj hlast).1⟩
    · rintro (⟨-, rfl, rfl⟩ | ⟨fails', e, h, -⟩)
      · rfl
      · simp at h
  | append_singleton fails e =>
    rw [List.map_append, List.map_singleton, ← List.cons_append, ← List.append_assoc]
    constructor
    · intro h
      obtain ⟨hbefore, hlast⟩ := List.append_inj' h rfl
      exact Or.inr ⟨fails, e, rfl, (List.cons.inj hlast).1, hbefore⟩
    · rintro (⟨h, -⟩ | ⟨fails', e', h, rfl, rfl⟩)
      · simp at h
      · obtain ⟨rfl, he⟩ := List.append_inj' h rfl
        obtain rfl := (List.cons.inj he).1
        rfl

theorem Shown.answered (h : Shown w) (answer : Except String FleetSnapshot) :
    Shown (w.answered digest answer) := by
  intro snapshot error
  cases answer with
  | ok s =>
    constructor
    · intro hload
      cases hload
      exact ⟨w.answers, [], rfl, List.not_mem_nil, rfl⟩
    · rintro ⟨before, fails, hanswers, -, rfl⟩
      rcases snoc_eq_answers.mp hanswers with ⟨rfl, -, hok⟩ | ⟨-, e, -, herr, -⟩
      · cases hok
        rfl
      · cases herr
  | error e =>
    by_cases he : e = signedOut
    · unfold World.answered
      simp only [if_pos he]
      constructor
      · intro hload
        cases hload
      · rintro ⟨before, fails, hanswers, hsigned, -⟩
        rcases snoc_eq_answers.mp hanswers with ⟨-, -, hok⟩ | ⟨fails', e', rfl, herr, -⟩
        · cases hok
        · cases herr
          exact absurd (List.mem_append_right fails' (List.mem_singleton.mpr he.symm)) hsigned
    · unfold World.answered
      simp only [if_neg he]
      constructor
      · intro hload
        cases hready : w.load with
        | ready s error' =>
          rw [hready] at hload
          cases hload
          obtain ⟨before, fails, hanswers, hsigned, -⟩ := (h _ _).mp hready
          refine ⟨before, fails ++ [e], snoc_eq_answers.mpr (.inr ⟨fails, e, rfl, rfl, hanswers⟩),
            ?_, List.getLast?_concat.symm⟩
          rw [List.mem_append, List.mem_singleton, not_or]
          exact ⟨hsigned, Ne.symm he⟩
        | loading | failed message =>
          rw [hready] at hload
          cases hload
      · rintro ⟨before, fails, hanswers, hsigned, rfl⟩
        rcases snoc_eq_answers.mp hanswers with ⟨-, -, hok⟩ | ⟨fails', e', rfl, herr, hbefore⟩
        · cases hok
        · cases herr
          have hready := (h snapshot fails'.getLast?).mpr ⟨before, fails', hbefore,
            fun hmem => hsigned (List.mem_append_left _ hmem), rfl⟩
          rw [hready, List.getLast?_concat]

theorem Shown.step (h : Shown w) {a : Action} (hs : w.step digest a = some w') : Shown w' := by
  cases step_cases hs with
  | fleet hphase answer => exact h.answered answer
  | retry hload =>
    intro snapshot error
    rw [← h snapshot error, hload]
    constructor <;> intro hready <;> cases hready
  | away | fetch | probe | capabilities | workspaces | slept | bump | session => exact h

end Screen

section Latency

/-- The oldest bump that no fetch has followed: while the loop waits, one that came before
has been waited for since the wait began, and one that came during it not even for a step. -/
def Due (refresh : Nat) : Phase → Option (Bool × Nat) → Prop
  | .waiting start _, none => refresh = start
  | .waiting start _, some (true, n) => start < refresh ∧ n = 0
  | .waiting _ left, some (false, n) => n + left = steps
  | .fleet, some (heard, n) | .workspaces, some (heard, n) => heard = false ∧ n = 0
  | .top, some (heard, n) | .capabilities, some (heard, n) => n ≤ if heard then 1 else steps
  | _, none => True

structure Waits (w : World) : Prop where
  due : Due w.refresh w.phase w.due
  room : ∀ start left, w.phase = .waiting start left →
    0 < left ∧ left ≤ steps ∧ start ≤ w.refresh

theorem Waits.bump (h : Waits w) :
    Waits { w with refresh := w.refresh + 1, due := some (w.due.getD (w.isWaiting, 0)) } := by
  refine ⟨?_, fun start left hphase => ?_⟩
  · have hdue := h.due
    cases hphase : w.phase with
    | waiting start left =>
      obtain ⟨-, -, hstart⟩ := h.room start left hphase
      rw [hphase] at hdue
      rcases hold : w.due with _ | ⟨heard, n⟩
      · simp [Due, World.isWaiting, hphase, Nat.lt_succ_of_le hstart]
      · rw [hold] at hdue
        cases heard with
        | true => exact ⟨Nat.lt_succ_of_lt hdue.1, hdue.2⟩
        | false => exact hdue
    | top | capabilities | fleet | workspaces =>
      rw [hphase] at hdue
      rcases hold : w.due with _ | ⟨heard, n⟩
      · simp [Due, World.isWaiting, hphase]
      · rw [hold] at hdue
        exact hdue
  · obtain ⟨hpos, hsteps, hstart⟩ := h.room start left hphase
    exact ⟨hpos, hsteps, Nat.le_succ_of_le hstart⟩

theorem Waits.slept (h : Waits w) {start left : Nat} (hphase : w.phase = .waiting start left) :
    Waits (w.slept start left) := by
  obtain ⟨hpos, hsteps, hstart⟩ := h.room start left hphase
  have hdue := h.due
  rw [hphase] at hdue
  unfold World.slept
  by_cases hwake : w.refresh ≠ start ∨ left ≤ 1
  · simp only [if_pos hwake]
    refine ⟨?_, nofun⟩
    rcases hold : w.due with _ | ⟨heard, n⟩
    · trivial
    · rw [hold] at hdue
      cases heard with
      | true => simp [Due, hdue.2]
      | false =>
        have hsum : n + left = steps := hdue
        simp only [Due, Option.map_some, Bool.false_eq_true, if_false]
        omega
  · simp only [if_neg hwake]
    rw [not_or, not_not] at hwake
    refine ⟨?_, ?_⟩
    · rcases hold : w.due with _ | ⟨heard, n⟩
      · exact hwake.1
      · rw [hold] at hdue
        cases heard with
        | true => exact absurd hwake.1 hdue.1.ne'
        | false =>
          have hsum : n + left = steps := hdue
          simp only [Due, Option.map_some]
          omega
    · intro start' left' hwaiting
      cases hwaiting
      exact ⟨by omega, by omega, hstart⟩

theorem Waits.answered (h : Waits w) (hphase : w.phase = .fleet)
    (answer : Except String FleetSnapshot) : Waits (w.answered digest answer) := by
  have hdue := h.due
  rw [hphase] at hdue
  have htop : Due w.refresh .top w.due := by
    rcases hold : w.due with _ | ⟨heard, n⟩
    · trivial
    · rw [hold] at hdue
      simp [Due, hdue.2]
  have hworkspaces : Due w.refresh .workspaces w.due := by
    rcases hold : w.due with _ | ⟨heard, n⟩
    · trivial
    · rw [hold] at hdue
      exact hdue
  cases answer with
  | ok snapshot => exact ⟨hworkspaces, nofun⟩
  | error e =>
    unfold World.answered
    by_cases he : e = signedOut
    · simp only [if_pos he]
      exact ⟨htop, nofun⟩
    · simp only [if_neg he]
      exact ⟨hworkspaces, nofun⟩

theorem Waits.finish (h : Waits w) (hphase : w.phase = .workspaces) (nowMs : Int) :
    Waits (w.finish nowMs) := by
  have hdue := h.due
  rw [hphase] at hdue
  refine ⟨?_, fun start left hwaiting => ?_⟩
  · change Due w.refresh (.waiting w.refresh steps) w.due
    rcases hold : w.due with _ | ⟨heard, n⟩
    · rfl
    · rw [hold] at hdue
      obtain ⟨rfl, rfl⟩ := hdue
      exact Nat.zero_add _
  · cases hwaiting
    exact ⟨by decide, Nat.le_refl _, Nat.le_refl _⟩

theorem Waits.step (h : Waits w) {a : Action} (hs : w.step digest a = some w') : Waits w' := by
  cases step_cases hs with
  | away => exact h
  | fetch | capabilities => exact ⟨trivial, nofun⟩
  | probe hphase =>
    have hdue := h.due
    rw [hphase] at hdue
    refine ⟨?_, nofun⟩
    change Due w.refresh .capabilities w.due
    rcases hold : w.due with _ | ⟨heard, n⟩
    · trivial
    · rw [hold] at hdue
      exact hdue
  | fleet hphase answer => exact h.answered hphase answer
  | workspaces hphase nowMs => exact h.finish hphase nowMs
  | slept hphase => exact h.slept hphase
  | bump => exact h.bump
  | session s => exact ⟨h.due, h.room⟩
  | retry hload => exact ⟨h.due, h.room⟩

/-- A bump that came while the loop waited is followed by a fetch after one step at most. One
that came in the middle of a pass may have to wait for as long as the loop ever does, and of
itself it cuts nothing short. -/
structure Prompt (w : World) : Prop where
  bound : ∀ heard n, w.due = some (heard, n) → n ≤ if heard then 1 else steps
  unheard : ∀ n start left, w.due = some (false, n) → w.phase = .waiting start left →
    n + left = steps

theorem Waits.prompt (h : Waits w) : Prompt w := by
  have hdue := h.due
  refine ⟨fun heard n hsome => ?_, fun n start left hsome hphase => ?_⟩
  · rw [hsome] at hdue
    cases hphase : w.phase with
    | top | capabilities =>
      rw [hphase] at hdue
      exact hdue
    | fleet | workspaces =>
      rw [hphase] at hdue
      rw [hdue.2]
      exact Nat.zero_le _
    | waiting start left =>
      rw [hphase] at hdue
      cases heard with
      | true =>
        rw [hdue.2]
        exact Nat.zero_le _
      | false => exact (Nat.le_add_right _ _).trans_eq hdue
  · rw [hsome, hphase] at hdue
    exact hdue

end Latency

section Refetch

variable {κ : Type*} [DecidableEq κ]

theorem length_destutter'_snoc (a b : κ) (ks : List κ) :
    ((ks ++ [b]).destutter' (· ≠ ·) a).length =
      (ks.destutter' (· ≠ ·) a).length + if (a :: ks).getLast? = some b then 0 else 1 := by
  induction ks generalizing a with
  | nil =>
    by_cases h : a = b
    · simp [List.destutter', h]
    · simp [List.destutter', h]
  | cons c ks ih =>
    rw [List.getLast?_cons_cons]
    by_cases h : a = c
    · subst h
      rw [List.cons_append, List.destutter'_cons_neg (h := not_not.mpr rfl),
        List.destutter'_cons_neg (h := not_not.mpr rfl)]
      exact ih a
    · rw [List.cons_append, List.destutter'_cons_pos (h := h), List.destutter'_cons_pos (h := h),
        List.length_cons, List.length_cons, ih c]
      omega

/-- One more key is another run of equal keys, but for a key that is the last one again. -/
theorem length_destutter_snoc (ks : List κ) (b : κ) :
    ((ks ++ [b]).destutter (· ≠ ·)).length =
      (ks.destutter (· ≠ ·)).length + if ks.getLast? = some b then 0 else 1 := by
  cases ks with
  | nil => rfl
  | cons a ks => exact length_destutter'_snoc a b ks

theorem length_destutter_const {ks : List κ} {k : κ} (h : ∀ x ∈ ks, x = k) :
    (ks.destutter (· ≠ ·)).length ≤ 1 := by
  induction ks using List.reverseRecOn with
  | nil => exact Nat.zero_le _
  | append_singleton ks b ih =>
    obtain ⟨hks, hb⟩ := List.forall_mem_append.mp h
    rw [length_destutter_snoc]
    cases hlast : ks.getLast? with
    | none =>
      rw [List.getLast?_eq_none_iff] at hlast
      subst hlast
      exact Nat.le_refl _
    | some c =>
      rw [hks c (List.mem_of_getLast? hlast), hb b (List.mem_singleton_self b), if_pos rfl]
      exact ih hks

def agents (snap : FleetSnapshot) : List Agent := snap.workspaces.flatMap Workspace.agents

/-- Neither the workspaces' order nor the agents' is in the key. -/
theorem activityKey_perm (digest : Agent → UInt64) {snap snap' : FleetSnapshot}
    (h : (agents snap).Perm (agents snap')) :
    activityKey digest snap = activityKey digest snap' := by
  have hfold : ∀ snap, activityKey digest snap =
      (agents snap).foldl (fun key agent => key + digest agent) 0 :=
    fun snap => (List.foldl_flatMap ..).symm
  have hcomm : ∀ (a b : Agent) (key : UInt64),
      key + digest a + digest b = key + digest b + digest a := fun a b key => by
    rw [UInt64.add_assoc, UInt64.add_assoc, UInt64.add_comm (digest a)]
  rw [hfold, hfold]
  exact h.foldl_eq' (fun a _ b _ key => hcomm a b key) 0

/-- The keys of the snapshots that came. -/
def keys (digest : Agent → UInt64) (answers : List (Except String FleetSnapshot)) : List UInt64 :=
  answers.filterMap fun answer => answer.toOption.map (activityKey digest)

theorem keys_ok (answers : List (Except String FleetSnapshot)) (snapshot : FleetSnapshot) :
    keys digest (answers ++ [.ok snapshot]) =
      keys digest answers ++ [activityKey digest snapshot] := List.filterMap_append

theorem keys_error (answers : List (Except String FleetSnapshot)) (e : String) :
    keys digest (answers ++ [.error e]) = keys digest answers :=
  List.filterMap_append.trans (List.append_nil _)

theorem mem_keys {answers : List (Except String FleetSnapshot)} {k : UInt64}
    (h : k ∈ keys digest answers) :
    ∃ snapshot, .ok snapshot ∈ answers ∧ activityKey digest snapshot = k := by
  obtain ⟨answer, hanswer, hk⟩ := List.mem_filterMap.mp h
  cases answer with
  | ok snapshot => exact ⟨snapshot, hanswer, Option.some.inj hk⟩
  | error e => cases hk

/-- The usage panel has been asked to fetch again once for every run of equal keys, and once
for every heartbeat. -/
structure Counted (digest : Agent → UInt64) (w : World) : Prop where
  last : w.lastKey = (keys digest w.answers).getLast?
  counted : w.activity = ((keys digest w.answers).destutter (· ≠ ·)).length + w.beats

theorem Counted.answered (h : Counted digest w) (answer : Except String FleetSnapshot) :
    Counted digest (w.answered digest answer) := by
  cases answer with
  | ok snapshot =>
    unfold World.answered
    constructor
    · dsimp only
      rw [keys_ok, List.getLast?_concat]
    · dsimp only
      rw [keys_ok, length_destutter_snoc, ← h.last, h.counted]
      split <;> omega
  | error e =>
    have hlast := h.last
    have hcounted := h.counted
    rw [← keys_error _ e] at hlast hcounted
    unfold World.answered
    by_cases he : e = signedOut
    · simp only [if_pos he]
      exact ⟨hlast, hcounted⟩
    · simp only [if_neg he]
      exact ⟨hlast, hcounted⟩

theorem Counted.step (h : Counted digest w) {a : Action} (hs : w.step digest a = some w') :
    Counted digest w' := by
  cases step_cases hs with
  | fleet hphase answer => exact h.answered answer
  | workspaces hphase nowMs =>
    refine ⟨h.last, ?_⟩
    unfold World.finish
    dsimp only
    rw [h.counted]
    split <;> rfl
  | away | fetch | probe | capabilities | slept | bump | session | retry =>
    exact ⟨h.last, h.counted⟩

/-- In every run the panel is asked to fetch again once for every run of equal keys and once
for every heartbeat; so while the snapshots list the same agents, in whatever order, it is for
the heartbeats and once besides. -/
theorem refetch_run (digest : Agent → UInt64) (as : List Action) :
    Machine.Always (World.step digest)
      (fun w => w.activity = ((keys digest w.answers).destutter (· ≠ ·)).length + w.beats ∧
        ∀ fleet, (∀ snapshot, .ok snapshot ∈ w.answers → (agents snapshot).Perm fleet) →
          w.activity ≤ w.beats + 1)
      World.start as := by
  have hstart : Counted digest World.start := ⟨rfl, rfl⟩
  refine Machine.always_mono (fun w h => ⟨Counted.counted h, fun fleet hfleet => ?_⟩)
    (Machine.always_of_invariant (fun _ _ _ h hs => Counted.step h hs) hstart as)
  have hconst : ∀ k ∈ keys digest w.answers, k = activityKey digest ⟨"", [⟨"", fleet⟩]⟩ := by
    intro k hk
    obtain ⟨snapshot, hsnapshot, rfl⟩ := mem_keys hk
    apply activityKey_perm
    exact (hfleet snapshot hsnapshot).trans (List.Perm.of_eq (List.append_nil fleet).symm)
  rw [Counted.counted h, Nat.add_comm]
  exact Nat.add_le_add_left (length_destutter_const hconst) _

end Refetch

end Prospero.Proofs.PollLoop
