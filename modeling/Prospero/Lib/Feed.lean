import Mathlib.Data.List.TakeDrop
import Mathlib.Logic.Function.Basic
import Mathlib.Tactic.Common

namespace Feed

/-- A message about a keyed state, which may bear on none of its keys. -/
inductive Change (κ σ : Type*)
  | appear (k : κ) (v : σ)
  | change (k : κ) (v : σ)
  | vanish (k : κ)
  | skip

variable {κ σ : Type*} [DecidableEq κ]

def apply (view : κ → Option σ) : Change κ σ → κ → Option σ
  | .appear k v => Function.update view k (some v)
  | .change k v => Function.update view k ((view k).map fun _ => v)
  | .vanish k => Function.update view k none
  | .skip => view

def replay (view : κ → Option σ) (cs : List (Change κ σ)) : κ → Option σ := cs.foldl apply view

/-- What the first messages of a feed come to. -/
def upTo (cs : List (Change κ σ)) (p : Nat) : κ → Option σ := replay (fun _ => none) (cs.take p)

/-- Only what is not there appears, and only what is there changes. -/
def Fits (view : κ → Option σ) : Change κ σ → Prop
  | .appear k _ => view k = none
  | .change k _ => view k ≠ none
  | _ => True

/-- Each message fits the state that the ones before it come to. -/
def Valid : (κ → Option σ) → List (Change κ σ) → Prop
  | _, [] => True
  | view, c :: cs => Fits view c ∧ Valid (apply view c) cs

theorem replay_append (view : κ → Option σ) (cs cs' : List (Change κ σ)) :
    replay view (cs ++ cs') = replay (replay view cs) cs' :=
  List.foldl_append ..

theorem valid_append {view : κ → Option σ} {cs cs' : List (Change κ σ)} (h : Valid view cs)
    (h' : Valid (replay view cs) cs') : Valid view (cs ++ cs') := by
  induction cs generalizing view with
  | nil => exact h'
  | cons c cs ih => exact ⟨h.1, ih h.2 h'⟩

section UpTo

variable {cs cs' : List (Change κ σ)} {p : Nat} {c : Change κ σ}

theorem upTo_append (h : p ≤ cs.length) : upTo (cs ++ cs') p = upTo cs p := by
  rw [upTo, upTo, List.take_append_of_le_length h]

theorem upTo_length : upTo cs cs.length = replay (fun _ => none) cs := by
  rw [upTo, List.take_length]

theorem upTo_succ (h : cs[p]? = some c) : upTo cs (p + 1) = apply (upTo cs p) c := by
  rw [upTo, List.take_add_one, h, replay_append]
  rfl

theorem Valid.fits {view : κ → Option σ} (h : Valid view cs) (hc : cs[p]? = some c) :
    Fits (replay view (cs.take p)) c := by
  induction cs generalizing view p with
  | nil => cases hc
  | cons d cs ih =>
    cases p with
    | zero =>
      cases hc
      exact h.1
    | succ p => exact ih h.2 hc

end UpTo

/-- How a reader of a feed stands with a key. It agrees with what it has read;
or it was shown a later state and has read nothing about the key since; or what
it is yet to read has the key vanish. -/
inductive Follows (cs : List (Change κ σ)) (p : Nat) (view : κ → Option σ) (k : κ) : Prop
  | inStep (agree : view k = upTo cs p k)
  | ahead (m : Nat) (le : p ≤ m) (bound : m ≤ cs.length) (agree : view k = upTo cs m k)
  | doomed (vanish : Change.vanish k ∈ cs.drop p)

section Apply

variable {view : κ → Option σ} {k : κ}

theorem apply_congr {view' : κ → Option σ} (h : view k = view' k) (c : Change κ σ) :
    apply view c k = apply view' c k := by
  cases c with
  | appear j v =>
    simp only [apply, Function.update_apply, h]
  | change j v =>
    simp only [apply, Function.update_apply]
    split_ifs with hk
    · rw [← hk, h]
    · exact h
  | vanish j =>
    simp only [apply, Function.update_apply, h]
  | skip => exact h

/-- Either the change spares a key, or a fitting one decides what becomes of it. -/
theorem apply_decides {old : κ → Option σ} {c : Change κ σ} (h : Fits old c) :
    apply view c k = view k ∨ apply view c k = apply old c k := by
  cases c with
  | appear j v =>
    by_cases hk : k = j
    · subst hk
      exact Or.inr (by simp [apply])
    · exact Or.inl (by simp [apply, hk])
  | change j v =>
    by_cases hk : k = j
    · subst hk
      obtain ⟨u, hu⟩ := Option.ne_none_iff_exists'.mp h
      cases hview : view k with
      | none => exact Or.inl (by simp [apply, hview])
      | some _ => exact Or.inr (by simp [apply, hview, hu])
    · exact Or.inl (by simp [apply, hk])
  | vanish j =>
    by_cases hk : k = j
    · subst hk
      exact Or.inr (by simp [apply])
    · exact Or.inl (by simp [apply, hk])
  | skip => exact Or.inl rfl

end Apply

theorem apply_none {view : κ → Option σ} {k : κ} {c : Change κ σ} (h : view k = none)
    (hc : ∀ v, c ≠ .appear k v) : apply view c k = none := by
  cases c with
  | appear j v =>
    have hne : k ≠ j := by
      rintro rfl
      exact hc v rfl
    exact (Function.update_of_ne hne ..).trans h
  | change j v =>
    simp only [apply, Function.update_apply]
    split_ifs with hk
    · rw [← hk, h, Option.map_none]
    · exact h
  | vanish j =>
    simp only [apply, Function.update_apply, h, ite_self]
  | skip => exact h

namespace Follows

variable {cs : List (Change κ σ)} {p : Nat} {view : κ → Option σ} {k : κ} {c : Change κ σ}

theorem append (h : Follows cs p view k) (hp : p ≤ cs.length) (cs' : List (Change κ σ)) :
    Follows (cs ++ cs') p view k := by
  cases h with
  | inStep agree => exact .inStep (by rw [agree, upTo_append hp])
  | ahead m le bound agree =>
    refine .ahead m le ?_ (by rw [agree, upTo_append bound])
    rw [List.length_append]
    exact Nat.le_add_right_of_le bound
  | doomed vanish =>
    refine .doomed ?_
    rw [List.drop_append_of_le_length hp]
    exact List.mem_append_left _ vanish

theorem congr (h : Follows cs p view k) {view' : κ → Option σ} (heq : view' k = view k) :
    Follows cs p view' k := by
  cases h with
  | inStep agree => exact .inStep (heq.trans agree)
  | ahead m le bound agree => exact .ahead m le bound (heq.trans agree)
  | doomed vanish => exact .doomed vanish

/-- Whoever has read everything agrees with everything. -/
theorem agree (h : Follows cs cs.length view k) : view k = replay (fun _ => none) cs k := by
  cases h with
  | inStep agree => rw [agree, upTo_length]
  | ahead m le bound agree => rw [agree, Nat.le_antisymm bound le, upTo_length]
  | doomed vanish => simp at vanish

/-- The next message is read and applied. -/
theorem read (h : Follows cs p view k) (hvalid : Valid (fun _ => none) cs)
    (hc : cs[p]? = some c) : Follows cs (p + 1) (Feed.apply view c) k := by
  have hagree : view k = upTo cs p k → Follows cs (p + 1) (Feed.apply view c) k := by
    intro hagree
    refine .inStep ?_
    rw [upTo_succ hc]
    exact apply_congr hagree c
  cases h with
  | inStep agree => exact hagree agree
  | ahead m le bound agree =>
    rcases Nat.eq_or_lt_of_le le with rfl | hlt
    · exact hagree agree
    · rcases apply_decides (hvalid.fits hc) with hspared | hdecided
      · exact .ahead m hlt bound (hspared.trans agree)
      · refine .inStep ?_
        rw [hdecided, upTo_succ hc]
        rfl
  | doomed vanish =>
    obtain ⟨hp, hcp⟩ := List.getElem?_eq_some_iff.mp hc
    rw [List.drop_eq_getElem_cons hp, hcp] at vanish
    rcases List.mem_cons.mp vanish with rfl | hlater
    · refine .inStep ?_
      rw [upTo_succ hc]
      simp [Feed.apply]
    · exact .doomed hlater

/-- The next message is left out: it tells of a key that appears, and the reader
has the key already. -/
theorem leave (h : Follows cs p view k) (hvalid : Valid (fun _ => none) cs) {j : κ} {v : σ}
    (hc : cs[p]? = some (.appear j v)) (hthere : view j ≠ none) :
    Follows cs (p + 1) view k := by
  have hfits : upTo cs p j = none := hvalid.fits hc
  have hagree : view k = upTo cs p k → Follows cs (p + 1) view k := by
    intro hagree
    refine .inStep ?_
    have hne : k ≠ j := by
      rintro rfl
      exact hthere (hagree.trans hfits)
    rw [upTo_succ hc, hagree]
    simp [Feed.apply, hne]
  cases h with
  | inStep agree => exact hagree agree
  | ahead m le bound agree =>
    rcases Nat.eq_or_lt_of_le le with rfl | hlt
    · exact hagree agree
    · exact .ahead m hlt bound agree
  | doomed vanish =>
    obtain ⟨hp, hcp⟩ := List.getElem?_eq_some_iff.mp hc
    rw [List.drop_eq_getElem_cons hp, hcp] at vanish
    rcases List.mem_cons.mp vanish with he | hlater
    · cases he
    · exact .doomed hlater

end Follows

/-- The message is about the key. -/
def About : Change κ σ → κ → Prop
  | .appear j _, k | .change j _, k | .vanish j, k => j = k
  | .skip, _ => False

/-- A state that is written after it was told of: as regards the key, it is what
the feed came to, or what it came to before the last message about the key. -/
def Trails (cs : List (Change κ σ)) (k : κ) (v : Option σ) : Prop :=
  ∃ q ≤ cs.length, upTo cs q k = v ∧ ∀ i c, q < i → cs[i]? = some c → ¬About c k

section About

variable {cs cs' : List (Change κ σ)} {c : Change κ σ} {view : κ → Option σ} {k : κ}
  {v : Option σ} {p q : Nat}

theorem apply_not_about (h : ¬About c k) : apply view c k = view k := by
  cases c with
  | skip => rfl
  | appear j u | change j u | vanish j => exact Function.update_of_ne (Ne.symm h) ..

theorem replay_not_about (h : ∀ c ∈ cs, ¬About c k) : replay view cs k = view k := by
  induction cs generalizing view with
  | nil => rfl
  | cons c cs ih =>
    have hrest : replay (apply view c) cs k = apply view c k :=
      ih fun d hd => h d (List.mem_cons_of_mem _ hd)
    exact hrest.trans (apply_not_about (h c (List.mem_cons_self ..)))

/-- What was there and is not there any more has vanished. -/
theorem vanish_of_upTo (hp : upTo cs p k ≠ none) (hq : upTo cs q k = none) (hpq : p ≤ q)
    (hlength : q ≤ cs.length) : Change.vanish k ∈ cs.drop p := by
  induction hpq with
  | refl => exact absurd hq hp
  | @step q hpq ih =>
    have hat : cs[q]? = some cs[q] := List.getElem?_eq_getElem hlength
    by_cases hold : upTo cs q k = none
    · exact ih hold (Nat.le_of_succ_le hlength)
    · rw [upTo_succ hat] at hq
      have hvanish : cs[q] = .vanish k := by
        cases hc : cs[q] with
        | appear j u | change j u | vanish j =>
          rw [hc] at hq
          simp only [apply, Function.update_apply] at hq
          split_ifs at hq <;> simp_all
        | skip =>
          rw [hc] at hq
          exact absurd hq hold
      rw [List.mem_iff_getElem?]
      refine ⟨q - p, ?_⟩
      rw [List.getElem?_drop, Nat.add_sub_cancel' hpq, hat, hvanish]

theorem Trails.of_eq (h : replay (fun _ => none) cs k = v) : Trails cs k v := by
  refine ⟨cs.length, Nat.le_refl _, by rw [upTo_length, h], ?_⟩
  intro i c hi hc
  exact absurd (List.getElem?_eq_some_iff.mp hc).1 (Nat.not_lt.mpr (Nat.le_of_lt hi))

theorem Trails.append (h : Trails cs k v) (hcs' : ∀ c ∈ cs', ¬About c k) :
    Trails (cs ++ cs') k v := by
  obtain ⟨q, hq, hv, hlater⟩ := h
  refine ⟨q, ?_, (upTo_append hq).symm ▸ hv, ?_⟩
  · rw [List.length_append]
    exact Nat.le_add_right_of_le hq
  · intro i c hi hc
    rcases Nat.lt_or_ge i cs.length with hlt | hge
    · rw [List.getElem?_append_left hlt] at hc
      exact hlater i c hi hc
    · rw [List.getElem?_append_right hge] at hc
      exact hcs' c (List.mem_of_getElem? hc)

/-- The message about the key that is being told does not show in the state yet. -/
theorem Trails.told (h : replay (fun _ => none) cs k = v) (c : Change κ σ) :
    Trails (cs ++ [c]) k v := by
  refine ⟨cs.length, ?_, ?_, ?_⟩
  · rw [List.length_append]
    exact Nat.le_add_right ..
  · rw [upTo_append (Nat.le_refl _), upTo_length, h]
  · intro i d hi hd
    have hlt := (List.getElem?_eq_some_iff.mp hd).1
    rw [List.length_append, List.length_singleton] at hlt
    exact absurd hi (Nat.not_lt.mpr (Nat.le_of_lt_succ hlt))

/-- A reader that is shown the state, and is yet to read the last message about
the key, follows the feed. -/
theorem Trails.follows (h : Trails cs k v) (hview : view k = v) {c : Change κ σ}
    (hc : c ∈ cs.drop p) (habout : About c k) : Follows cs p view k := by
  obtain ⟨q, hq, hv, hlater⟩ := h
  obtain ⟨i, hi⟩ := List.mem_iff_getElem?.mp hc
  rw [List.getElem?_drop] at hi
  have hpq : p ≤ q := by
    by_contra hlt
    exact hlater (p + i) c (by omega) hi habout
  exact .ahead q hpq hq (hview.trans hv.symm)

/-- Once the state shows a key that a message has appear, it shows what the feed
came to after that message. -/
theorem Trails.late (h : Trails cs k v) (hvalid : Valid (fun _ => none) cs) {u : σ}
    (hc : cs[p]? = some (.appear k u)) (hv : v ≠ none) :
    ∃ q, p < q ∧ q ≤ cs.length ∧ upTo cs q k = v := by
  obtain ⟨q, hq, hv', hlater⟩ := h
  have hpq : p ≤ q := by
    by_contra hlt
    exact hlater p _ (by omega) hc rfl
  have hne : p ≠ q := by
    rintro rfl
    have hfits : upTo cs p k = none := hvalid.fits hc
    exact hv (hv'.symm.trans hfits)
  exact ⟨q, by omega, hq, hv'⟩

end About

end Feed
