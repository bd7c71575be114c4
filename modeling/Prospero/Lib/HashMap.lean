import Mathlib.Data.List.AList
import Mathlib.Data.List.Induction
import Mathlib.Tactic.Common
import Prospero.Lib.KeyedLog

/-- A finite map whose values do not depend on their keys. -/
abbrev HashMap (κ ν : Type*) := AList fun _ : κ => ν

namespace HashMap

variable {κ ν : Type*} [DecidableEq κ]

/-- Of two values for one key the later stands. -/
def collect (xs : List (κ × ν)) : HashMap κ ν :=
  xs.foldl (fun t x => t.insert x.1 x.2) ∅

/-- Each item's value, if it has one, under the item's key. -/
def collectBy {α : Type*} (key : α → κ) (value : α → Option ν) (xs : List α) : HashMap κ ν :=
  collect (xs.filterMap fun x => (value x).map fun v => (key x, v))

def eraseAll (ks : List κ) (t : HashMap κ ν) : HashMap κ ν :=
  ks.foldl (fun t k => t.erase k) t

theorem collect_snoc (xs : List (κ × ν)) (x : κ × ν) :
    collect (xs ++ [x]) = (collect xs).insert x.1 x.2 := by
  simp [collect, List.foldl_append]

theorem lookup_collect_absent {xs : List (κ × ν)} {k : κ} (h : k ∉ xs.map Prod.fst) :
    (collect xs).lookup k = none := by
  induction xs using List.reverseRecOn with
  | nil => rfl
  | append_singleton xs x ih =>
    rw [List.map_append, List.mem_append, not_or] at h
    have hne : k ≠ x.1 := fun he => h.2 (List.mem_singleton.mpr he)
    rw [collect_snoc, AList.lookup_insert_ne hne]
    exact ih h.1

/-- Where no key comes twice, each pair is found. -/
theorem lookup_collect {xs : List (κ × ν)} (hxs : (xs.map Prod.fst).Nodup) {x : κ × ν}
    (hx : x ∈ xs) : (collect xs).lookup x.1 = some x.2 := by
  induction xs using List.reverseRecOn with
  | nil => cases hx
  | append_singleton xs y ih =>
    rw [List.map_append, List.nodup_append] at hxs
    obtain ⟨hold, -, hfresh⟩ := hxs
    rw [collect_snoc]
    rcases List.mem_append.mp hx with hx | hx
    · have hne : x.1 ≠ y.1 :=
        hfresh x.1 (List.mem_map_of_mem hx) y.1 (List.mem_singleton.mpr rfl)
      rw [AList.lookup_insert_ne hne]
      exact ih hold hx
    · cases List.mem_singleton.mp hx
      exact AList.lookup_insert _

section CollectBy

variable {α : Type*} {key : α → κ} {value : α → Option ν} {xs : List α}

omit [DecidableEq κ] in
theorem collectBy_keys_sublist : ((xs.filterMap fun x => (value x).map fun v => (key x, v)).map
    Prod.fst).Sublist (xs.map key) := by
  apply KeyedLog.map_filterMap_sublist
  rintro x ⟨k, v⟩ h
  obtain ⟨v', -, he⟩ := Option.map_eq_some_iff.mp h
  cases he
  rfl

theorem lookup_collectBy_absent {k : κ} (h : k ∉ xs.map key) :
    (collectBy key value xs).lookup k = none :=
  lookup_collect_absent fun hk => h (collectBy_keys_sublist.subset hk)

/-- Where the keys are distinct, each item's value is found under its key. -/
theorem lookup_collectBy (hxs : (xs.map key).Nodup) {x : α} (hx : x ∈ xs) :
    (collectBy key value xs).lookup (key x) = value x := by
  cases hv : value x with
  | some v =>
    refine lookup_collect (hxs.sublist collectBy_keys_sublist) (x := (key x, v)) ?_
    exact List.mem_filterMap.mpr ⟨x, hx, by rw [hv]; rfl⟩
  | none =>
    apply lookup_collect_absent
    intro hk
    obtain ⟨⟨k, v⟩, hmem, rfl⟩ := List.mem_map.mp hk
    obtain ⟨y, hy, hpair⟩ := List.mem_filterMap.mp hmem
    obtain ⟨v', hv', he⟩ := Option.map_eq_some_iff.mp hpair
    have hsame : y = x := List.inj_on_of_nodup_map hxs hy hx (congrArg Prod.fst he)
    rw [hsame, hv] at hv'
    cases hv'

/-- Where the value goes by the key alone, it does not matter which item has it. -/
theorem lookup_collectBy_key {g : κ → Option ν} (h : ∀ x ∈ xs, value x = g (key x)) (k : κ) :
    (collectBy key value xs).lookup k = if k ∈ xs.map key then g k else none := by
  induction xs using List.reverseRecOn with
  | nil => rfl
  | append_singleton xs x ih =>
    have hxs := ih fun y hy => h y (List.mem_append_left _ hy)
    have hx := h x (List.mem_append_right _ (List.mem_singleton.mpr rfl))
    unfold collectBy at hxs ⊢
    rw [List.filterMap_append, List.filterMap_cons, List.filterMap_nil]
    by_cases hk : k = key x
    · subst hk
      cases hv : value x with
      | some v =>
        rw [Option.map_some, collect_snoc, AList.lookup_insert, ← hx, hv]
        simp
      | none =>
        rw [Option.map_none, List.append_nil, hxs, ← hx, hv]
        simp
    · cases hv : value x with
      | some v =>
        rw [Option.map_some, collect_snoc, AList.lookup_insert_ne hk, hxs]
        simp [hk]
      | none =>
        rw [Option.map_none, List.append_nil, hxs]
        simp [hk]

end CollectBy

theorem lookup_eraseAll (ks : List κ) (t : HashMap κ ν) (k : κ) :
    (eraseAll ks t).lookup k = if k ∈ ks then none else t.lookup k := by
  induction ks generalizing t with
  | nil => simp [eraseAll]
  | cons a ks ih =>
    have hstep : eraseAll (a :: ks) t = eraseAll ks (t.erase a) := rfl
    rw [hstep, ih]
    by_cases hks : k ∈ ks
    · simp [hks]
    · by_cases ha : k = a
      · subst ha
        simp [hks]
      · simp [hks, ha, AList.lookup_erase_ne ha]

end HashMap
