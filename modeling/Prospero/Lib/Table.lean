import Mathlib.Data.List.Sort

namespace Table

variable {ρ κ : Type*} [LinearOrder κ] (key : ρ → κ)

def get (k : κ) (rows : List ρ) : Option ρ :=
  rows.find? fun r => key r = k

def delete (k : κ) (rows : List ρ) : List ρ :=
  rows.filter fun r => key r ≠ k

/-- Rows are kept in the order of their key, one for each. -/
def upsert (row : ρ) (rows : List ρ) : List ρ :=
  (delete key (key row) rows).orderedInsert (fun a b => key a ≤ key b) row

/-- What the first row under a key is changed to, where there is one. -/
def modify (k : κ) (f : ρ → ρ) : List ρ → List ρ
  | [] => []
  | r :: rows => if key r = k then f r :: rows else r :: modify k f rows

variable {key}

theorem get_key {k : κ} {rows : List ρ} {row : ρ} (h : get key k rows = some row) : key row = k := by
  simpa using List.find?_some h

theorem get_mem {k : κ} {rows : List ρ} {row : ρ} (h : get key k rows = some row) : row ∈ rows :=
  List.mem_of_find?_eq_some h

theorem get_eq_none {k : κ} {rows : List ρ} : get key k rows = none ↔ ∀ r ∈ rows, key r ≠ k := by
  simp [get]

theorem get_isSome {rows : List ρ} {row : ρ} (h : row ∈ rows) :
    ∃ r, get key (key row) rows = some r := by
  cases hg : get key (key row) rows with
  | some r => exact ⟨r, rfl⟩
  | none => exact absurd rfl (get_eq_none.mp hg row h)

/-- A key says which row is meant. -/
theorem get_of_mem {rows : List ρ} {row : ρ} (hn : (rows.map key).Nodup) (h : row ∈ rows) :
    get key (key row) rows = some row := by
  obtain ⟨r, hr⟩ : ∃ r, get key (key row) rows = some r := get_isSome h
  rw [hr]
  exact congrArg some (List.inj_on_of_nodup_map hn (get_mem hr) h (get_key hr))

theorem get_iff_mem {k : κ} {rows : List ρ} {row : ρ} (hn : (rows.map key).Nodup) :
    get key k rows = some row ↔ row ∈ rows ∧ key row = k := by
  constructor
  · exact fun h => ⟨get_mem h, get_key h⟩
  · rintro ⟨h, rfl⟩
    exact get_of_mem hn h

@[simp]
theorem get_append {k : κ} {rows more : List ρ} :
    get key k (rows ++ more) = (get key k rows).or (get key k more) :=
  List.find?_append ..

@[simp]
theorem get_singleton {k : κ} {row : ρ} :
    get key k [row] = if key row = k then some row else none := by
  by_cases h : key row = k <;> simp [get, h]

@[simp]
theorem get_delete_self (k : κ) (rows : List ρ) : get key k (delete key k rows) = none :=
  get_eq_none.mpr fun r hr => by simpa using (List.mem_filter.mp hr).2

theorem get_delete_ne {k l : κ} (h : l ≠ k) (rows : List ρ) :
    get key l (delete key k rows) = get key l rows := by
  unfold get delete
  rw [List.find?_filter]
  congr 1
  funext r
  by_cases hr : key r = l
  · subst hr
    simp [h]
  · simp [hr]

/-- What is chosen by its key. -/
theorem get_filter (p : κ → Bool) (k : κ) (rows : List ρ) :
    get key k (rows.filter fun r => p (key r)) = if p k then get key k rows else none := by
  unfold get
  rw [List.find?_filter]
  cases hp : p k with
  | true =>
    rw [if_pos rfl]
    congr 1
    funext r
    by_cases hr : key r = k
    · simp [hr, hp]
    · simp [hr]
  | false =>
    rw [if_neg (by simp), List.find?_eq_none]
    intro r _ hr
    obtain ⟨hpr, rfl⟩ : p (key r) = true ∧ key r = k := by simpa using hr
    exact absurd (hpr.symm.trans hp) (by simp)

theorem delete_ne_self {k : κ} {rows : List ρ} {row : ρ} (h : get key k rows = some row) :
    delete key k rows ≠ rows := by
  intro he
  have hrow := List.filter_eq_self.mp he row (get_mem h)
  exact of_decide_eq_true hrow (get_key h)

theorem delete_keys_sublist (k : κ) (rows : List ρ) :
    ((delete key k rows).map key).Sublist (rows.map key) :=
  (List.filter_sublist).map key

theorem mem_upsert {row r : ρ} {rows : List ρ} :
    r ∈ upsert key row rows ↔ r = row ∨ (r ∈ rows ∧ key r ≠ key row) := by
  simp [upsert, List.mem_orderedInsert, delete]

theorem nodup_upsert (row : ρ) {rows : List ρ} (h : (rows.map key).Nodup) :
    ((upsert key row rows).map key).Nodup := by
  have hp := List.perm_orderedInsert (fun a b => key a ≤ key b) row (delete key (key row) rows)
  rw [upsert, (hp.map key).nodup_iff, List.map_cons, List.nodup_cons]
  refine ⟨?_, h.sublist (delete_keys_sublist _ rows)⟩
  intro hm
  obtain ⟨r, hr, hk⟩ := List.mem_map.mp hm
  exact of_decide_eq_true (List.mem_filter.mp hr).2 hk

theorem get_upsert_self (row : ρ) {rows : List ρ} (h : (rows.map key).Nodup) :
    get key (key row) (upsert key row rows) = some row :=
  get_of_mem (nodup_upsert row h) (mem_upsert.mpr (Or.inl rfl))

theorem get_upsert_ne {row : ρ} {k : κ} {rows : List ρ} (h : (rows.map key).Nodup)
    (hk : k ≠ key row) : get key k (upsert key row rows) = get key k rows := by
  apply Option.ext
  intro r
  rw [get_iff_mem (nodup_upsert row h), get_iff_mem h, mem_upsert]
  constructor
  · rintro ⟨rfl | ⟨hr, -⟩, hrk⟩
    · exact absurd hrk.symm hk
    · exact ⟨hr, hrk⟩
  · rintro ⟨hr, rfl⟩
    exact ⟨Or.inr ⟨hr, hk⟩, rfl⟩

section Modify

variable {k : κ} {f : ρ → ρ}

theorem modify_keys (hf : ∀ r, key (f r) = key r) (rows : List ρ) :
    (modify key k f rows).map key = rows.map key := by
  induction rows with
  | nil => rfl
  | cons r rows ih =>
    unfold modify
    split
    · simp [hf]
    · simp [ih]

theorem get_modify_self (hf : ∀ r, key (f r) = key r) (rows : List ρ) :
    get key k (modify key k f rows) = (get key k rows).map f := by
  induction rows with
  | nil => rfl
  | cons r rows ih =>
    by_cases hk : key r = k
    · simp [modify, get, hk, hf]
    · simpa [modify, get, hk] using ih

theorem get_modify_ne {l : κ} (hf : ∀ r, key (f r) = key r) (h : l ≠ k) (rows : List ρ) :
    get key l (modify key k f rows) = get key l rows := by
  induction rows with
  | nil => rfl
  | cons r rows ih =>
    by_cases hk : key r = k
    · have hl : key r ≠ l := fun he => h (he ▸ hk)
      simp [modify, get, hk, hf, h.symm]
    · by_cases hl : key r = l
      · subst hl
        simp [modify, get, hk]
      · simpa [modify, get, hk, hl] using ih

theorem modify_eq_self {rows : List ρ} {row : ρ} (h : get key k rows = some row) :
    modify key k f rows = rows ↔ f row = row := by
  induction rows with
  | nil => cases h
  | cons r rows ih =>
    by_cases hk : key r = k
    · obtain rfl : r = row := by simpa [get, hk] using h
      simp [modify, hk]
    · rw [get, List.find?_cons_of_neg (by simpa using hk)] at h
      simpa [modify, hk] using ih h

end Modify

end Table
