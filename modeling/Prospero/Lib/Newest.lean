import Mathlib.Data.List.Induction
import Mathlib.Data.List.Perm.Subperm
import Mathlib.Data.List.Sort

namespace Newest

variable {α κ : Type*} [LinearOrder κ] (key : α → κ)

/-- `ORDER BY key DESC` -/
def descending (xs : List α) : List α := xs.insertionSort fun x y => key y ≤ key x

def newest (n : Nat) (xs : List α) : List α := (descending key xs).take n

/-- How many of the entries are newer. -/
def newer (xs : List α) (x : α) : Nat := xs.countP fun y => key x < key y

section Order

variable {key} {n : Nat} {xs ys : List α}

theorem descending_perm (xs : List α) : (descending key xs).Perm xs := List.perm_insertionSort _ _

theorem descending_pairwise (h : (xs.map key).Nodup) :
    (descending key xs).Pairwise fun x y => key y < key x := by
  have htotal : Std.Total fun x y : α => key y ≤ key x := ⟨fun x y => le_total (key y) (key x)⟩
  have htrans : IsTrans α fun x y => key y ≤ key x := ⟨fun _ _ _ hxy hyz => hyz.trans hxy⟩
  have hle : (descending key xs).Pairwise fun x y => key y ≤ key x :=
    List.pairwise_insertionSort _ _
  have hkeys : ((descending key xs).map key).Nodup :=
    ((descending_perm xs).map key).nodup_iff.mpr h
  have hne : (descending key xs).Pairwise fun x y => key x ≠ key y := List.pairwise_map.mp hkeys
  exact (hle.and hne).imp fun hxy => lt_of_le_of_ne hxy.1 (Ne.symm hxy.2)

theorem newest_pairwise (h : (xs.map key).Nodup) :
    (newest key n xs).Pairwise fun x y => key y < key x :=
  (descending_pairwise h).sublist (List.take_sublist _ _)

theorem newest_length (xs : List α) : (newest key n xs).length ≤ n := List.length_take_le n _

theorem newer_perm (h : xs.Perm ys) (x : α) : newer key xs x = newer key ys x := h.countP_eq _

/-- In a descending list those stand first that have few before them. -/
theorem mem_take {x : α} (h : xs.Pairwise fun x y => key y < key x) :
    x ∈ xs.take n ↔ x ∈ xs ∧ newer key xs x < n := by
  induction xs generalizing n with
  | nil => simp
  | cons a xs ih =>
    obtain ⟨hhead, htail⟩ := List.pairwise_cons.mp h
    cases n with
    | zero => simp
    | succ n =>
      rw [List.take_succ_cons, List.mem_cons, List.mem_cons, ih htail]
      have hfirst : newer key (a :: xs) a = 0 := by
        rw [newer, List.countP_eq_zero]
        intro y hy
        rcases List.mem_cons.mp hy with rfl | hy
        · simp
        · simpa using (hhead y hy).le
      have hlater : ∀ y ∈ xs, newer key (a :: xs) y = newer key xs y + 1 := by
        intro y hy
        rw [newer, List.countP_cons_of_pos (by simpa using hhead y hy)]
        rfl
      constructor
      · rintro (rfl | ⟨hx, hlt⟩)
        · exact ⟨Or.inl rfl, by omega⟩
        · exact ⟨Or.inr hx, by rw [hlater x hx]; omega⟩
      · rintro ⟨rfl | hx, hlt⟩
        · exact Or.inl rfl
        · rw [hlater x hx] at hlt
          exact Or.inr ⟨hx, by omega⟩

theorem mem_newest {x : α} (h : (xs.map key).Nodup) :
    x ∈ newest key n xs ↔ x ∈ xs ∧ newer key xs x < n := by
  rw [newest, mem_take (descending_pairwise h), (descending_perm xs).mem_iff,
    newer_perm (descending_perm xs)]

/-- A descending list is its entries. -/
theorem eq_of_mem_iff (hx : xs.Pairwise fun x y => key y < key x)
    (hy : ys.Pairwise fun x y => key y < key x) (h : ∀ x, x ∈ xs ↔ x ∈ ys) : xs = ys := by
  have hnodup : ∀ {zs : List α}, (zs.Pairwise fun x y => key y < key x) → zs.Nodup :=
    fun hz => hz.imp fun hlt he => absurd (congrArg key he) hlt.ne'
  have hperm : xs.Perm ys := (List.perm_ext_iff_of_nodup (hnodup hx) (hnodup hy)).mpr h
  exact hperm.eq_of_pairwise (fun a b _ _ hab hba => absurd (hab.trans hba) (lt_irrefl _)) hx hy

theorem descending_of_pairwise (h : xs.Pairwise fun x y => key y < key x) :
    descending key xs = xs := by
  have hkeys : (xs.map key).Nodup := by
    rw [List.Nodup, List.pairwise_map]
    exact h.imp fun hlt => hlt.ne'
  exact eq_of_mem_iff (descending_pairwise hkeys) h fun x => (descending_perm xs).mem_iff

end Order

section Kept

/-- What is left of the entries still has their newest `n`. -/
structure Kept (n : Nat) (xs ys : List α) : Prop where
  sub : ys.Subperm xs
  newer : ∀ x ∈ xs, x ∉ ys → n ≤ newer key ys x

variable {key} {n : Nat} {xs ys : List α}

theorem Kept.refl (xs : List α) : Kept key n xs xs :=
  ⟨List.Subperm.refl xs, fun _ hx hnot => absurd hx hnot⟩

theorem Kept.nodup (h : Kept key n xs ys) (hd : (xs.map key).Nodup) : (ys.map key).Nodup := by
  obtain ⟨zs, hperm, hsub⟩ := h.sub
  exact (hperm.map key).nodup_iff.mp (hd.sublist (hsub.map key))

theorem Kept.snoc (h : Kept key n xs ys) (x : α) : Kept key n (xs ++ [x]) (ys ++ [x]) := by
  refine ⟨h.sub.append (List.Subperm.refl [x]), ?_⟩
  intro z hz hnot
  rcases List.mem_append.mp hz with hz | hz
  · have hold := h.newer z hz fun hy => hnot (List.mem_append_left _ hy)
    have happend : Newest.newer key ys z ≤ Newest.newer key (ys ++ [x]) z :=
      (List.sublist_append_left ys [x]).countP_le
    exact hold.trans happend
  · exact absurd (List.mem_append_right ys hz) hnot

/-- The older of two entries has no fewer newer ones. -/
theorem newer_anti {x y : α} (h : key x ≤ key y) (xs : List α) :
    Newest.newer key xs y ≤ Newest.newer key xs x := by
  apply List.countP_mono_left
  intro z _ hz
  simp only [decide_eq_true_eq] at hz ⊢
  exact h.trans_lt hz

/-- An entry with fewer than `n` newer ones among all has not been dropped. -/
theorem Kept.mem_iff (h : Kept key n xs ys) (hd : (xs.map key).Nodup) {x : α} :
    x ∈ ys ∧ Newest.newer key ys x < n ↔ x ∈ xs ∧ Newest.newer key xs x < n := by
  constructor
  · rintro ⟨hx, hlt⟩
    refine ⟨h.sub.subset hx, ?_⟩
    -- one that was dropped would have `n` newer ones, all newer than `x`
    have hall : ∀ y ∈ xs, key x < key y → y ∈ ys := by
      intro y hy hxy
      by_contra hnot
      have hcount := h.newer y hy hnot
      have hmono := newer_anti hxy.le ys
      omega
    have hsub : (xs.filter fun y => key x < key y).Subperm (ys.filter fun y => key x < key y) := by
      apply List.subperm_of_subset ((List.Nodup.of_map key hd).filter _)
      intro y hy
      obtain ⟨hy, hxy⟩ := List.mem_filter.mp hy
      exact List.mem_filter.mpr ⟨hall y hy (of_decide_eq_true hxy), hxy⟩
    have hle := hsub.length_le
    rw [← List.countP_eq_length_filter, ← List.countP_eq_length_filter] at hle
    exact lt_of_le_of_lt hle hlt
  · rintro ⟨hx, hlt⟩
    have hle : Newest.newer key ys x ≤ Newest.newer key xs x := h.sub.countP_le _
    have hmem : x ∈ ys := by
      by_contra hnot
      have hcount := h.newer x hx hnot
      omega
    exact ⟨hmem, lt_of_le_of_lt hle hlt⟩

/-- The newest of what is left are the newest of all. -/
theorem Kept.newest_eq (h : Kept key n xs ys) (hd : (xs.map key).Nodup) :
    newest key n ys = newest key n xs := by
  apply eq_of_mem_iff (newest_pairwise (h.nodup hd)) (newest_pairwise hd)
  intro x
  rw [mem_newest (h.nodup hd), mem_newest hd, h.mem_iff hd]

/-- What has `n` newer ones has them among the newest `n`. -/
theorem newer_newest (hd : (xs.map key).Nodup) {x : α} (h : n ≤ Newest.newer key xs x) :
    n ≤ Newest.newer key (newest key n xs) x := by
  have hall : ∀ y ∈ newest key n xs, key x < key y := by
    intro y hy
    by_contra hnot
    have hcount := ((mem_newest hd).mp hy).2
    have hmono := newer_anti (not_lt.mp hnot) xs
    omega
  have hlength : (descending key xs).length = xs.length := (descending_perm xs).length_eq
  have hfit : Newest.newer key xs x ≤ xs.length := List.countP_le_length
  rw [Newest.newer, List.countP_eq_length.mpr (by simpa using hall), newest, List.length_take,
    hlength]
  omega

/-- So the rest may go. -/
theorem Kept.trim (h : Kept key n xs ys) (hd : (xs.map key).Nodup) :
    Kept key n xs (newest key n ys) := by
  refine ⟨?_, ?_⟩
  · exact ((List.take_sublist n _).subperm.trans (descending_perm ys).subperm).trans h.sub
  · intro x hx hnot
    apply newer_newest (h.nodup hd)
    by_cases hy : x ∈ ys
    · by_contra hlt
      exact hnot ((mem_newest (h.nodup hd)).mpr ⟨hy, not_le.mp hlt⟩)
    · exact h.newer x hx hy

end Kept

end Newest
