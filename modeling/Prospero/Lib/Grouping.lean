import Mathlib.Algebra.BigOperators.Group.List.Basic
import Mathlib.Data.List.Dedup
import Mathlib.Data.List.Induction
import Prospero.Lib.Table

namespace Grouping

variable {ρ α κ : Type*} [LinearOrder κ]

/-- `GROUP BY key ORDER BY key`: what each group comes to. -/
def groupBy (key : ρ → κ) (agg : κ → List ρ → α) (rows : List ρ) : List α :=
  ((rows.map key).dedup.insertionSort (· ≤ ·)).map fun k => agg k (rows.filter fun r => key r = k)

/-- An entry of an ordered map is changed, from `new` where there is none. -/
def put (keyOf : α → κ) (k : κ) (new : α) (f : α → α) : List α → List α
  | [] => [f new]
  | a :: as =>
    if keyOf a = k then f a :: as
    else if keyOf a < k then a :: put keyOf k new f as
    else f new :: a :: as

section GroupBy

variable {key : ρ → κ} {agg : κ → List ρ → α} {rows : List ρ}

theorem mem_groupBy {a : α} : a ∈ groupBy key agg rows ↔
    ∃ r ∈ rows, a = agg (key r) (rows.filter fun q => key q = key r) := by
  simp only [groupBy, List.mem_map, List.mem_insertionSort, List.mem_dedup]
  constructor
  · rintro ⟨k, ⟨r, hr, rfl⟩, rfl⟩
    exact ⟨r, hr, rfl⟩
  · rintro ⟨r, hr, rfl⟩
    exact ⟨key r, ⟨r, hr, rfl⟩, rfl⟩

/-- Only the keys of the rows themselves matter. -/
theorem groupBy_congr {key' : ρ → κ} (h : ∀ r ∈ rows, key r = key' r) :
    groupBy key agg rows = groupBy key' agg rows := by
  unfold groupBy
  rw [List.map_congr_left h]
  refine List.map_congr_left fun k _ => congrArg (agg k) (List.filter_congr ?_)
  intro r hr
  rw [h r hr]

theorem groupBy_map {σ : Type*} (g : σ → ρ) (rows : List σ) :
    groupBy key agg (rows.map g) =
      groupBy (fun r => key (g r)) (fun k rs => agg k (rs.map g)) rows := by
  simp only [groupBy, List.map_map, List.filter_map, Function.comp_def]

/-- A total that is worked out and may fail, and does not. -/
theorem mapM_groupBy {ε β : Type*} {f : α → Except ε β} {agg' : κ → List ρ → β}
    (h : ∀ k rs, f (agg k rs) = .ok (agg' k rs)) :
    (groupBy key agg rows).mapM f = .ok (groupBy key agg' rows) := by
  unfold groupBy
  generalize (rows.map key).dedup.insertionSort (· ≤ ·) = ks
  induction ks with
  | nil => rfl
  | cons k ks ih =>
    rw [List.map_cons, List.mapM_cons, h, ih]
    rfl

theorem keys_pairwise (ks : List κ) :
    (ks.dedup.insertionSort (· ≤ ·)).Pairwise (· < ·) := by
  have hle : (ks.dedup.insertionSort (· ≤ ·)).Pairwise (· ≤ ·) := List.pairwise_insertionSort _ _
  have hne : (ks.dedup.insertionSort (· ≤ ·)).Nodup :=
    (List.perm_insertionSort _ _).nodup_iff.mpr (List.nodup_dedup ks)
  exact (hle.and hne).imp fun h => lt_of_le_of_ne h.1 h.2

theorem groupBy_pairwise (rows : List ρ) {keyOf : α → κ} (hagg : ∀ k rs, keyOf (agg k rs) = k) :
    (groupBy key agg rows).Pairwise fun a b => keyOf a < keyOf b := by
  rw [groupBy, List.pairwise_map]
  simpa only [hagg] using keys_pairwise (rows.map key)

/-- The order of the rows matters only where it does within a group. -/
theorem groupBy_perm {rows' : List ρ} (h : rows.Perm rows')
    (hagg : ∀ k, agg k (rows.filter fun r => key r = k) = agg k (rows'.filter fun r => key r = k)) :
    groupBy key agg rows = groupBy key agg rows' := by
  have hkeys : (rows.map key).dedup.insertionSort (· ≤ ·) =
      (rows'.map key).dedup.insertionSort (· ≤ ·) := by
    have hperm : ((rows.map key).dedup.insertionSort (· ≤ ·)).Perm
        ((rows'.map key).dedup.insertionSort (· ≤ ·)) :=
      calc ((rows.map key).dedup.insertionSort (· ≤ ·)).Perm (rows.map key).dedup :=
            List.perm_insertionSort _ _
        _ |>.Perm (rows'.map key).dedup := (h.map key).dedup
        _ |>.Perm ((rows'.map key).dedup.insertionSort (· ≤ ·)) :=
            (List.perm_insertionSort _ _).symm
    exact hperm.eq_of_pairwise (fun _ _ _ _ hab hba => absurd (hab.trans hba) (lt_irrefl _))
      (keys_pairwise _) (keys_pairwise _)
  unfold groupBy
  rw [hkeys]
  exact List.map_congr_left fun k _ => hagg k

end GroupBy

section Put

variable {keyOf : α → κ} {k : κ} {new : α} {f : α → α} {as : List α}

theorem keys_nodup (h : as.Pairwise fun a b => keyOf a < keyOf b) : (as.map keyOf).Nodup := by
  rw [List.Nodup, List.pairwise_map]
  exact h.imp ne_of_lt

/-- In an ordered map the entry of the key is changed, and every other kept. -/
theorem mem_put (h : as.Pairwise fun a b => keyOf a < keyOf b) {b : α} :
    b ∈ put keyOf k new f as ↔
      (b ∈ as ∧ keyOf b ≠ k) ∨ b = f ((Table.get keyOf k as).getD new) := by
  induction as with
  | nil => simp [put, Table.get]
  | cons a as ih =>
    obtain ⟨hlt, hrest⟩ := List.pairwise_cons.mp h
    unfold put
    split
    · rename_i hk
      have hother : ∀ c ∈ as, keyOf c ≠ k := fun c hc => hk ▸ (ne_of_lt (hlt c hc)).symm
      have hget : Table.get keyOf k (a :: as) = some a := by simp [Table.get, hk]
      rw [hget, List.mem_cons, Option.getD_some]
      constructor
      · rintro (rfl | hb)
        · exact Or.inr rfl
        · exact Or.inl ⟨List.mem_cons_of_mem a hb, hother b hb⟩
      · rintro (⟨hb, hne⟩ | rfl)
        · rcases List.mem_cons.mp hb with rfl | hb
          · exact absurd hk hne
          · exact Or.inr hb
        · exact Or.inl rfl
    · rename_i hk
      have hget : Table.get keyOf k (a :: as) = Table.get keyOf k as := by simp [Table.get, hk]
      rw [hget]
      split
      · rw [List.mem_cons, ih hrest, List.mem_cons]
        constructor
        · rintro (rfl | ⟨hb, hne⟩ | hb)
          · exact Or.inl ⟨Or.inl rfl, hk⟩
          · exact Or.inl ⟨Or.inr hb, hne⟩
          · exact Or.inr hb
        · rintro (⟨rfl | hb, hne⟩ | hb)
          · exact Or.inl rfl
          · exact Or.inr (Or.inl ⟨hb, hne⟩)
          · exact Or.inr (Or.inr hb)
      · rename_i hnlt
        have hgt : k < keyOf a := lt_of_le_of_ne (not_lt.mp hnlt) (Ne.symm hk)
        have hother : ∀ c ∈ as, keyOf c ≠ k :=
          fun c hc => (ne_of_lt (hgt.trans (hlt c hc))).symm
        rw [Table.get_eq_none.mpr hother, Option.getD_none, List.mem_cons]
        constructor
        · rintro (rfl | hb)
          · exact Or.inr rfl
          · refine Or.inl ⟨hb, ?_⟩
            rcases List.mem_cons.mp hb with rfl | hb
            · exact hk
            · exact hother b hb
        · rintro (⟨hb, -⟩ | rfl)
          · exact Or.inr hb
          · exact Or.inl rfl

theorem put_pairwise (hnew : keyOf new = k) (hf : ∀ a, keyOf (f a) = keyOf a)
    (h : as.Pairwise fun a b => keyOf a < keyOf b) :
    (put keyOf k new f as).Pairwise fun a b => keyOf a < keyOf b := by
  induction as with
  | nil => exact List.pairwise_singleton _ _
  | cons a as ih =>
    obtain ⟨hlt, hrest⟩ := List.pairwise_cons.mp h
    unfold put
    split
    · refine List.pairwise_cons.mpr ⟨?_, hrest⟩
      intro b hb
      rw [hf]
      exact hlt b hb
    · rename_i hk
      split
      · rename_i hak
        refine List.pairwise_cons.mpr ⟨?_, ih hrest⟩
        intro b hb
        rcases (mem_put hrest).mp hb with ⟨hb, -⟩ | rfl
        · exact hlt b hb
        · cases hget : Table.get keyOf k as with
          | none =>
            rw [Option.getD_none, hf, hnew]
            exact hak
          | some c =>
            rw [Option.getD_some, hf]
            exact hlt c (Table.get_mem hget)
      · rename_i hnlt
        have hgt : k < keyOf a := lt_of_le_of_ne (not_lt.mp hnlt) (Ne.symm hk)
        refine List.pairwise_cons.mpr ⟨?_, h⟩
        intro b hb
        rw [hf, hnew]
        rcases List.mem_cons.mp hb with rfl | hb
        · exact hgt
        · exact hgt.trans (hlt b hb)

section Sum

variable {N : Type*} [AddCommMonoid N] {figure : α → N} {n : N}

theorem sum_put (hnew : figure new = 0) (hf : ∀ a, figure (f a) = figure a + n) (as : List α) :
    ((put keyOf k new f as).map figure).sum = (as.map figure).sum + n := by
  induction as with
  | nil => simp [put, hf, hnew]
  | cons a as ih =>
    unfold put
    split
    · rw [List.map_cons, List.sum_cons, hf, List.map_cons, List.sum_cons, add_right_comm]
    · split
      · rw [List.map_cons, List.sum_cons, ih, List.map_cons, List.sum_cons, add_assoc]
      · rw [List.map_cons, List.sum_cons, hf, hnew, zero_add, add_comm]

/-- What the rows are worth is in the entries, however the map gathers them. -/
theorem sum_foldl_put {keyOf : α → κ} {new : κ → α} {f : α → ρ → α} {amount : ρ → N}
    (figure : α → N) (key : ρ → κ) (hnew : ∀ k, figure (new k) = 0)
    (hf : ∀ a r, figure (f a r) = figure a + amount r) (rows : List ρ) :
    ((rows.foldl (fun acc r => put keyOf (key r) (new (key r)) (fun a => f a r) acc) []).map
      figure).sum = (rows.map amount).sum := by
  induction rows using List.reverseRecOn with
  | nil => rfl
  | append_singleton rows r ih =>
    rw [List.foldl_append, List.foldl_cons, List.foldl_nil, sum_put (hnew _) fun a => hf a r, ih,
      List.map_append, List.map_singleton, List.sum_append, List.sum_singleton]

end Sum

end Put

/-- An ordered map is its entries. -/
theorem eq_of_mem_iff {keyOf : α → κ} {as bs : List α}
    (ha : as.Pairwise fun a b => keyOf a < keyOf b) (hb : bs.Pairwise fun a b => keyOf a < keyOf b)
    (h : ∀ c, c ∈ as ↔ c ∈ bs) : as = bs := by
  have hnodup : ∀ {cs : List α}, (cs.Pairwise fun a b => keyOf a < keyOf b) → cs.Nodup :=
    fun hc => hc.imp fun hlt he => absurd (congrArg keyOf he) (ne_of_lt hlt)
  have hperm : as.Perm bs := (List.perm_ext_iff_of_nodup (hnodup ha) (hnodup hb)).mpr h
  exact hperm.eq_of_pairwise (fun a b _ _ hab hba => absurd (hab.trans hba) (lt_irrefl _)) ha hb

section Fold

variable {keyOf : α → κ} {key : ρ → κ} {new : κ → α} {f : α → ρ → α}

omit [LinearOrder κ] in
theorem keyOf_foldl (hf : ∀ a r, keyOf (f a r) = keyOf a) (rs : List ρ) (a : α) :
    keyOf (rs.foldl f a) = keyOf a := by
  induction rs generalizing a with
  | nil => rfl
  | cons r rs ih => exact (ih (f a r)).trans (hf a r)

theorem get_groupBy (hnew : ∀ k, keyOf (new k) = k) (hf : ∀ a r, keyOf (f a r) = keyOf a)
    (k : κ) (rows : List ρ) :
    (Table.get keyOf k (groupBy key (fun k rs => rs.foldl f (new k)) rows)).getD (new k) =
      (rows.filter fun r => key r = k).foldl f (new k) := by
  have hagg : ∀ k (rs : List ρ), keyOf (rs.foldl f (new k)) = k :=
    fun k rs => (keyOf_foldl hf rs (new k)).trans (hnew k)
  have hsorted : (groupBy key (fun k rs => rs.foldl f (new k)) rows).Pairwise
      fun a b => keyOf a < keyOf b := groupBy_pairwise rows hagg
  by_cases hk : ∃ r ∈ rows, key r = k
  · obtain ⟨r, hr, rfl⟩ := hk
    have hmem : (rows.filter fun q => key q = key r).foldl f (new (key r)) ∈
        groupBy key (fun k rs => rs.foldl f (new k)) rows := mem_groupBy.mpr ⟨r, hr, rfl⟩
    have hget := Table.get_of_mem (keys_nodup hsorted) hmem
    rw [hagg] at hget
    rw [hget, Option.getD_some]
  · have hno : ∀ r ∈ rows, key r ≠ k := fun r hr he => hk ⟨r, hr, he⟩
    have hget : Table.get keyOf k (groupBy key (fun k rs => rs.foldl f (new k)) rows) = none := by
      rw [Table.get_eq_none]
      intro a ha
      obtain ⟨r, hr, rfl⟩ := mem_groupBy.mp ha
      rw [hagg]
      exact hno r hr
    have hempty : rows.filter (fun r => key r = k) = [] :=
      List.filter_eq_nil_iff.mpr fun r hr => by simpa using hno r hr
    rw [hget, hempty, Option.getD_none, List.foldl_nil]

/-- Counting row by row into an ordered map comes to the groups' totals. -/
theorem foldl_put (key : ρ → κ) (hnew : ∀ k, keyOf (new k) = k) (hf : ∀ a r, keyOf (f a r) = keyOf a)
    (rows : List ρ) :
    rows.foldl (fun acc r => put keyOf (key r) (new (key r)) (fun a => f a r) acc) [] =
      groupBy key (fun k rs => rs.foldl f (new k)) rows := by
  have hagg : ∀ k (rs : List ρ), keyOf (rs.foldl f (new k)) = k :=
    fun k rs => (keyOf_foldl hf rs (new k)).trans (hnew k)
  induction rows using List.reverseRecOn with
  | nil => rfl
  | append_singleton rows r ih =>
    rw [List.foldl_append, List.foldl_cons, List.foldl_nil, ih]
    have hsorted : (groupBy key (fun k rs => rs.foldl f (new k)) rows).Pairwise
      fun a b => keyOf a < keyOf b := groupBy_pairwise rows hagg
    apply eq_of_mem_iff (put_pairwise (hnew _) (fun a => hf a r) hsorted) (groupBy_pairwise _ hagg)
    intro c
    rw [mem_put hsorted, get_groupBy hnew hf]
    have hhere : ((rows ++ [r]).filter fun q => key q = key r) =
        (rows.filter fun q => key q = key r) ++ [r] := by simp
    have helse : ∀ k, k ≠ key r → ((rows ++ [r]).filter fun q => key q = k) =
        rows.filter fun q => key q = k := by
      intro k hk
      simp [Ne.symm hk]
    constructor
    · rintro (⟨hc, hne⟩ | rfl)
      · obtain ⟨q, hq, rfl⟩ := mem_groupBy.mp hc
        rw [hagg] at hne
        refine mem_groupBy.mpr ⟨q, List.mem_append_left _ hq, ?_⟩
        rw [helse _ hne]
      · refine mem_groupBy.mpr ⟨r, List.mem_append_right _ (List.mem_singleton_self r), ?_⟩
        rw [hhere, List.foldl_append, List.foldl_cons, List.foldl_nil]
    · intro hc
      obtain ⟨q, hq, rfl⟩ := mem_groupBy.mp hc
      by_cases hk : key q = key r
      · right
        rw [hk, hhere, List.foldl_append, List.foldl_cons, List.foldl_nil]
      · left
        have hq' : q ∈ rows := by
          rcases List.mem_append.mp hq with hq | hq
          · exact hq
          · exact absurd (congrArg key (List.mem_singleton.mp hq)) hk
        refine ⟨mem_groupBy.mpr ⟨q, hq', ?_⟩, ?_⟩
        · rw [helse _ hk]
        · rw [hagg]
          exact hk

end Fold

end Grouping
