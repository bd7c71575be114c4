import Mathlib.Data.List.Basic
import Mathlib.Data.List.Forall2
import Mathlib.Data.String.Basic

namespace FixedWidth

section Order

variable {α : Type*} [LT α] {a b c d : List α}

/-- Columns of one width are compared left to right. -/
theorem append_lt_append (h : a.length = b.length) :
    a ++ c < b ++ d ↔ a < b ∨ a = b ∧ c < d := by
  induction a generalizing b with
  | nil =>
    obtain rfl := List.length_eq_zero_iff.mp h.symm
    simp
  | cons x a ih =>
    cases b with
    | nil => cases h
    | cons y b =>
      simp only [List.cons_append, List.cons_lt_cons_iff, ih (Nat.succ.inj h), List.cons.injEq]
      constructor
      · rintro (hxy | ⟨rfl, hab | ⟨rfl, hcd⟩⟩)
        · exact Or.inl (Or.inl hxy)
        · exact Or.inl (Or.inr ⟨rfl, hab⟩)
        · exact Or.inr ⟨⟨rfl, rfl⟩, hcd⟩
      · rintro ((hxy | ⟨rfl, hab⟩) | ⟨⟨rfl, rfl⟩, hcd⟩)
        · exact Or.inl hxy
        · exact Or.inr ⟨rfl, Or.inl hab⟩
        · exact Or.inr ⟨rfl, Or.inr ⟨rfl, hcd⟩⟩

end Order

section Digits

/-- The last `w` decimal digits of a number. -/
def digits : Nat → Nat → List Char
  | 0, _ => []
  | w + 1, n => digits w (n / 10) ++ [Nat.digitChar (n % 10)]

variable {w m n : Nat}

@[simp] theorem length_digits (w n : Nat) : (digits w n).length = w := by
  induction w generalizing n with
  | zero => rfl
  | succ w ih => simp [digits, ih]

theorem digits_forall {p : Char → Prop} (h : ∀ d < 10, p (Nat.digitChar d)) (w n : Nat) :
    ∀ ch ∈ digits w n, p ch := by
  induction w generalizing n with
  | zero => simp [digits]
  | succ w ih =>
    intro ch hch
    rcases List.mem_append.mp hch with hmem | hmem
    · exact ih (n / 10) ch hmem
    · rw [List.mem_singleton.mp hmem]
      exact h _ (Nat.mod_lt n (by decide))

/-- The number that digits spell. -/
def value (cs : List Char) : Nat := cs.foldl (fun n c => 10 * n + (c.toNat - 48)) 0

theorem value_append (cs : List Char) (c : Char) :
    value (cs ++ [c]) = 10 * value cs + (c.toNat - 48) := by
  simp [value]

theorem digitChar_value : ∀ a < 10, (Nat.digitChar a).toNat - 48 = a := by decide

theorem digitChar_lt : ∀ a < 10, ∀ b < 10, Nat.digitChar a < Nat.digitChar b ↔ a < b := by decide

theorem div_fits (h : n < 10 ^ (w + 1)) : n / 10 < 10 ^ w := by
  rw [pow_succ, mul_comm] at h
  exact Nat.div_lt_of_lt_mul h

theorem value_digits (h : n < 10 ^ w) : value (digits w n) = n := by
  induction w generalizing n with
  | zero => simp_all [digits, value]
  | succ w ih =>
    rw [digits, value_append, ih (div_fits h), digitChar_value _ (Nat.mod_lt n (by decide))]
    omega

theorem digits_inj (hm : m < 10 ^ w) (hn : n < 10 ^ w) : digits w m = digits w n ↔ m = n := by
  constructor
  · intro h
    rw [← value_digits hm, h, value_digits hn]
  · rintro rfl
    rfl

theorem digits_lt (hm : m < 10 ^ w) (hn : n < 10 ^ w) : digits w m < digits w n ↔ m < n := by
  induction w generalizing m n with
  | zero => simp_all [digits]
  | succ w ih =>
    rw [digits, digits, append_lt_append (by simp), ih (div_fits hm) (div_fits hn),
      digits_inj (div_fits hm) (div_fits hn)]
    simp only [List.cons_lt_cons_iff, List.not_lt_nil, and_false, or_false,
      digitChar_lt _ (Nat.mod_lt m (by decide)) _ (Nat.mod_lt n (by decide))]
    omega

theorem digits_add (w v n : Nat) :
    digits (w + v) n = digits w (n / 10 ^ v) ++ digits v (n % 10 ^ v) := by
  induction v generalizing n with
  | zero => simp [digits]
  | succ v ih =>
    have hhigh : n / 10 / 10 ^ v = n / 10 ^ (v + 1) := by rw [Nat.div_div_eq_div_mul, pow_succ']
    have hlow : n % 10 ^ (v + 1) / 10 = n / 10 % 10 ^ v := by rw [pow_succ', Nat.mod_mul_right_div_self]
    have hlast : n % 10 ^ (v + 1) % 10 = n % 10 :=
      Nat.mod_mod_of_dvd n ⟨10 ^ v, pow_succ' 10 v⟩
    rw [← Nat.add_assoc, digits, digits, ih, hhigh, hlow, hlast, List.append_assoc]

/-- A mark that sorts before every digit. -/
def Below (mark : Char) : Prop := ∀ d < 10, mark < Nat.digitChar d

theorem mark_lt_digits {mark : Char} (hmark : Below mark) (v n : Nat) (r s : List Char) :
    mark :: r < digits (v + 1) n ++ s := by
  rw [Nat.add_comm, digits_add]
  exact List.Lex.rel (hmark _ (Nat.mod_lt _ (by decide)))

section Widths

variable {mark : Char} {v : Nat} {r s : List Char}

/-- Digits that end where others of the same number of leading columns go on. -/
theorem short_lt_long (hmark : Below mark) (hm : m < 10 ^ w) (hn : n < 10 ^ (w + (v + 1))) :
    digits w m ++ mark :: r < digits (w + (v + 1)) n ++ s ↔ m ≤ n / 10 ^ (v + 1) := by
  have hq : n / 10 ^ (v + 1) < 10 ^ w := by
    rw [Nat.pow_add, Nat.mul_comm] at hn
    exact Nat.div_lt_of_lt_mul hn
  have hshort := mark_lt_digits hmark v (n % 10 ^ (v + 1)) r s
  rw [digits_add, List.append_assoc, append_lt_append (by simp), digits_lt hm hq, digits_inj hm hq]
  simp only [hshort, and_true]
  omega

theorem long_lt_short (hmark : Below mark) (hm : m < 10 ^ w) (hn : n < 10 ^ (w + (v + 1))) :
    digits (w + (v + 1)) n ++ s < digits w m ++ mark :: r ↔ n / 10 ^ (v + 1) < m := by
  have hq : n / 10 ^ (v + 1) < 10 ^ w := by
    rw [Nat.pow_add, Nat.mul_comm] at hn
    exact Nat.div_lt_of_lt_mul hn
  have hshort := mark_lt_digits hmark v (n % 10 ^ (v + 1)) r s
  rw [digits_add, List.append_assoc, append_lt_append (by simp), digits_lt hq hm]
  simp only [lt_asymm hshort, and_false, or_false]

/-- Fractions sort by their value, when a longer one has no more zeros than it must. -/
theorem fraction_lt {w' v v' u : Nat} (hmark : Below mark) (hw : w + v = u) (hw' : w' + v' = u)
    (hm : m < 10 ^ u) (hn : n < 10 ^ u) (hm0 : m % 10 ^ v = 0) (hn0 : n % 10 ^ v' = 0)
    (hlong : v' < v → n % 10 ^ v ≠ 0) :
    digits w (m / 10 ^ v) ++ mark :: r < digits w' (n / 10 ^ v') ++ mark :: r ↔ m < n := by
  have hfit : ∀ {k x : Nat} (l : Nat), l + k = u → x < 10 ^ u → x / 10 ^ k < 10 ^ l := by
    intro k x l hl hx
    rw [← hl, Nat.pow_add, Nat.mul_comm] at hx
    exact Nat.div_lt_of_lt_mul hx
  have hwhole : ∀ {k x : Nat}, x % 10 ^ k = 0 → 10 ^ k * (x / 10 ^ k) = x :=
    fun h => Nat.mul_div_cancel' (Nat.dvd_of_mod_eq_zero h)
  rcases lt_trichotomy v v' with hlt | rfl | hgt
  · obtain ⟨k, hk⟩ : ∃ k, v' = v + (k + 1) := ⟨v' - v - 1, by omega⟩
    have hw'' : w = w' + (k + 1) := by omega
    have hdiv : m / 10 ^ v / 10 ^ (k + 1) = m / 10 ^ v' := by
      rw [Nat.div_div_eq_div_mul, ← pow_add, hk]
    rw [hw'', long_lt_short hmark (hfit w' hw' hn) (hw'' ▸ hfit w hw hm), hdiv]
    constructor
    · intro h
      exact lt_of_not_ge fun hle => absurd (Nat.div_le_div_right hle) (not_le.mpr h)
    · intro h
      exact Nat.div_lt_of_lt_mul (by rwa [hwhole hn0])
  · have hww : w = w' := by omega
    subst hww
    rw [append_lt_append (by simp), digits_lt (hfit w hw hm) (hfit w hw hn)]
    simp only [lt_irrefl, and_false, or_false]
    constructor
    · intro h
      exact lt_of_not_ge fun hle => absurd (Nat.div_le_div_right hle) (not_le.mpr h)
    · intro h
      exact Nat.div_lt_of_lt_mul (by rwa [hwhole hn0])
  · obtain ⟨k, hk⟩ : ∃ k, v = v' + (k + 1) := ⟨v - v' - 1, by omega⟩
    have hw'' : w' = w + (k + 1) := by omega
    have hdiv : n / 10 ^ v' / 10 ^ (k + 1) = n / 10 ^ v := by
      rw [Nat.div_div_eq_div_mul, ← pow_add, hk]
    rw [hw'', short_lt_long hmark (hfit w hw hm) (hw'' ▸ hfit w' hw' hn), hdiv]
    constructor
    · intro h
      have hle := Nat.mul_le_mul_left (10 ^ v) h
      have hdm := Nat.div_add_mod n (10 ^ v)
      have hpos := Nat.pos_of_ne_zero (hlong hgt)
      rw [hwhole hm0] at hle
      omega
    · intro h
      exact Nat.div_le_div_right h.le

end Widths

end Digits

/-- Numbers written out in columns of given widths, each closed by its mark. -/
def render : List (Nat × Char) → List Nat → List Char
  | (w, mark) :: layout, n :: fields => digits w n ++ mark :: render layout fields
  | _, _ => []

/-- Reads numbers out of their columns. -/
def scan : List (Nat × Char) → List Char → Option (List Nat)
  | [], [] => some []
  | [], _ :: _ => none
  | (w, mark) :: layout, cs =>
    match cs.drop w with
    | [] => none
    | c :: rest =>
      if c = mark then (scan layout rest).map fun fields => value (cs.take w) :: fields else none

/-- Each number fits its column. -/
def Fits (layout : List (Nat × Char)) (fields : List Nat) : Prop :=
  List.Forall₂ (fun column n => n < 10 ^ column.1) layout fields

section Render

variable {layout : List (Nat × Char)} {ms ns : List Nat}

theorem scan_render (h : Fits layout ns) : scan layout (render layout ns) = some ns := by
  induction h with
  | nil => rfl
  | cons hfit _ ih =>
    rw [render, scan, List.drop_left' (length_digits ..), List.take_left' (length_digits ..)]
    simp [ih, value_digits hfit]

theorem length_render (hm : Fits layout ms) (hn : Fits layout ns) :
    (render layout ms).length = (render layout ns).length := by
  induction hm generalizing ns with
  | nil =>
    cases hn
    rfl
  | cons hfit hrest ih =>
    cases hn with
    | cons hfit' hrest' => simp [render, ih hrest']

/-- The text order of what is written out is the order of the numbers. -/
theorem render_lt (hm : Fits layout ms) (hn : Fits layout ns) :
    render layout ms < render layout ns ↔ ms < ns := by
  induction hm generalizing ns with
  | nil =>
    cases hn
    simp [render]
  | cons hfit hrest ih =>
    cases hn with
    | cons hfit' hrest' =>
      rw [render, render, append_lt_append (by simp), digits_lt hfit hfit', digits_inj hfit hfit',
        List.cons_lt_cons_self, ih hrest', List.cons_lt_cons_iff]

end Render

end FixedWidth
