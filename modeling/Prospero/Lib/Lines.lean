import Mathlib.Tactic.Common

namespace Lines

section Split

variable {α : Type*} [DecidableEq α]

/-- Terminated lines, without their terminators, and the unterminated rest. -/
def split (sep : α) : List α → List (List α) × List α
  | [] => ([], [])
  | b :: bs =>
    match split sep bs with
    | (lines, rest) =>
      if b = sep then ([] :: lines, rest)
      else match lines with
        | [] => ([], b :: rest)
        | l :: ls => ((b :: l) :: ls, rest)

theorem split_of_not_mem {sep : α} {p : List α} (h : sep ∉ p) : split sep p = ([], p) := by
  induction p with
  | nil => rfl
  | cons x p ih =>
    rw [List.mem_cons, not_or] at h
    rw [split, ih h.2]
    exact if_neg (Ne.symm h.1)

theorem split_line {sep : α} {l : List α} (h : sep ∉ l) (rest : List α) :
    split sep (l ++ sep :: rest) = (l :: (split sep rest).1, (split sep rest).2) := by
  induction l with
  | nil => exact if_pos rfl
  | cons x l ih =>
    rw [List.mem_cons, not_or] at h
    rw [List.cons_append, split, ih h.2]
    exact if_neg (Ne.symm h.1)

/-- What follows a cut completes the line the cut fell in. -/
def join (cut later : List (List α) × List α) : List (List α) × List α :=
  match later.1 with
  | [] => (cut.1, cut.2 ++ later.2)
  | l :: ls => (cut.1 ++ (cut.2 ++ l) :: ls, later.2)

theorem split_append (sep : α) (a b : List α) :
    split sep (a ++ b) = join (split sep a) (split sep b) := by
  induction a with
  | nil =>
    cases h : split sep b with
    | mk lines rest => cases lines <;> simp [split, join, h]
  | cons x a ih =>
    simp only [List.cons_append, split, ih]
    cases ha : split sep a with
    | mk as ra =>
      cases hb : split sep b with
      | mk bs rb =>
        by_cases hx : x = sep
        · cases bs <;> simp [join, hx]
        · cases bs <;> cases as <;> simp [join, hx]

/-- The lines of a whole text, its unterminated rest among them. -/
def all (sep : α) (text : List α) : List (List α) :=
  match split sep text with
  | (lines, rest) => if rest = [] then lines else lines ++ [rest]

/-- A cut keeps the lines before it; the line it falls in goes on as one of
the whole text's lines. -/
theorem all_append (sep : α) (a b : List α) :
    ∃ later, all sep (a ++ b) = (split sep a).1 ++ later ∧
      ((split sep a).2 ≠ [] → ∃ q ls, later = ((split sep a).2 ++ q) :: ls) := by
  unfold all
  rw [split_append]
  unfold join
  cases (split sep b).1 with
  | nil =>
    simp only [List.append_eq_nil_iff]
    split
    · rename_i h
      exact ⟨[], (List.append_nil _).symm, fun hne => absurd h.1 hne⟩
    · exact ⟨_, rfl, fun _ => ⟨_, [], rfl⟩⟩
  | cons l ls =>
    simp only
    split
    · exact ⟨_, rfl, fun _ => ⟨l, ls, rfl⟩⟩
    · refine ⟨_, List.append_assoc _ _ _, fun _ => ⟨l, _, rfl⟩⟩

end Split

section Decode

def encode (s : String) : List UInt8 := s.toByteArray.data.toList

def decode (bytes : List UInt8) : Option String :=
  String.fromUTF8? ⟨bytes.toArray⟩

theorem toByteArray_of_decode {bytes : List UInt8} {s : String} (h : decode bytes = some s) :
    s.toByteArray = ⟨bytes.toArray⟩ := by
  unfold decode String.fromUTF8? at h
  split at h
  · cases h
    rfl
  · cases h

/-- A cut between two characters decodes to the characters before it. -/
theorem decode_prefix {p q : List UInt8} {s t : String} (hp : decode p = some s)
    (hq : decode (p ++ q) = some t) : s.toList <+: t.toList := by
  apply List.isPrefix_of_utf8Encode_append_eq_utf8Encode ⟨q.toArray⟩
  rw [String.utf8Encode_toList, String.utf8Encode_toList, toByteArray_of_decode hp,
    toByteArray_of_decode hq]
  apply ByteArray.ext
  simp

theorem decode_eq_some {bytes : List UInt8} {s : String} :
    decode bytes = some s ↔ bytes = encode s := by
  constructor
  · intro h
    rw [encode, toByteArray_of_decode h]
  · rintro rfl
    unfold decode encode String.fromUTF8?
    rw [Array.toArray_toList, dif_pos s.isValidUTF8]
    rfl

theorem encode_append (a b : String) : encode (a ++ b) = encode a ++ encode b := by
  rw [encode, String.toByteArray_append]
  simp [encode]

/-- A byte below 128 is a character of its own. -/
theorem mem_encodeChar {b : UInt8} {c : Char} (hb : b.toNat < 128)
    (h : b ∈ String.utf8EncodeChar c) : c.toNat = b.toNat := by
  by_cases hc : c.val.toNat ≤ 127
  · rw [String.utf8EncodeChar, if_pos hc, List.mem_singleton] at h
    rw [h, UInt8.toNat_ofNat_of_lt' (Nat.lt_of_le_of_lt hc (by decide))]
    rfl
  · have hlarge : ∀ b ∈ String.utf8EncodeChar c, 128 ≤ b.toNat := by
      rw [String.utf8EncodeChar, if_neg hc]
      split
      · simp
        omega
      · split
        · simp
          omega
        · simp
          omega
    exact absurd (hlarge b h) (Nat.not_le.mpr hb)

theorem mem_encode {b : UInt8} {s : String} (hb : b.toNat < 128) (h : b ∈ encode s) :
    ∃ c ∈ s.toList, c.toNat = b.toNat := by
  rw [encode, ← String.utf8Encode_toList] at h
  have hflat : b ∈ s.toList.flatMap String.utf8EncodeChar := by simpa [List.utf8Encode] using h
  obtain ⟨c, hc, hbc⟩ := List.mem_flatMap.mp hflat
  exact ⟨c, hc, mem_encodeChar hb hbc⟩

end Decode

end Lines
