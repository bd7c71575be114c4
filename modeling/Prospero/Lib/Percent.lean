import Mathlib.Data.List.Basic
import Prospero.Lib.Lines

namespace Percent

def hexDigit (n : Nat) : Char :=
  if n < 10 then Char.ofNat ('0'.toNat + n) else Char.ofNat ('A'.toNat + (n - 10))

/-- `%XX` -/
def escape (b : UInt8) : List Char := ['%', hexDigit (b.toNat / 16), hexDigit (b.toNat % 16)]

/-- Every byte is escaped, but for those to be kept as the characters they are. -/
def encode (keep : UInt8 → Bool) (bytes : List UInt8) : List Char :=
  bytes.flatMap fun b => if keep b then [Char.ofNat b.toNat] else escape b

/-- Of either case. -/
def hexValue (c : Char) : Option Nat :=
  if '0' ≤ c ∧ c ≤ '9' then some (c.toNat - '0'.toNat)
  else if 'A' ≤ c ∧ c ≤ 'F' then some (c.toNat - 'A'.toNat + 10)
  else if 'a' ≤ c ∧ c ≤ 'f' then some (c.toNat - 'a'.toNat + 10)
  else none

/-- A percent sign that begins no escape stands for itself. -/
def decode : List Char → List UInt8
  | [] => []
  | [c] => String.utf8EncodeChar c
  | [c, d] => String.utf8EncodeChar c ++ String.utf8EncodeChar d
  | c :: a :: b :: rest =>
    match hexValue a, hexValue b with
    | some high, some low =>
      if c = '%' then UInt8.ofNat (16 * high + low) :: decode rest
      else String.utf8EncodeChar c ++ decode (a :: b :: rest)
    | _, _ => String.utf8EncodeChar c ++ decode (a :: b :: rest)

theorem hexValue_hexDigit {n : Nat} (h : n < 16) : hexValue (hexDigit n) = some n := by
  have hall : ∀ n < 16, hexValue (hexDigit n) = some n := by decide
  exact hall n h

theorem decode_escape (b : UInt8) (rest : List Char) :
    decode (escape b ++ rest) = b :: decode rest := by
  have hlt := b.toNat_lt
  have hhigh : hexValue (hexDigit (b.toNat / 16)) = some (b.toNat / 16) :=
    hexValue_hexDigit (by omega)
  have hlow : hexValue (hexDigit (b.toNat % 16)) = some (b.toNat % 16) :=
    hexValue_hexDigit (by omega)
  change decode ('%' :: hexDigit (b.toNat / 16) :: hexDigit (b.toNat % 16) :: rest) = _
  rw [decode, hhigh, hlow]
  simp only [if_true]
  rw [Nat.div_add_mod, UInt8.ofNat_toNat]

theorem decode_cons {c : Char} (h : c ≠ '%') (rest : List Char) :
    decode (c :: rest) = String.utf8EncodeChar c ++ decode rest := by
  match rest with
  | [] => simp [decode]
  | [d] => simp [decode]
  | a :: b :: rest =>
    rw [decode]
    split
    · exact if_neg h
    · rfl

theorem utf8EncodeChar_ofNat {b : UInt8} (h : b.toNat < 128) :
    String.utf8EncodeChar (Char.ofNat b.toNat) = [b] := by
  have hvalid : b.toNat.isValidChar := Or.inl (by omega)
  have hcode : (Char.ofNat b.toNat).val.toNat = b.toNat := by
    rw [Char.ofNat, dif_pos hvalid]
    rfl
  rw [String.utf8EncodeChar, if_pos (by omega), hcode, UInt8.ofNat_toNat]

variable {keep : UInt8 → Bool}

/-- What may be kept is ASCII, and no percent sign. -/
def Plain (keep : UInt8 → Bool) : Prop := ∀ b, keep b = true → b.toNat < 128 ∧ b ≠ 37

theorem decode_encode (h : Plain keep) (bytes : List UInt8) :
    decode (encode keep bytes) = bytes := by
  induction bytes with
  | nil => rfl
  | cons b bytes ih =>
    unfold encode at ih ⊢
    rw [List.flatMap_cons]
    split
    · rename_i hkeep
      obtain ⟨hascii, hpercent⟩ := h b hkeep
      have hplain : Char.ofNat b.toNat ≠ '%' := by
        intro heq
        have hbytes := utf8EncodeChar_ofNat hascii
        rw [heq] at hbytes
        exact hpercent (List.cons.inj hbytes).1.symm
      rw [List.singleton_append, decode_cons hplain, utf8EncodeChar_ofNat hascii, ih]
      rfl
    · rw [decode_escape, ih]

/-- A character of an encoded text is a kept one, a percent sign or a digit. -/
theorem mem_encode {bytes : List UInt8} {c : Char} (h : c ∈ encode keep bytes) :
    (∃ b ∈ bytes, keep b = true ∧ c = Char.ofNat b.toNat) ∨ c = '%' ∨ ∃ n < 16, c = hexDigit n := by
  obtain ⟨b, hb, hc⟩ := List.mem_flatMap.mp h
  split at hc
  · rename_i hkeep
    exact Or.inl ⟨b, hb, hkeep, List.mem_singleton.mp hc⟩
  · have hlt := b.toNat_lt
    right
    rcases List.mem_cons.mp hc with rfl | hc
    · exact Or.inl rfl
    · rcases List.mem_pair.mp hc with rfl | rfl
      · exact Or.inr ⟨_, by omega, rfl⟩
      · exact Or.inr ⟨_, by omega, rfl⟩

end Percent
