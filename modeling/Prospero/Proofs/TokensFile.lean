import Mathlib.Data.Bool.AllAny
import Mathlib.Data.List.DropRight
import Prospero.Proofs.Sessions

namespace Prospero.Proofs.Auth
open Prospero.Auth
open Prospero.Automations (isWhitespace splitWhitespace stripPrefix trim utf8)

section Trim

variable {left core right : List Char}

end Trim

section Hash

theorem hexValue_hexDigit {n : Nat} (h : n < 16) : hexValue (hexDigit n) = some n := by
  have hall : ∀ n < 16, hexValue (hexDigit n) = some n := by decide
  exact hall n h

theorem hexDigit_plain {n : Nat} (h : n < 16) :
    isWhitespace (hexDigit n) = false ∧ (hexDigit n).isUpper = false := by
  have hall : ∀ n < 16, isWhitespace (hexDigit n) = false ∧ (hexDigit n).isUpper = false := by
    decide
  exact hall n h

theorem byte_halves (b : UInt8) : b.toNat / 16 < 16 ∧ b.toNat % 16 < 16 := by
  have hlt := b.toNat_lt
  omega

theorem mem_hexEncode {bytes : List UInt8} {c : Char} (h : c ∈ hexEncode bytes) :
    isWhitespace c = false ∧ c.isUpper = false := by
  obtain ⟨b, -, hc⟩ := List.mem_flatMap.mp h
  obtain ⟨hhigh, hlow⟩ := byte_halves b
  rcases List.mem_pair.mp hc with rfl | rfl
  · exact hexDigit_plain hhigh
  · exact hexDigit_plain hlow

theorem formatHash_toList (hash : List UInt8) :
    (formatHash hash).toList = "sha256:".toList ++ hexEncode hash := by
  rw [formatHash, String.toList_append, String.toList_ofList (l := hexEncode hash)]

theorem constantTimeEq_eq (a b : List UInt8) : constantTimeEq a b = decide (a = b) := by
  have hfold : ∀ (l : List (UInt8 × UInt8)) (d : UInt8),
      l.foldl (fun diff p => diff ||| (p.1 ^^^ p.2)) d = 0 ↔ d = 0 ∧ ∀ p ∈ l, p.1 = p.2 := by
    intro l
    induction l with
    | nil => simp
    | cons p l ih =>
      intro d
      rw [List.foldl_cons, ih, List.forall_mem_cons, UInt8.or_eq_zero_iff, UInt8.xor_eq_zero_iff,
        and_assoc]
  have hzip : a.length = b.length → ((∀ p ∈ a.zip b, p.1 = p.2) ↔ a = b) := by
    intro hlen
    induction a generalizing b with
    | nil => simp [List.eq_nil_of_length_eq_zero hlen.symm]
    | cons x a ih =>
      cases b with
      | nil => cases hlen
      | cons y b =>
        rw [List.zip_cons_cons, List.forall_mem_cons, ih b (Nat.succ.inj hlen), List.cons.injEq]
  unfold constantTimeEq
  split
  · rename_i hlen
    exact (decide_eq_false fun h => hlen (congrArg List.length h)).symm
  · rename_i hlen
    exact decide_eq_decide.mpr
      ((hfold _ 0).trans ((and_iff_right rfl).trans (hzip (not_not.mp hlen))))

/-- The loop over every entry finds what a search that stops at the first match finds. -/
theorem authenticate_eq (crypto : Crypto) (tokens : TokenSet) (token : String) :
    TokenSet.authenticate crypto tokens token = authenticate crypto tokens token := by
  have hfold : ∀ (l : TokenSet) (found : Option TokenEntry), l.foldl (fun found e =>
      if constantTimeEq e.hash (hashToken crypto token) && found.isNone then some e else found)
        found = found.or (authenticate crypto l token) := by
    intro l
    induction l with
    | nil => simp [authenticate]
    | cons e l ih =>
      intro found
      rw [List.foldl_cons, ih, constantTimeEq_eq]
      cases found with
      | some e' => simp
      | none =>
        by_cases he : e.hash = crypto.sha256 (utf8 token)
        · simp [authenticate, hashToken, he]
        · simp [authenticate, hashToken, he]
  unfold TokenSet.authenticate
  rw [hfold]
  rfl

end Hash

section File

/-- What `token new` makes a line of. -/
structure Issued where
  name : String
  scope : Scope
  bytes : List UInt8

/-- A line of a tokens file: a note, or a token's line with space around it. -/
inductive Row
  | note (text : List Char)
  | issued (left : List Char) (token : Issued) (right : List Char)

variable (crypto : Crypto) (debug : String → String)

def Issued.token (i : Issued) : String := generateToken crypto i.bytes

def Issued.entry (i : Issued) : TokenEntry := ⟨i.name, i.scope, hashToken crypto (i.token crypto)⟩

def Row.text : Row → List Char
  | .note text => text
  | .issued left i right =>
    left ++ (tokensFileLine crypto i.name i.scope (i.token crypto)).toList ++ right

/-- The tokens of a file, in its order. -/
def issued (rows : List Row) : List Issued :=
  rows.filterMap fun
    | .note _ => none
    | .issued _ i _ => some i

def file (rows : List Row) : String :=
  String.ofList (['\n'].intercalate (rows.map (Row.text crypto)))

/-- Notes are blank or comments; of a token's line the command has checked the name. -/
def Row.Proper : Row → Prop
  | .note text => '\n' ∉ text ∧ (trim text = [] ∨ (trim text).head? = some '#')
  | .issued left i right => validateTokenName debug i.name = .ok () ∧
    ∀ c ∈ left ++ right, isWhitespace c = true ∧ c ≠ '\n'

variable {crypto debug}

/-- What the three fields of a line are; no blank stands in them. -/
theorem tokensFileLine_toList (name : String) (scope : Scope) (token : String) :
    (tokensFileLine crypto name scope token).toList = name.toList ++ ' ' ::
      (scope.asStr.toList ++ ' ' :: (formatHash (hashToken crypto token)).toList) := by
  simp [tokensFileLine, String.toList_append]

theorem isNameChar_plain {c : Char} (h : isNameChar c = true) :
    isWhitespace c = false ∧ c ≠ '#' := by
  have hcode : c.toNat = 45 ∨ 48 ≤ c.toNat ∧ c.toNat ≤ 122 := by
    simp only [isNameChar, Char.isDigit, Bool.or_eq_true, Bool.and_eq_true, decide_eq_true_eq,
      ge_iff_le, UInt32.le_iff_toNat_le] at h
    rcases h with ((h | h) | rfl) | rfl
    · obtain ⟨hlow, hhigh⟩ := (Bool.and_eq_true _ _).mp h
      rw [decide_eq_true_eq, ge_iff_le, UInt32.le_iff_toNat_le] at hlow
      rw [decide_eq_true_eq, UInt32.le_iff_toNat_le] at hhigh
      exact Or.inr ⟨Nat.le_trans (by decide) hlow, hhigh⟩
    · exact Or.inr ⟨h.1, Nat.le_trans h.2 (by decide)⟩
    · exact Or.inr (by decide)
    · exact Or.inl rfl
  constructor
  · simp only [isWhitespace, Bool.or_eq_false_iff, Bool.and_eq_false_iff, decide_eq_false_iff_not]
    omega
  · rintro rfl
    exact absurd hcode (by decide)

/-- No scope's name has a blank in it, and each is read back. -/
theorem asStr_plain (scope : Scope) : scope.asStr.toList ≠ [] ∧
    (∀ c ∈ scope.asStr.toList, isWhitespace c = false) ∧
    Scope.parse (String.ofList scope.asStr.toList) = some scope := by
  cases scope <;> exact ⟨by decide, List.all_iff_forall_prop.mp rfl, rfl⟩

theorem formatHash_plain (hash : List UInt8) : ∀ c ∈ (formatHash hash).toList,
    isWhitespace c = false := by
  have hprefix : ∀ c ∈ "sha256:".toList, isWhitespace c = false :=
    List.all_iff_forall_prop.mp rfl
  intro c hc
  rw [formatHash_toList] at hc
  rcases List.mem_append.mp hc with hc | hc
  · exact hprefix c hc
  · exact (mem_hexEncode hc).1

variable {entries : TokenSet} {lineNo : Nat}

/-- A step of the parser's loop. -/
def parseStep (debug : String → String) (entries : TokenSet) (l : List Char × Nat) :
    Except String TokenSet :=
  parseLine debug entries l.1 (l.2 + 1)

theorem parse_bind (src : String) : TokenSet.parse debug src =
    (lines src.toList).zipIdx.foldlM (parseStep debug) [] >>= fun entries =>
      if entries = [] then .error "tokens file contains no tokens" else .ok entries := by
  have hstep : (fun (entries : TokenSet) (l : List Char × Nat) =>
      parseLine debug entries l.1 (l.2 + 1)) = parseStep debug := rfl
  unfold TokenSet.parse
  rw [hstep]
  cases (lines src.toList).zipIdx.foldlM (parseStep debug) [] with
  | error e => rfl
  | ok entries => cases entries <;> rfl

theorem newline_not_mem {row : Row} (h : Row.Proper debug row) :
    '\n' ∉ row.text crypto := by
  cases row with
  | note text => exact h.1
  | issued left i right =>
    have hspace : isWhitespace '\n' = true := by decide
    obtain ⟨hname, hpad⟩ := h
    obtain ⟨hleft, hright⟩ := List.forall_mem_append.mp hpad
    intro hmem
    rw [Row.text, tokensFileLine_toList] at hmem
    simp only [List.mem_append, List.mem_cons] at hmem
    rcases hmem with (hmem | hmem | hmem | hmem | hmem | hmem) | hmem
    · exact (hleft _ hmem).2 rfl
    · have hplain := isNameChar_plain (List.all_eq_true.mp (validateTokenName_ok hname) _ hmem)
      rw [hspace] at hplain
      cases hplain.1
    · cases hmem
    · have hplain := (asStr_plain i.scope).2.1 _ hmem
      rw [hspace] at hplain
      cases hplain
    · cases hmem
    · have hplain := formatHash_plain _ _ hmem
      rw [hspace] at hplain
      cases hplain
    · exact (hright _ hmem).2 rfl

end File

section Requests

variable {crypto : Crypto} {debug : String → String}

end Requests

section Hiding

variable {debug : String → String}

/-- The fields of a line that is no note. -/
def fields (raw : List Char) : Option (List (List Char)) :=
  if trim raw = [] ∨ (trim raw).head? = some '#' then none else some (splitWhitespace (trim raw))

/-- Lines that differ in the third of three fields at most, where both have a hash or neither
has. -/
inductive Alike : List Char → List Char → Prop
  | same (l : List Char) : Alike l l
  | hash {l l' name scope hash hash' : List Char} (three : fields l = some [name, scope, hash])
      (three' : fields l' = some [name, scope, hash'])
      (formed : (parseHash hash).isSome = (parseHash hash').isSome) : Alike l l'

/-- What is not secret of the entries. -/
def shown (tokens : TokenSet) : List (String × Scope) := tokens.map fun e => (e.name, e.scope)

variable {entries entries' : TokenSet} {l l' : List Char} {lineNo : Nat}

theorem any_name_shown (h : shown entries = shown entries') (name : String) :
    (entries.any fun e => e.name = name) = entries'.any fun e => e.name = name := by
  have hany : ∀ tokens : TokenSet, (tokens.any fun e => e.name = name) =
      (shown tokens).any fun p => p.1 = name := by
    intro tokens
    rw [shown, List.any_map]
    rfl
  rw [hany, hany, h]

theorem shown_append (h : shown entries = shown entries') (name : String) (scope : Scope)
    (hash hash' : List UInt8) :
    shown (entries ++ [⟨name, scope, hash⟩]) = shown (entries' ++ [⟨name, scope, hash'⟩]) := by
  simp only [shown, List.map_append] at h ⊢
  rw [h]
  rfl

theorem fields_some {fs : List (List Char)} (h : fields l = some fs) :
    ¬(trim l = [] ∨ (trim l).head? = some '#') ∧ splitWhitespace (trim l) = fs := by
  unfold fields at h
  split at h
  · cases h
  · rename_i hcode
    exact ⟨hcode, Option.some.inj h⟩

/-- One line adds alike entries, or is refused in the same words. -/
theorem parseLine_alike (hl : Alike l l') (h : shown entries = shown entries') :
    (parseLine debug entries l lineNo).map shown =
      (parseLine debug entries' l' lineNo).map shown := by
  cases hl with
  | same =>
    unfold parseLine
    simp only [any_name_shown h]
    split
    · exact congrArg Except.ok h
    split
    · split
      · rfl
      split
      · rfl
      split
      · rfl
      split
      · rfl
      · exact congrArg Except.ok (shown_append h ..)
    · rfl
  | hash hfields hfields' hformed =>
    rename_i name scope hash hash'
    obtain ⟨hcode, hthree⟩ := fields_some hfields
    obtain ⟨hcode', hthree'⟩ := fields_some hfields'
    unfold parseLine
    simp only [any_name_shown h]
    rw [if_neg hcode, if_neg hcode', hthree, hthree']
    simp only
    split
    · rfl
    split
    · rfl
    cases hhash : parseHash hash with
    | none =>
      rw [hhash] at hformed
      have hhash' : parseHash hash' = none := Option.not_isSome_iff_eq_none.mp (by simp [← hformed])
      rw [hhash']
    | some bytes =>
      rw [hhash] at hformed
      obtain ⟨bytes', hhash'⟩ := Option.isSome_iff_exists.mp hformed.symm
      rw [hhash']
      simp only
      split
      · rfl
      · exact congrArg Except.ok (shown_append h ..)

theorem map_bind_congr {x x' : Except String TokenSet} {f f' : TokenSet → Except String TokenSet}
    (hx : x.map shown = x'.map shown)
    (hf : ∀ a a', shown a = shown a' → (f a).map shown = (f' a').map shown) :
    (x >>= f).map shown = (x' >>= f').map shown := by
  cases x with
  | error e =>
    cases x' with
    | error e' =>
      cases hx
      rfl
    | ok a' => cases hx
  | ok a =>
    cases x' with
    | error e' => cases hx
    | ok a' => exact hf a a' (Except.ok.inj hx)

theorem foldlM_alike {ls ls' : List (List Char)} (hls : List.Forall₂ Alike ls ls') (n : Nat)
    (h : shown entries = shown entries') :
    ((ls.zipIdx n).foldlM (parseStep debug) entries).map shown =
      ((ls'.zipIdx n).foldlM (parseStep debug) entries').map shown := by
  induction hls generalizing n entries entries' with
  | nil => exact congrArg Except.ok h
  | cons hl hls ih =>
    rw [List.zipIdx_cons, List.zipIdx_cons, List.foldlM_cons, List.foldlM_cons]
    exact map_bind_congr (parseLine_alike hl h) fun a a' => ih (n + 1)

/-- What a tokens file is refused with, and the names and scopes it is read as, never tell the
hashes in it: of files that differ in those only, all tell the same. -/
theorem parse_hides_hashes {src src' : String}
    (h : List.Forall₂ Alike (lines src.toList) (lines src'.toList)) :
    (TokenSet.parse debug src).map shown = (TokenSet.parse debug src').map shown := by
  rw [parse_bind, parse_bind]
  apply map_bind_congr (foldlM_alike h 0 rfl)
  intro a a' ha
  have hnil : a = [] ↔ a' = [] := by
    have hshown : shown a = [] ↔ shown a' = [] := by rw [ha]
    simpa [shown] using hshown
  by_cases hempty : a = []
  · rw [if_pos hempty, if_pos (hnil.mp hempty)]
  · rw [if_neg hempty, if_neg (mt hnil.mpr hempty)]
    exact congrArg Except.ok ha

/-- A token's line, and one that lacks its hash. -/
def halfFile (digit : Char) : List Char :=
  "ci operate sha256:".toList ++ List.replicate 64 digit ++ "\nops read".toList

theorem parse_hides_hashes_half :
    (TokenSet.parse (fun text => text) (String.ofList (halfFile 'a'))).map shown =
      (TokenSet.parse (fun text => text) (String.ofList (halfFile '0'))).map shown := by
  apply parse_hides_hashes
  rw [String.toList_ofList, String.toList_ofList]
  have ha : lines (halfFile 'a') =
      ["ci operate sha256:".toList ++ List.replicate 64 'a', "ops read".toList] := by decide
  have h0 : lines (halfFile '0') =
      ["ci operate sha256:".toList ++ List.replicate 64 '0', "ops read".toList] := by decide
  rw [ha, h0]
  have hfirst : Alike ("ci operate sha256:".toList ++ List.replicate 64 'a')
      ("ci operate sha256:".toList ++ List.replicate 64 '0') :=
    Alike.hash rfl rfl rfl
  exact List.Forall₂.cons hfirst (List.Forall₂.cons (Alike.same _) List.Forall₂.nil)

end Hiding

end Prospero.Proofs.Auth
