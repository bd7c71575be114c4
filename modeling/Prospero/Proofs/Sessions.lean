import Mathlib.Algebra.Group.Int.Defs
import Mathlib.Data.List.Nodup
import Prospero.Tokens

namespace Prospero.Proofs.Auth
open Prospero.Auth
open Prospero.Automations (utf8)

section Bytes

theorem toList_loop (bs : ByteArray) (i : Nat) (r : List UInt8) :
    ByteArray.toList.loop bs i r = r.reverse ++ bs.data.toList.drop i := by
  fun_induction ByteArray.toList.loop bs i r with
  | case1 i r hlt ih =>
    have hdrop := List.drop_eq_getElem_cons (l := bs.data.toList) (i := i) hlt
    rw [ih, hdrop]
    simp [ByteArray.get!, getElem!_pos bs.data i hlt]
  | case2 i r hge =>
    have hlen : bs.data.toList.length ≤ i := Nat.not_lt.mp hge
    simp [List.drop_eq_nil_of_le hlen]

theorem utf8_eq (s : String) : utf8 s = s.toUTF8.data.toList := by
  unfold utf8 ByteArray.toList
  rw [toList_loop]
  simp

theorem utf8_injective : Function.Injective utf8 := by
  intro a b h
  rw [utf8_eq, utf8_eq] at h
  exact String.toByteArray_inj.mp (ByteArray.ext (Array.toList_inj.mp h))

theorem utf8_append (a b : String) : utf8 (a ++ b) = utf8 a ++ utf8 b := by
  rw [utf8_eq, utf8_eq, utf8_eq]
  simp [String.toUTF8]

end Bytes

section Mac

/-- Texts that end in a field without the separator are told apart by it. -/
theorem field_injective {α : Type*} {sep : α} {a b x y : List α} (hx : sep ∉ x) (hy : sep ∉ y)
    (h : a ++ sep :: x = b ++ sep :: y) : a = b ∧ x = y := by
  rcases List.append_eq_append_iff.mp h with ⟨c, rfl, hc⟩ | ⟨c, rfl, hc⟩
  · cases c with
    | nil => exact ⟨by simp, (List.cons.inj hc).2⟩
    | cons z c =>
      obtain ⟨rfl, rfl⟩ := List.cons.inj hc
      exact absurd (List.mem_append_right c (List.mem_cons_self ..)) hx
  · cases c with
    | nil => exact ⟨by simp, (List.cons.inj hc).2.symm⟩
    | cons z c =>
      obtain ⟨rfl, rfl⟩ := List.cons.inj hc
      exact absurd (List.mem_append_right c (List.mem_cons_self ..)) hy

/-- An expiry within `i64` is read back. -/
theorem parseInt64_toString {x : Int} (hmin : -2 ^ 63 ≤ x) (hmax : x < 2 ^ 63) :
    parseInt64 (toString x).toList = some x := by
  cases x with
  | ofNat m =>
    have hm : m < 2 ^ 63 := by
      rw [Int.ofNat_eq_natCast] at hmax
      omega
    have hparse := Decimal.parse_toString hm
    have hdash : '-' ∉ (toString m).toList := Decimal.not_mem_toString (by decide) m
    have hlist : (toString (Int.ofNat m)).toList = (toString m).toList := rfl
    rw [hlist]
    unfold parseInt64
    split
    · rename_i heq
      exact absurd (heq ▸ List.mem_cons_self ..) hdash
    · rename_i heq
      exact absurd (heq ▸ List.mem_cons_self ..) hdash
    · rw [String.ofList_toList, hparse]
      rfl
  | negSucc m =>
    have hm : m + 1 < 2 ^ 63 + 1 := by omega
    have hparse := Decimal.parse_toString hm
    have hplus : '+' ∉ (toString (m + 1)).toList := Decimal.not_mem_toString (by decide) (m + 1)
    rw [Decimal.toString_negSucc]
    unfold parseInt64
    split
    · rename_i heq
      exact absurd ((List.cons.inj heq).2 ▸ List.mem_cons_self ..) hplus
    · rename_i heq
      obtain ⟨-, rfl⟩ := List.cons.inj heq
      rw [String.ofList_toList, hparse]
      rfl
    · rename_i hno
      exact absurd rfl (hno _)

variable {crypto : Crypto} {k k' : List UInt8} {n n' : String} {x x' : Int} {hash hash' : List UInt8}

/-- What is signed tells the name, the expiry and the half of the hash. -/
theorem mac_injective (hmac : ∀ k k' m m', crypto.hmacSha256 k m = crypto.hmacSha256 k' m' →
    k = k' ∧ m = m') (hurl : Function.Injective crypto.base64Url) (hlen : hash.length = 32)
    (hlen' : hash'.length = 32) (h : mac crypto k n x hash = mac crypto k' n' x' hash') :
    k = k' ∧ n = n' ∧ x = x' ∧ hash.take 16 = hash'.take 16 := by
  obtain ⟨hkey, hmessage⟩ := hmac _ _ _ _ (hurl h)
  obtain ⟨htext, hhalf⟩ := List.append_inj' hmessage (by simp [hlen, hlen'])
  have htext := congrArg String.toList (utf8_injective htext)
  have hlists : "v1\n".toList ++ (n.toList ++ '\n' :: ((toString x).toList ++ '\n' :: [])) =
      "v1\n".toList ++ (n'.toList ++ '\n' :: ((toString x').toList ++ '\n' :: [])) := by
    have hself : ∀ s : String, toString s = s := fun _ => rfl
    simpa [String.toList_append, hself] using htext
  have hfields := List.append_cancel_left hlists
  rw [← List.cons_append, ← List.cons_append, ← List.append_assoc, ← List.append_assoc] at hfields
  have hline : ∀ y : Int, '\n' ∉ (toString y).toList :=
    Decimal.not_mem_intToString (by decide) (by decide)
  obtain ⟨hname, hexpires⟩ :=
    field_injective (hline x) (hline x') (List.append_cancel_right hfields)
  exact ⟨hkey, String.toList_inj.mp hname, Decimal.intToString_injective hexpires, hhalf⟩

end Mac

/-- What a tokens file gives each of its entries. -/
structure TokenEntry.Valid (e : TokenEntry) : Prop where
  name : e.name.toList.all isNameChar = true
  hash : e.hash.length = 32

structure WellFormed (tokens : TokenSet) : Prop where
  valid : ∀ e ∈ tokens, TokenEntry.Valid e
  distinct : (tokens.map TokenEntry.name).Nodup

section Parse

variable {debug : String → String}

theorem validateTokenName_ok {name : String} (h : validateTokenName debug name = .ok ()) :
    name.toList.all isNameChar = true := by
  unfold validateTokenName at h
  simp only at h
  split at h
  · rename_i hok
    exact hok.2.1
  · cases h

theorem parseHash_length {s : List Char} {bytes : List UInt8} (h : parseHash s = some bytes) :
    bytes.length = 32 := by
  unfold parseHash at h
  obtain ⟨hexPart, -, h⟩ := Option.bind_eq_some_iff.mp h
  split at h
  · cases h
  obtain ⟨bytes', -, h⟩ := Option.bind_eq_some_iff.mp h
  split at h
  · cases h
    assumption
  · cases h

theorem wellFormed_parseLine {entries entries' : TokenSet} {raw : List Char} {lineNo : Nat}
    (h : parseLine debug entries raw lineNo = .ok entries') (hw : WellFormed entries) :
    WellFormed entries' := by
  unfold parseLine at h
  simp only at h
  split at h
  · cases h
    exact hw
  split at h
  · rename_i name scope hash _
    split at h
    · cases h
    rename_i hname
    split at h
    · cases h
    rename_i scope' _
    split at h
    · cases h
    rename_i hash' hhash
    split at h
    · cases h
    rename_i hfresh
    cases h
    constructor
    · intro e he
      rcases List.mem_append.mp he with he | he
      · exact hw.valid e he
      · obtain rfl := List.mem_singleton.mp he
        exact ⟨validateTokenName_ok hname, parseHash_length hhash⟩
    · rw [List.map_append]
      apply List.Nodup.append hw.distinct (List.nodup_singleton _)
      intro n hn hn'
      obtain ⟨e, he, rfl⟩ := List.mem_map.mp hn
      exact hfresh (List.any_eq_true.mpr ⟨e, he, by simpa using hn'⟩)
  · cases h

theorem wellFormed_foldlM (ls : List (List Char × Nat)) {entries entries' : TokenSet}
    (h : ls.foldlM (fun entries l => parseLine debug entries l.1 (l.2 + 1)) entries = .ok entries')
    (hw : WellFormed entries) : WellFormed entries' := by
  induction ls generalizing entries with
  | nil =>
    cases h
    exact hw
  | cons l ls ih =>
    rw [List.foldlM_cons] at h
    cases hl : parseLine debug entries l.1 (l.2 + 1) with
    | error e =>
      rw [hl] at h
      cases h
    | ok next =>
      rw [hl] at h
      exact ih h (wellFormed_parseLine hl hw)

theorem wellFormed_parse {src : String} {tokens : TokenSet}
    (h : TokenSet.parse debug src = .ok tokens) : WellFormed tokens := by
  have hempty : WellFormed [] := ⟨fun e he => absurd he List.not_mem_nil, List.nodup_nil⟩
  unfold TokenSet.parse at h
  split at h
  · cases h
  · cases h
  · rename_i entries _ hfold
    cases h
    exact wellFormed_foldlM _ hfold hempty

end Parse

theorem byName_some {tokens : TokenSet} {name : String} {e : TokenEntry}
    (h : byName tokens name = some e) : e ∈ tokens ∧ e.name = name :=
  ⟨List.mem_of_find?_eq_some h, by simpa using List.find?_some h⟩

theorem byName_of_mem {tokens : TokenSet} {e : TokenEntry} (hw : WellFormed tokens)
    (he : e ∈ tokens) : byName tokens e.name = some e := by
  cases hb : byName tokens e.name with
  | none =>
    have hnone := List.find?_eq_none.mp hb e he
    simp at hnone
  | some e' =>
    obtain ⟨he', hname⟩ := byName_some hb
    exact congrArg some (List.inj_on_of_nodup_map hw.distinct he' he hname)

section Cookie

variable {crypto : Crypto} {key : List UInt8} {tokens : TokenSet} {value : String} {now : Int}
  {e : TokenEntry} {expires : Int}

/-- The text of a cookie of four parts. -/
def cookieText (name expires given : List Char) : List Char :=
  "v1".toList ++ '.' :: (name ++ '.' :: (expires ++ '.' :: given))

/-- What an accepted cookie is made of; its expiry may be spelled in several ways. -/
structure Accepted (crypto : Crypto) (key : List UInt8) (tokens : TokenSet) (value : String)
    (now : Int) (e : TokenEntry) (expires : Int) (text : List Char) : Prop where
  parts : value.toList = cookieText e.name.toList text (mac crypto key e.name expires e.hash).toList
  parsed : parseInt64 text = some expires
  young : now < expires
  entry : byName tokens e.name = some e

theorem verify_accepted (h : verify crypto key tokens value now = some (e, expires)) :
    ∃ text, Accepted crypto key tokens value now e expires text := by
  have hjoin : ['.'].intercalate (value.toList.splitOn '.') = value.toList :=
    List.intercalate_splitOn '.'
  unfold verify at h
  generalize value.toList.splitOn '.' = parts at h hjoin
  split at h
  · rename_i version name text given rest
    have hchecks : version = "v1".toList ∧ ((parseInt64 text).bind fun expires =>
        if expires ≤ now then none
        else (byName tokens (String.ofList name)).bind fun entry =>
          if mac crypto key (String.ofList name) expires entry.hash =
              String.ofList (['.'].intercalate (given :: rest)) then some (entry, expires)
          else none) = some (e, expires) := by
      simpa using h
    clear h
    obtain ⟨rfl, hchecks⟩ := hchecks
    obtain ⟨exp, hexp, hchecks⟩ := Option.bind_eq_some_iff.mp hchecks
    split at hchecks
    · cases hchecks
    rename_i hyoung
    obtain ⟨entry, hentry, hchecks⟩ := Option.bind_eq_some_iff.mp hchecks
    split at hchecks
    · rename_i hmac
      cases hchecks
      obtain ⟨-, hname⟩ := byName_some hentry
      refine ⟨text, ?_, hexp, Int.not_le.mp hyoung, hname ▸ hentry⟩
      rw [← hname] at hmac
      rw [← hjoin, hmac, String.toList_ofList]
      have hlist : e.name.toList = name := by rw [hname, String.toList_ofList]
      simp [cookieText, hlist, List.intercalate_cons_cons]
    · cases hchecks
  · cases h

/-- A cookie of four parts, the first three without a dot, is taken apart again. -/
theorem verify_cookieText {name text given : List Char} (hname : '.' ∉ name) (htext : '.' ∉ text)
    (hvalue : value.toList = cookieText name text given) :
    verify crypto key tokens value now = (parseInt64 text).bind fun expires =>
      if expires ≤ now then none
      else (byName tokens (String.ofList name)).bind fun entry =>
        if mac crypto key (String.ofList name) expires entry.hash = String.ofList given then
          some (entry, expires)
        else none := by
  have hpart : ∀ part rest : List Char, '.' ∉ part →
      (part ++ '.' :: rest).splitOn '.' = part :: rest.splitOn '.' := by
    intro part rest hpart
    have hfirst : part.splitOn '.' = [part] := by
      have hone : (['.'].intercalate [part]).splitOn '.' = [part] :=
        List.splitOn_intercalate '.' (by simpa using hpart) (by simp)
      simpa using hone
    unfold List.splitOn at hfirst ⊢
    rw [List.splitOnP_append_cons _ _ (by simp), hfirst]
    rfl
  have hsplit : value.toList.splitOn '.' = "v1".toList :: name :: text :: given.splitOn '.' := by
    rw [hvalue, cookieText, hpart _ _ (by decide), hpart _ _ hname, hpart _ _ htext]
  have hgiven : ['.'].intercalate (given.splitOn '.') = given := List.intercalate_splitOn '.'
  have hne : given.splitOn '.' ≠ [] := List.splitOnP_ne_nil _ _
  unfold verify
  rw [hsplit]
  cases hg : given.splitOn '.' with
  | nil => exact absurd hg hne
  | cons first rest =>
    rw [hg] at hgiven
    simp [hgiven]

theorem not_mem_name (he : TokenEntry.Valid e) : '.' ∉ e.name.toList := by
  intro hdot
  have hchar := List.all_eq_true.mp he.name '.' hdot
  exact absurd hchar (by decide)

theorem sign_toList (crypto : Crypto) (key : List UInt8) (e : TokenEntry) (expires : Int) :
    (sign crypto key e expires).toList = cookieText e.name.toList (toString expires).toList
      (mac crypto key e.name expires e.hash).toList := by
  have hself : ∀ s : String, toString s = s := fun _ => rfl
  simp [sign, cookieText, String.toList_append, hself]

/-- A signed cookie comes down to the lookup of its name and the comparison of its MAC. -/
theorem verify_sign (he : TokenEntry.Valid e) (hmin : -2 ^ 63 ≤ expires) (hmax : expires < 2 ^ 63)
    (hyoung : now < expires) : verify crypto key tokens (sign crypto key e expires) now =
      (byName tokens e.name).bind fun entry =>
        if mac crypto key e.name expires entry.hash = mac crypto key e.name expires e.hash then
          some (entry, expires)
        else none := by
  have hdot : '.' ∉ (toString expires).toList :=
    Decimal.not_mem_intToString (by decide) (by decide) expires
  rw [verify_cookieText (not_mem_name he) hdot (sign_toList ..), parseInt64_toString hmin hmax]
  simp [Int.not_le.mpr hyoung]

end Cookie

/-- A cookie says who its bearer is exactly: `verify` takes what `sign` made of an
entry of the set, and what it takes was signed under this key for an entry of the
set, with its expiry and the first half of its present hash. -/
theorem session_cookies (crypto : Crypto) (debug : String → String)
    (hmac : ∀ k k' m m', crypto.hmacSha256 k m = crypto.hmacSha256 k' m' → k = k' ∧ m = m')
    (hurl : Function.Injective crypto.base64Url) (key : List UInt8) (now : Int) (src : String)
    (tokens : TokenSet) (hparse : TokenSet.parse debug src = .ok tokens) :
    (∀ e ∈ tokens, ∀ expires, -2 ^ 63 ≤ expires → expires < 2 ^ 63 → now < expires →
      verify crypto key tokens (sign crypto key e expires) now = some (e, expires)) ∧
    (∀ value e expires, verify crypto key tokens value now = some (e, expires) →
      now < expires ∧ e ∈ tokens ∧ ∃ text given,
        value.toList = cookieText e.name.toList text given.toList ∧
        parseInt64 text = some expires ∧ given = mac crypto key e.name expires e.hash ∧
        ∀ key' name' expires' hash', List.length hash' = 32 →
          given = mac crypto key' name' expires' hash' →
          key' = key ∧ name' = e.name ∧ expires' = expires ∧ hash'.take 16 = e.hash.take 16) ∧
    (∀ src₀ issued, TokenSet.parse debug src₀ = .ok issued → ∀ e₀ ∈ issued, ∀ expires,
      -2 ^ 63 ≤ expires → expires < 2 ^ 63 →
      (∀ e ∈ tokens, e.name = e₀.name → e.hash.take 16 ≠ e₀.hash.take 16) →
      verify crypto key tokens (sign crypto key e₀ expires) now = none) := by
  have hw := wellFormed_parse hparse
  refine ⟨?_, ?_, ?_⟩
  · intro e he expires hmin hmax hyoung
    rw [verify_sign (hw.valid e he) hmin hmax hyoung, byName_of_mem hw he]
    simp
  · intro value e expires h
    obtain ⟨text, hparts, hparsed, hyoung, hentry⟩ := verify_accepted h
    have he := (byName_some hentry).1
    refine ⟨hyoung, he, text, _, hparts, hparsed, rfl, ?_⟩
    intro key' name' expires' hash' hlen hsame
    obtain ⟨hk, hn, hx, hh⟩ := mac_injective hmac hurl (hw.valid e he).hash hlen hsame
    exact ⟨hk.symm, hn.symm, hx.symm, hh.symm⟩
  · intro src₀ issued hparse₀ e₀ he₀ expires hmin hmax hrotated
    have hvalid := (wellFormed_parse hparse₀).valid e₀ he₀
    by_cases hyoung : now < expires
    · rw [verify_sign hvalid hmin hmax hyoung]
      cases hb : byName tokens e₀.name with
      | none => rfl
      | some e =>
        obtain ⟨he, hname⟩ := byName_some hb
        have hne : mac crypto key e₀.name expires e.hash ≠
            mac crypto key e₀.name expires e₀.hash := by
          intro hsame
          obtain ⟨-, -, -, hhalf⟩ :=
            mac_injective hmac hurl (hw.valid e he).hash hvalid.hash hsame
          exact hrotated e he hname hhalf
        simp [hne]
    · rw [verify_cookieText (not_mem_name hvalid)
        (Decimal.not_mem_intToString (by decide) (by decide) expires) (sign_toList ..),
        parseInt64_toString hmin hmax]
      simp [Int.not_lt.mp hyoung]

section Sample

def sampleKey : List UInt8 := List.replicate 32 42

def sampleFile : String :=
  "# tokens\nci-bot operate sha256:9f86d081884c7d659a2feaa0c55ad015a3bf4f1b2b0b822cd15d6c15b0f00a08"

def sampleEntry : TokenEntry where
  name := "ci-bot"
  scope := .operate
  hash := [159, 134, 208, 129, 136, 76, 125, 101, 154, 47, 234, 160, 197, 90, 208, 21,
    163, 191, 79, 27, 43, 11, 130, 44, 209, 93, 108, 21, 176, 240, 10, 8]

/-- `"v1\nci-bot\n43200\n"` and the half of the hash. -/
def sampleMessage : List UInt8 :=
  [118, 49, 10, 99, 105, 45, 98, 111, 116, 10, 52, 51, 50, 48, 48, 10,
    159, 134, 208, 129, 136, 76, 125, 101, 154, 47, 234, 160, 197, 90, 208, 21]

def sampleMac : List UInt8 :=
  [135, 206, 160, 8, 24, 97, 189, 197, 208, 0, 161, 38, 132, 100, 21, 137, 137, 34, 27, 73,
    36, 207, 23, 184, 51, 110, 104, 20, 211, 42, 96, 37]

/-- Both functions have their real values at the sample's input, and are codes elsewhere. -/
def sampleCrypto : Crypto where
  sha256 := fun _ => sampleEntry.hash
  hmacSha256 := fun key message =>
    if key = sampleKey ∧ message = sampleMessage then sampleMac
    else List.replicate 33 0 ++ (List.replicate key.length 1 ++ 0 :: (key ++ message))
  base64Url := fun bytes =>
    if bytes = sampleMac then "h86gCBhhvcXQAKEmhGQViYkiG0kkzxe4M25oFNMqYCU"
    else String.ofList ('~' :: bytes.map fun b => Char.ofNat (b.toNat + 256))

theorem sampleHmac_injective (k k' m m' : List UInt8)
    (h : sampleCrypto.hmacSha256 k m = sampleCrypto.hmacSha256 k' m') : k = k' ∧ m = m' := by
  have hlong : ∀ bytes : List UInt8, sampleMac ≠ List.replicate 33 0 ++ bytes := by
    intro bytes he
    have hlen := congrArg List.length he
    simp only [List.length_append, List.length_replicate] at hlen
    have hmac : sampleMac.length = 32 := rfl
    omega
  simp only [sampleCrypto] at h
  split at h <;> split at h
  · rename_i hk hk'
    exact ⟨hk.1.trans hk'.1.symm, hk.2.trans hk'.2.symm⟩
  · exact absurd h (hlong _)
  · exact absurd h.symm (hlong _)
  · have hcode := List.append_cancel_left h
    have hones : ∀ n : Nat, (0 : UInt8) ∉ List.replicate n 1 := by
      intro n hmem
      exact absurd (List.eq_of_mem_replicate hmem) (by decide)
    have hparts : List.replicate k.length (1 : UInt8) = List.replicate k'.length 1 ∧
        k ++ m = k' ++ m' := by
      have hback := congrArg List.reverse hcode
      simp only [List.reverse_append, List.reverse_cons, List.append_assoc, List.cons_append,
        List.nil_append, List.reverse_replicate] at hback
      rw [← List.append_assoc, ← List.append_assoc] at hback
      obtain ⟨hrest, hcount⟩ := field_injective (hones _) (hones _) hback
      refine ⟨hcount, ?_⟩
      rw [← List.reverse_append, ← List.reverse_append] at hrest
      exact List.reverse_injective hrest
    have hlen : k.length = k'.length := by
      simpa using congrArg List.length hparts.1
    exact List.append_inj hparts.2 hlen

theorem sampleUrl_injective : Function.Injective sampleCrypto.base64Url := by
  have hchar : Function.Injective fun b : UInt8 => Char.ofNat (b.toNat + 256) := by
    have htoNat : ∀ b : UInt8, (Char.ofNat (b.toNat + 256)).toNat = b.toNat + 256 := by
      intro b
      have hlt := b.toNat_lt
      have hvalid : (b.toNat + 256).isValidChar := Or.inl (by omega)
      unfold Char.ofNat
      rw [dif_pos hvalid]
      rfl
    intro a b h
    have hnat := congrArg Char.toNat h
    rw [htoNat, htoNat] at hnat
    exact UInt8.toNat_inj.mp (Nat.add_right_cancel hnat)
  have hother : ∀ cs : List Char,
      "h86gCBhhvcXQAKEmhGQViYkiG0kkzxe4M25oFNMqYCU" ≠ String.ofList ('~' :: cs) := by
    intro cs he
    have hlist := (congrArg String.toList he).trans String.toList_ofList
    have hhead : 'h' = '~' := congrArg (fun l : List Char => l.headD 'h') hlist
    exact absurd hhead (by decide)
  intro a b h
  simp only [sampleCrypto] at h
  split at h <;> split at h
  · rename_i ha hb
    exact ha.trans hb.symm
  · exact absurd h (hother _)
  · exact absurd h.symm (hother _)
  · have hlist := congrArg String.toList h
    rw [String.toList_ofList, String.toList_ofList] at hlist
    exact (List.map_injective_iff.mpr hchar) (List.cons.inj hlist).2

theorem session_cookies_sample :
    TokenSet.parse (fun text => text) sampleFile = .ok [sampleEntry] ∧
      verify sampleCrypto sampleKey [sampleEntry] (sign sampleCrypto sampleKey sampleEntry 43200) 0 =
        some (sampleEntry, 43200) := by
  have hparse : TokenSet.parse (fun text => text) sampleFile = .ok [sampleEntry] := rfl
  have hcookies := session_cookies sampleCrypto (fun text => text) sampleHmac_injective
    sampleUrl_injective sampleKey 0 sampleFile [sampleEntry] hparse
  exact ⟨hparse, hcookies.1 sampleEntry (List.mem_cons_self ..) 43200 (by decide) (by decide)
    (by decide)⟩

end Sample

end Prospero.Proofs.Auth
