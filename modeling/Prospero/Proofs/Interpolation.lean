import Mathlib.Algebra.GroupWithZero.Nat
import Prospero.Lib.Delimited
import Prospero.Automation

namespace Prospero.Proofs.Interpolation
open Prospero.Automations Delimited

section Cut

variable {pat text before after : List Char}

theorem cut_firstAt (h : cut pat text = some (before, after)) :
    FirstAt pat text before after := by
  induction text generalizing before with
  | nil =>
    unfold cut at h
    split at h <;> cases h
    rename_i hpat
    subst hpat
    exact ⟨rfl, fun _ _ _ => Nat.zero_le _⟩
  | cons c cs ih =>
    unfold cut at h
    split at h
    · rename_i hpre
      cases h
      exact firstAt_prefix hpre
    · rename_i hpre
      obtain ⟨⟨before', after'⟩, hcut, heq⟩ := Option.map_eq_some_iff.mp h
      cases heq
      exact (ih hcut).cons hpre

theorem cut_none (h : cut pat text = none) : ¬pat <:+: text := by
  induction text with
  | nil =>
    unfold cut at h
    split at h
    · cases h
    · simpa using ‹pat ≠ []›
  | cons c cs ih =>
    unfold cut at h
    split at h
    · cases h
    · rename_i hpre
      rw [List.infix_cons_iff]
      intro hinfix
      rcases hinfix with hp | hi
      · exact hpre hp
      · exact ih (Option.map_eq_none_iff.mp h) hi

end Cut

section Clamp

theorem utf8ByteSize_ofList (cs : List Char) :
    (String.ofList cs).utf8ByteSize = (cs.map Char.utf8Size).sum := by
  induction cs with
  | nil => rfl
  | cons c cs ih =>
    rw [String.ofList_cons, String.utf8ByteSize_append, ih, String.utf8ByteSize_singleton,
      List.map_cons, List.sum_cons]

theorem takeBytes_prefix (n : Nat) (cs : List Char) : takeBytes n cs <+: cs := by
  induction cs generalizing n with
  | nil => exact List.prefix_refl []
  | cons c cs ih =>
    unfold takeBytes
    split
    · exact List.cons_prefix_cons.mpr ⟨rfl, ih _⟩
    · exact List.nil_prefix

theorem takeBytes_le (n : Nat) (cs : List Char) :
    ((takeBytes n cs).map Char.utf8Size).sum ≤ n := by
  induction cs generalizing n with
  | nil => exact Nat.zero_le n
  | cons c cs ih =>
    unfold takeBytes
    split
    · have hrest := ih (n - c.utf8Size)
      simp only [List.map_cons, List.sum_cons]
      omega
    · exact Nat.zero_le n

/-- No longer prefix would do. -/
theorem prefix_takeBytes {n : Nat} {cs pre : List Char} (hpre : pre <+: cs)
    (hn : (pre.map Char.utf8Size).sum ≤ n) : pre <+: takeBytes n cs := by
  induction cs generalizing n pre with
  | nil => exact hpre
  | cons c cs ih =>
    cases pre with
    | nil => exact List.nil_prefix
    | cons d ds =>
      obtain ⟨rfl, hds⟩ := List.cons_prefix_cons.mp hpre
      simp only [List.map_cons, List.sum_cons] at hn
      rw [takeBytes, if_pos (by omega)]
      exact List.cons_prefix_cons.mpr ⟨rfl, ih hds (by omega)⟩

/-- A value's text as it goes into a prompt: whole while it is short, else the
longest of its prefixes that is short enough, with a marker. -/
structure Clamped (text out : String) : Prop where
  whole : text.utf8ByteSize ≤ 4096 → out = text
  cut : 4096 < text.utf8ByteSize → ∃ kept rest : String, text = kept ++ rest ∧
    out = kept ++ " […truncated]" ∧ kept.utf8ByteSize ≤ 4096 ∧
      ∀ kept' rest', text = kept' ++ rest' → kept'.utf8ByteSize ≤ 4096 →
        kept'.utf8ByteSize ≤ kept.utf8ByteSize

theorem truncate_clamped (text : String) : Clamped text (truncate text) := by
  constructor
  · exact fun hshort => if_pos hshort
  · intro hlong
    obtain ⟨rest, hrest⟩ := takeBytes_prefix 4096 text.toList
    refine ⟨String.ofList (takeBytes 4096 text.toList), String.ofList rest, ?_,
      if_neg (Nat.not_le.mpr hlong), ?_, ?_⟩
    · rw [← String.ofList_append, hrest, String.ofList_toList]
    · rw [utf8ByteSize_ofList]
      exact takeBytes_le 4096 _
    · intro kept' rest' hsplit hsize
      have hpre : kept'.toList <+: text.toList :=
        ⟨rest'.toList, by rw [hsplit, String.toList_append]⟩
      rw [← String.ofList_toList (s := kept'), utf8ByteSize_ofList] at hsize ⊢
      rw [utf8ByteSize_ofList]
      obtain ⟨more, hmore⟩ := prefix_takeBytes hpre hsize
      rw [← hmore, List.map_append, List.sum_append]
      exact Nat.le_add_right ..

end Clamp

section Slots

/-- A path followed from a value through the keys of objects. -/
inductive Reaches : Value → List String → Value → Prop
  | here (v : Value) : Reaches v [] v
  | key {fields : List (String × Value)} {key : String} {v w : Value} {path : List String}
      (found : fields.lookup key = some v) (rest : Reaches v path w) :
      Reaches (.object fields) (key :: path) w

/-- The segments of the path in a slot. -/
def segments (slot : List Char) : List String := ((trim slot).splitOn '.').map String.ofList

/-- The slot's path leads to a value that is there and not null. -/
def Resolves (payload : Value) (slot : List Char) : Prop :=
  ∃ v, Reaches payload (segments slot) v ∧ v ≠ .null

variable {σ : Type} (crates : Crates σ)

/-- A string stands for itself, any other value for its JSON. -/
def written : Value → String
  | .string s => s
  | other => crates.jsonToString other

/-- What takes the place of a slot: the value that its path leads to, as text. -/
def Fills (payload : Value) (slot text : List Char) : Prop :=
  ∃ v out, Reaches payload (segments slot) v ∧ v ≠ .null ∧ Clamped (written crates v) out ∧
    text = out.toList

variable {crates} {payload v : Value} {slot : List Char}

theorem follow_iff (path : List (List Char)) :
    path.foldlM (fun cursor segment => getField (String.ofList segment) cursor) payload = some v ↔
      Reaches payload (path.map String.ofList) v := by
  induction path generalizing payload with
  | nil =>
    constructor
    · intro h
      cases h
      exact .here v
    · intro h
      cases h
      rfl
  | cons segment path ih =>
    rw [List.foldlM_cons, List.map_cons]
    constructor
    · intro h
      obtain ⟨next, hfield, hrest⟩ := Option.bind_eq_some_iff.mp h
      cases payload with
      | object fields => exact .key hfield (ih.mp hrest)
      | _ => cases hfield
    · intro h
      cases h with
      | key found rest => exact Option.bind_eq_some_iff.mpr ⟨_, found, ih.mpr rest⟩

theorem Reaches.unique {path : List String} {v w : Value} (hv : Reaches payload path v)
    (hw : Reaches payload path w) : v = w := by
  induction hv with
  | here =>
    cases hw
    rfl
  | key found rest ih =>
    cases hw with
    | key found' rest' =>
      cases Option.some.inj (found.symm.trans found')
      exact ih rest'

/-- A lookup gives the slot's value as text, and fails just where there is none. -/
theorem lookup_cases (crates : Crates σ) (payload : Value) (slot : List Char) :
    (∃ out, lookup crates payload (String.ofList (trim slot)) = .ok out ∧
      Fills crates payload slot out.toList) ∨
    (∃ e, lookup crates payload (String.ofList (trim slot)) = .error e) ∧
      ¬Resolves payload slot := by
  have hfollow : ∀ v, _ ↔ Reaches payload (segments slot) v :=
    fun v => follow_iff ((trim slot).splitOn '.')
  unfold lookup
  rw [String.toList_ofList]
  split
  · rename_i hnone
    refine Or.inr ⟨⟨_, rfl⟩, ?_⟩
    intro hresolves
    obtain ⟨v, hreach, -⟩ := hresolves
    rw [(hfollow v).mpr hreach] at hnone
    cases hnone
  · rename_i hnull
    refine Or.inr ⟨⟨_, rfl⟩, ?_⟩
    intro hresolves
    obtain ⟨v, hreach, hv⟩ := hresolves
    exact hv (hreach.unique ((hfollow _).mp hnull))
  · rename_i s hs
    exact Or.inl ⟨_, rfl, .string s, _, (hfollow _).mp hs, by simp, truncate_clamped s, rfl⟩
  · rename_i other hnull hstring hother
    refine Or.inl ⟨_, rfl, other, _, (hfollow _).mp hother, hnull, ?_, rfl⟩
    have hwritten : written crates other = crates.jsonToString other := by
      cases other with
      | string s => exact absurd rfl (hstring s)
      | _ => rfl
    rw [hwritten]
    exact truncate_clamped _

theorem Fills.resolves {text : List Char} (h : Fills crates payload slot text) :
    Resolves payload slot := by
  obtain ⟨v, -, hreach, hv, -⟩ := h
  exact ⟨v, hreach, hv⟩

end Slots

/-- A task template, whose slots stand between doubled braces. -/
abbrev Task (text : List Char) (slots : List (List Char × List Char)) (tail : List Char) : Prop :=
  Template ['{', '{'] ['}', '}'] text slots tail

section Interpolate

variable {σ : Type} (crates : Crates σ) (payload : Value)

/-- The scan finds the slots of what is left of the template, and either fills them
all or fails. -/
theorem interpolateFrom_spec (rest out : List Char) : ∃ slots tail, Task rest slots tail ∧
    ((∃ texts, List.Forall₂ (fun slot => Fills crates payload slot.2) slots texts ∧
        interpolateFrom crates payload rest out = .ok (out ++ fill tail slots texts)) ∨
      (∃ slot ∈ slots, ¬Resolves payload slot.2) ∧
        ∃ e, interpolateFrom crates payload rest out = .error e) := by
  fun_induction interpolateFrom crates payload rest out with
  | case1 rest out hopen =>
    exact ⟨[], rest, .bare (cut_none hopen), Or.inl ⟨[], .nil, rfl⟩⟩
  | case2 rest out before after hopen hclose =>
    exact ⟨[], rest, .unclosed (cut_firstAt hopen) (cut_none hclose), Or.inl ⟨[], .nil, rfl⟩⟩
  | case3 rest out before after hopen path later hclose ih =>
    rcases lookup_cases crates payload path with ⟨value, hlookup, hfills⟩ | ⟨⟨e, hlookup⟩, hnot⟩
    · obtain ⟨slots, tail, hlater, hrest⟩ := ih value
      refine ⟨(before, path) :: slots, tail,
        .slot (cut_firstAt hopen) (cut_firstAt hclose) hlater, ?_⟩
      rw [hlookup]
      rcases hrest with ⟨texts, htexts, hok⟩ | ⟨⟨slot, hmem, hnot⟩, e, herror⟩
      · refine Or.inl ⟨value.toList :: texts, .cons hfills htexts, ?_⟩
        rw [fill, ← List.append_assoc, ← List.append_assoc]
        exact hok
      · exact Or.inr ⟨⟨slot, List.mem_cons_of_mem _ hmem, hnot⟩, e, herror⟩
    · obtain ⟨slots, tail, hlater, -⟩ := ih ""
      refine ⟨(before, path) :: slots, tail,
        .slot (cut_firstAt hopen) (cut_firstAt hclose) hlater, ?_⟩
      rw [hlookup]
      exact Or.inr ⟨⟨_, List.mem_cons_self .., hnot⟩, e, rfl⟩

omit crates in
variable {payload} in
theorem resolves_of_filled {crates : Crates σ} {slots : List (List Char × List Char)}
    {texts : List (List Char)}
    (h : List.Forall₂ (fun slot => Fills crates payload slot.2) slots texts) :
    ∀ slot ∈ slots, Resolves payload slot.2 := by
  induction h with
  | nil => simp
  | cons hfills _ ih =>
    intro slot hslot
    rcases List.mem_cons.mp hslot with rfl | hmem
    · exact hfills.resolves
    · exact ih slot hmem

/-- The payload is data: the slots are the template's own, whatever the payload.
They all lead to a value, or the template is not filled; and then it is its literals
with the values' texts between them. -/
theorem interpolate_spec (template : String) : ∃ slots tail,
    (∀ slots' tail', Task template.toList slots' tail' ↔ slots' = slots ∧ tail' = tail) ∧
    template.toList = fill tail slots (slots.map fun slot => ['{', '{'] ++ slot.2 ++ ['}', '}']) ∧
    ((∃ out, interpolate crates template payload = .ok out) ↔
      ∀ slot ∈ slots, Resolves payload slot.2) ∧
    ∀ out, interpolate crates template payload = .ok out →
      ∃ texts, List.Forall₂ (fun slot => Fills crates payload slot.2) slots texts ∧
        out = String.ofList (fill tail slots texts) := by
  obtain ⟨slots, tail, htask, hcases⟩ := interpolateFrom_spec crates payload template.toList []
  refine ⟨slots, tail, ?_, htask.text_eq, ?_⟩
  · intro slots' tail'
    constructor
    · exact fun h => h.unique htask
    · intro h
      obtain ⟨rfl, rfl⟩ := h
      exact htask
  · unfold interpolate
    rcases hcases with ⟨texts, htexts, hok⟩ | ⟨⟨slot, hmem, hnot⟩, e, herror⟩
    · rw [hok]
      refine ⟨⟨fun _ => resolves_of_filled htexts, fun _ => ⟨_, rfl⟩⟩, ?_⟩
      intro out hout
      cases hout
      exact ⟨texts, htexts, rfl⟩
    · rw [herror]
      refine ⟨⟨fun h => ?_, fun h => absurd (h slot hmem) hnot⟩, ?_⟩
      · obtain ⟨out, hout⟩ := h
        cases hout
      · intro out hout
        cases hout

/-- The prompt is the template with every slot filled from the payload. -/
def Filled (template : String) (payload : Option Value) (prompt : String) : Prop :=
  ∃ slots tail texts, Task template.toList slots tail ∧
    List.Forall₂ (fun slot text => ∃ p, payload = some p ∧ Fills crates p slot.2 text) slots texts ∧
    prompt = String.ofList (fill tail slots texts)

/-- The template has no slot to fill. -/
def Slotless (template : String) : Prop := ∃ tail, Task template.toList [] tail

variable {crates}

theorem interpolate_filled {template prompt : String} {p : Value}
    (h : interpolate crates template p = .ok prompt) : Filled crates template (some p) prompt := by
  obtain ⟨slots, tail, hparse, -, -, hfill⟩ := interpolate_spec crates p template
  obtain ⟨texts, htexts, hprompt⟩ := hfill prompt h
  exact ⟨slots, tail, texts, (hparse slots tail).mpr ⟨rfl, rfl⟩,
    htexts.imp fun _ _ hfills => ⟨p, rfl, hfills⟩, hprompt⟩

variable (crates) in
/-- Without a payload a template is filled just when there is nothing to fill. -/
theorem filled_none_iff {template : String} :
    Filled crates template none template ↔ Slotless template := by
  constructor
  · intro h
    obtain ⟨slots, tail, texts, htask, htexts, -⟩ := h
    cases htexts with
    | nil => exact ⟨tail, htask⟩
    | cons hfills =>
      obtain ⟨p, hp, -⟩ := hfills
      cases hp
  · intro h
    obtain ⟨tail, htask⟩ := h
    refine ⟨[], tail, [], htask, .nil, ?_⟩
    have hfill : fill tail [] [] = template.toList := htask.tail_eq
    rw [hfill, String.ofList_toList]

end Interpolate

end Prospero.Proofs.Interpolation
