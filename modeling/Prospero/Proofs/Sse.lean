import Mathlib.Data.Bool.AllAny
import Prospero.EventJson
import Prospero.Proofs.JsonlStore
import Prospero.Sse

namespace Prospero.Proofs.Sse
open Prospero.Sse
open Prospero.Automations (isWhitespace stripPrefix trim)
open EventStream (Field Item terminated)

section Texts

theorem stripPrefix_append (pre cs : List Char) : stripPrefix pre (pre ++ cs) = some cs := by
  rw [stripPrefix, if_pos (List.prefix_append pre cs), List.drop_left]

theorem stripPrefix_eq_none {pre text : List Char} (h : ¬pre <+: text) :
    stripPrefix pre text = none := if_neg h

theorem trim_prefix_of_head {cs : List Char} (h : ∀ c ∈ cs.head?, isWhitespace c = false) :
    trim cs <+: cs := by
  have hdrop : cs.dropWhile isWhitespace = cs := by
    cases cs with
    | nil => rfl
    | cons c cs =>
      rw [List.dropWhile_cons_of_neg]
      rw [h c rfl]
      exact Bool.false_ne_true
  rw [trim, hdrop]
  exact List.rdropWhile_prefix isWhitespace (l := cs)

/-- What is trimmed of the beginning of a value is a beginning of it. -/
theorem trim_prefix {spaced : Bool} {q text : List Char}
    (h : q <+: (if spaced then [' '] else []) ++ text)
    (hhead : ∀ c ∈ text.head?, isWhitespace c = false) : trim q <+: text := by
  have hsolid {r : List Char} (hr : r <+: text) : trim r <+: text := by
    refine (trim_prefix_of_head ?_).trans hr
    intro c hc
    obtain ⟨cs, rfl⟩ := List.head?_eq_some_iff.mp hc
    obtain ⟨later, rfl⟩ := hr
    exact hhead c rfl
  cases spaced with
  | false => exact hsolid h
  | true =>
    cases q with
    | nil => exact List.nil_prefix
    | cons c r =>
      obtain ⟨rfl, hr⟩ := List.cons_prefix_cons.mp h
      change trim r <+: text
      exact hsolid hr

end Texts

section Lines

variable {ν : Type} (serde : SerdeJson ν) (eventName : String) {q : List Char}

theorem onLine_payload {payload : List Char} (hevent : ¬"event:".toList <+: q)
    (hdata : stripPrefix "data:".toList q = some payload) :
    onLine serde eventName (String.ofList q) =
      if trim payload = [] then (eventName, none)
      else match serde.valueFromStr (String.ofList (trim payload)) with
        | .ok value => (eventName, some (eventName, value))
        | .error _ => (eventName, none) := by
  unfold onLine
  rw [String.toList_ofList (l := q), stripPrefix_eq_none hevent]
  dsimp only
  split
  · rename_i found hfound
    cases hdata.symm.trans hfound
    rfl
  · rename_i hnone
    cases hdata.symm.trans hnone

theorem onLine_other (hevent : ¬"event:".toList <+: q) (hdata : ¬"data:".toList <+: q) :
    onLine serde eventName (String.ofList q) = (if q = [] then "" else eventName, none) := by
  have hempty : String.ofList q = "" ↔ q = [] := by
    rw [← String.toList_inj, String.toList_ofList]
    rfl
  rw [onLine, String.toList_ofList (l := q), stripPrefix_eq_none hevent,
    stripPrefix_eq_none hdata]
  simp only [hempty]
  split
  · rfl
  · rfl

end Lines

section Payloads

variable {ν : Type} {serde : SerdeJson ν} (hs : serde.Documented)
include hs

variable {frame : Frame} {text : String} (ht : serde.toString frame = .ok text)
include ht

theorem text_head : text.toList.head? = some '{' := by
  obtain ⟨body, rfl, -⟩ := hs.written frame text ht
  rw [String.append_assoc, String.toList_append]
  rfl

theorem text_last : text.toList.getLast? = some '}' := by
  obtain ⟨body, rfl, -⟩ := hs.written frame text ht
  rw [String.toList_append]
  exact List.getLast?_concat

theorem text_solid : (∀ c ∈ text.toList.head?, isWhitespace c = false) ∧
    ∀ c ∈ text.toList.getLast?, isWhitespace c = false := by
  rw [text_head hs ht, text_last hs ht]
  constructor
  · rintro c ⟨⟩
    decide
  · rintro c ⟨⟩
    decide

/-- Of a beginning of a payload only the whole of it is read. -/
theorem eq_of_read {q : List Char} {v : ν} (hq : q <+: text.toList) (hne : q ≠ [])
    (hv : serde.valueFromStr (String.ofList q) = .ok v) : q = text.toList := by
  obtain ⟨rest, hrest⟩ := hq
  have hhead : q.head? = some '{' := by
    have h := text_head hs ht
    rw [← hrest, List.head?_append_of_ne_nil q hne] at h
    exact h
  have hwhole := hs.whole _ v hv (by rw [String.toList_ofList]; exact hhead)
  rw [String.toList_ofList] at hwhole
  have htext : JsonText.Whole (q ++ rest) := by
    rw [hrest]
    exact hs.whole text _ (hs.values frame text ht) (text_head hs ht)
  rcases List.eq_nil_or_concat rest with rfl | ⟨init, last, rfl⟩
  · rw [← hrest, List.append_nil]
  · refine absurd hwhole (JsonText.not_whole_of_append htext ⟨last, by simp, ?_⟩)
    have hlast := text_last hs ht
    rw [← hrest, List.concat_eq_append, ← List.append_assoc, List.getLast?_concat] at hlast
    rw [Option.some.inj hlast]
    rfl

/-- What has come of a payload's line either says nothing or is all of it. -/
theorem onLine_data_prefix (eventName : String) {spaced : Bool} {q : List Char}
    (hq : q <+: "data:".toList ++ ((if spaced then [' '] else []) ++ text.toList)) :
    (onLine serde eventName (String.ofList q)).2 = none ∨
      (onLine serde eventName (String.ofList q)).2 = some (eventName, serde.toValue frame) := by
  have hnot : ¬"event:".toList <+: q := by
    intro h
    exact absurd (h.trans hq) (by simp)
  by_cases hdata : "data:".toList <+: q
  · obtain ⟨payload, rfl⟩ := hdata
    have htrim := trim_prefix ((List.prefix_append_right_inj _).mp hq) (text_solid hs ht).1
    rw [onLine_payload serde eventName hnot (stripPrefix_append _ _)]
    split
    · exact Or.inl rfl
    · rename_i hne
      cases hv : serde.valueFromStr (String.ofList (trim payload)) with
      | error e => exact Or.inl rfl
      | ok v =>
        rw [eq_of_read hs ht htrim hne hv, String.ofList_toList, hs.values frame text ht] at hv
        rw [Except.ok.inj hv]
        exact Or.inr rfl
  · rw [onLine_other serde eventName hnot hdata]
    exact Or.inl rfl

end Payloads

section Layout

structure PlainField (name text : String) : Prop where
  named : name ≠ ""
  colon : ':' ∉ name.toList
  value : text.toList.head? ≠ some ' '
  name : ∀ c ∈ name.toList, c ≠ '\n' ∧ c ≠ '\r'
  text : ∀ c ∈ text.toList, c ≠ '\n' ∧ c ≠ '\r'

def Plain (e : Event) : Prop := ∀ f ∈ e, PlainField f.1 f.2

variable {α : Type} {event : α → Event} {xs : List α} {items : List Item}

theorem Wire.append {ys : List α} {items' : List Item} (h : Wire event xs items)
    (h' : Wire event ys items') : Wire event (xs ++ ys) (items ++ items') := by
  induction h with
  | nil => exact h'
  | keepAlive text plain more ih => exact .keepAlive text plain ih
  | event laid more ih => exact .event laid ih

theorem Laid.fields {e : Event} {fields : List Field} (h : Laid e fields)
    (b : EventStream.Buffer) :
    b.fields fields = e.foldl (fun b f => b.field f.1.toList f.2.toList) b := by
  rw [h, EventStream.Buffer.fields, List.foldl_map]
  simp only [String.toList_ofList]

end Layout

section Frames

variable {ν : Type} {serde : SerdeJson ν} (hs : serde.Documented)

def dataLine (spaced : Bool) (text : String) : List Char :=
  "data:".toList ++ ((if spaced then [' '] else []) ++ text.toList)

end Frames

section Cli

variable {ν : Type} {serde : SerdeJson ν}

/-- What `on_event` is called with for a frame. -/
def told (serde : SerdeJson ν) : Frame → String × ν
  | .event e => ("", serde.toValue (.event e))
  | .gap skipped lastSeq => ("gap", serde.toValue (.gap skipped lastSeq))

theorem readEvents_cons (eventName : String) (line : List Char) (rest : List (Option String)) :
    (readEvents serde eventName (some (String.ofList line) :: rest)).1 =
      (onLine serde eventName (String.ofList line)).2.toList ++
        (readEvents serde (onLine serde eventName (String.ofList line)).1 rest).1 := rfl

theorem onLine_blank (eventName : String) :
    onLine serde eventName (String.ofList []) = ("", none) := by
  rw [onLine_other serde eventName (by simp) (by simp)]
  rfl

variable (hs : serde.Documented)
include hs

omit hs in
/-- What the line that a stream breaks off in is read as. -/
def Last (line : List Char) (last : List (Option String)) : Prop :=
  last = [] ∨ last = [none] ∨ ∃ q, q <+: line ∧ last = [some (String.ofList q)]

omit hs in
theorem Last.silent {line : List Char} {last : List (Option String)} (h : Last line last)
    {eventName : String}
    (hq : ∀ q, q <+: line → (onLine serde eventName (String.ofList q)).2 = none) :
    (readEvents serde eventName last).1 = [] := by
  rcases h with rfl | rfl | ⟨q, hpre, rfl⟩
  · rfl
  · rfl
  · rw [readEvents_cons, hq q hpre]
    rfl

omit hs in
theorem Last.blank {last : List (Option String)} (h : Last [] last) (eventName : String) :
    (readEvents serde eventName last).1 = [] := by
  apply h.silent
  intro q hq
  rw [List.prefix_nil.mp hq, onLine_blank]

theorem Last.data {frame : Frame} {text : String} (ht : serde.toString frame = .ok text)
    {spaced : Bool} {last : List (Option String)} (h : Last (dataLine spaced text) last)
    (eventName : String) :
    (readEvents serde eventName last).1 = [] ∨
      (readEvents serde eventName last).1 = [(eventName, serde.toValue frame)] := by
  rcases h with rfl | rfl | ⟨q, hq, rfl⟩
  · exact Or.inl rfl
  · exact Or.inl rfl
  · rw [readEvents_cons]
    rcases onLine_data_prefix hs ht eventName hq with hcall | hcall
    · rw [hcall]
      exact Or.inl rfl
    · rw [hcall]
      exact Or.inr rfl

end Cli

section Bodies

theorem chomp_eq {line : List Char} (h : '\r' ∉ line) :
    JsonlStore.chomp (String.ofList line) = String.ofList line := by
  rw [JsonlStore.chomp, String.toList_ofList, if_neg]
  intro hlast
  exact h (List.mem_of_getLast? hlast)

end Bodies

section Sample

def spawned : FleetEvent := JsonlStore.first.event

def spawnedText : String := JsonlStore.first.text

def gapText : String := "\x7b\"skipped\":2,\"last_seq\":1\x7d"

/-- What the sample writes. -/
inductive Written : Frame → String → Prop
  | event : Written (.event spawned) spawnedText
  | gap : Written (.gap 2 1) gapText

def utf8 (bytes : List UInt8) : List Char := ((Lines.decode bytes).map String.toList).getD []

end Sample

section Streams

open Prospero.Dashboard (Incoming)

variable {ν : Type} {serde : SerdeJson ν} (hs : serde.Documented)
  {decode : List UInt8 → List Char} (hd : ∀ s : String, decode (Lines.encode s) = s.toList)

end Streams

end Prospero.Proofs.Sse
