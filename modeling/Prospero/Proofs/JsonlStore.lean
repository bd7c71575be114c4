import Prospero.JsonlStore
import Prospero.Lib.Checks
import Prospero.Proofs.Store

namespace Prospero.Proofs.JsonlStore
open Prospero.JsonlStore

section Texts

variable {serde : SerdeJson} (hs : serde.Documented)
include hs

theorem text_start {event : FleetEvent} {text : String} (h : serde.toString event = .ok text) :
    ∃ cs, text.toList = '{' :: '"' :: 's' :: cs := by
  obtain ⟨fields, rfl, -⟩ := hs.written event text h
  rw [String.append_assoc, String.toList_append]
  exact ⟨_, rfl⟩

theorem text_last {event : FleetEvent} {text : String} (h : serde.toString event = .ok text) :
    text.toList.getLast? = some '}' := by
  obtain ⟨fields, rfl, -⟩ := hs.written event text h
  rw [String.toList_append]
  exact List.getLast?_concat

theorem newline_not_mem {event : FleetEvent} {text : String}
    (h : serde.toString event = .ok text) : 10 ∉ Lines.encode text := by
  intro hmem
  obtain ⟨c, hc, hn⟩ := Lines.mem_encode (by decide) hmem
  have hnl : c = '\n' := Char.toNat_inj.mp hn
  obtain ⟨fields, rfl, hfields⟩ := hs.written event text h
  rw [hnl, String.toList_append, String.toList_append, List.mem_append, List.mem_append] at hc
  rcases hc with (hc | hc) | hc
  · exact absurd hc (by decide)
  · exact hfields hc
  · exact absurd hc (by decide)

theorem keyed {event : FleetEvent} {text : String} (h : serde.toString event = .ok text) :
    JsonText.Keyed text.toList where
  whole := hs.whole text event (hs.reads event text h)
  start := by
    obtain ⟨cs, hcs⟩ := text_start hs h
    exact ⟨'s', cs, hcs, by decide⟩

end Texts

theorem chomp_eq {line : String} (h : line.toList.getLast? = some '}') : chomp line = line := by
  rw [chomp, h]
  exact if_neg (by decide)

section Lines

theorem lines_line {bytes : List UInt8} (h : 10 ∉ bytes) (rest : List UInt8) :
    lines (bytes ++ 10 :: rest) = (Lines.decode bytes).map chomp :: lines rest := by
  rw [lines, Lines.split_line h]
  rfl

variable {serde : SerdeJson}

theorem parseLine_text (hs : serde.Documented) {event : FleetEvent} {text : String}
    (h : serde.toString event = .ok text) : parseLine serde text = some event := by
  obtain ⟨cs, hcs⟩ := text_start hs h
  rw [parseLine, if_neg, hs.reads event text h]
  rw [hcs, List.all_cons]
  exact Bool.false_ne_true

theorem collect_cons (line : String) (rest : List (Option String)) :
    collect serde (some line :: rest) =
      (collect serde rest).map ((parseLine serde line).toList ++ ·) := by
  rw [collect]
  cases collect serde rest <;> rfl

/-- The line of an event, wherever it stands, reads as the event. -/
theorem readAll_line (hs : serde.Documented) {event : FleetEvent} {text : String}
    (h : serde.toString event = .ok text) (rest : List UInt8) :
    readAll serde (Lines.encode text ++ 10 :: rest) =
      (readAll serde rest).map (event :: ·) := by
  rw [readAll, lines_line (newline_not_mem hs h), Lines.decode_eq_some.mpr rfl, Option.map_some,
    chomp_eq (text_last hs h), collect_cons, parseLine_text hs h]
  rfl

end Lines

section Appends

variable (serde : SerdeJson)

variable {serde}

theorem line_eq_ok {event : FleetEvent} {bytes : List UInt8} :
    line serde event = .ok bytes ↔
      ∃ text, serde.toString event = .ok text ∧ bytes = Lines.encode text ++ [10] := by
  unfold line
  cases h : serde.toString event with
  | error message => exact ⟨nofun, nofun⟩
  | ok text =>
    constructor
    · intro hb
      exact ⟨text, rfl, (Except.ok.inj hb).symm⟩
    · rintro ⟨text', ht, rfl⟩
      rw [Except.ok.inj ht]

/-- What a run of appends adds to a file. -/
inductive Added (serde : SerdeJson) : List FleetEvent → List UInt8 → Prop
  | nil : Added serde [] []
  | cons {event : FleetEvent} {text : String} {events : List FleetEvent} {rest : List UInt8}
      (written : serde.toString event = .ok text) (more : Added serde events rest) :
      Added serde (event :: events) (Lines.encode text ++ 10 :: rest)

/-- Complete lines read as their events, whatever comes after them. -/
theorem Added.readAll_append (hs : serde.Documented) {events : List FleetEvent}
    {bytes : List UInt8} (h : Added serde events bytes) (rest : List UInt8) :
    readAll serde (bytes ++ rest) = (readAll serde rest).map (events ++ ·) := by
  induction h with
  | nil =>
    rw [List.nil_append]
    cases readAll serde rest <;> rfl
  | cons written more ih =>
    rw [List.append_assoc, List.cons_append, readAll_line hs written, ih]
    cases readAll serde rest <;> rfl

theorem Added.readAll_eq (hs : serde.Documented) {events : List FleetEvent}
    {bytes : List UInt8} (h : Added serde events bytes) : readAll serde bytes = .ok events := by
  have hread := h.readAll_append hs []
  rw [List.append_nil] at hread
  rw [hread]
  exact congrArg Except.ok (List.append_nil events)

theorem Added.written {events : List FleetEvent} {bytes : List UInt8}
    (h : Added serde events bytes) : ∀ e ∈ events, ∃ text, serde.toString e = .ok text := by
  induction h with
  | nil => exact List.forall_mem_nil _
  | cons written more ih => exact List.forall_mem_cons.mpr ⟨⟨_, written⟩, ih⟩

theorem Added.append {events : List FleetEvent} {file bytes : List UInt8} {event : FleetEvent}
    (h : Added serde events file) (hline : line serde event = .ok bytes) :
    Added serde (events ++ [event]) (file ++ bytes) := by
  obtain ⟨text, hw, rfl⟩ := line_eq_ok.mp hline
  induction h with
  | nil => exact .cons hw .nil
  | cons written more ih =>
    rw [List.append_assoc, List.cons_append]
    exact .cons written ih

theorem added_flatten {events : List FleetEvent} {lines : List (List UInt8)}
    (h : List.Forall₂ (fun e bytes => line serde e = .ok bytes) events lines) :
    Added serde events lines.flatten := by
  induction h with
  | nil => exact .nil
  | cons hline more ih =>
    obtain ⟨text, hw, rfl⟩ := line_eq_ok.mp hline
    rw [List.flatten_cons, List.append_assoc]
    exact .cons hw ih

theorem exists_lines {events : List FleetEvent}
    (h : ∀ e ∈ events, ∃ text, serde.toString e = .ok text) :
    ∃ lines, List.Forall₂ (fun e bytes => line serde e = .ok bytes) events lines := by
  induction events with
  | nil => exact ⟨[], .nil⟩
  | cons e events ih =>
    obtain ⟨⟨text, hw⟩, hrest⟩ := List.forall_mem_cons.mp h
    obtain ⟨lines, hlines⟩ := ih hrest
    exact ⟨_ :: lines, .cons (line_eq_ok.mpr ⟨text, hw, rfl⟩) hlines⟩

/-- A prune leaves the lines of the events that are young enough. -/
theorem Added.prune (hs : serde.Documented) {events : List FleetEvent} {file : List UInt8}
    (h : Added serde events file) (beforeTs : String) :
    ∃ file' n, prune serde beforeTs file = .ok (file', n) ∧
      Added serde (events.filter fun e => beforeTs ≤ e.ts) file' := by
  unfold JsonlStore.prune
  rw [h.readAll_eq hs]
  by_cases hn : events.length - (events.filter fun e => beforeTs ≤ e.ts).length = 0
  · have hall : (events.filter fun e => beforeTs ≤ e.ts) = events := by
      apply List.filter_sublist.eq_of_length
      have hle := List.length_filter_le (fun e => decide (beforeTs ≤ e.ts)) events
      omega
    simp only [if_pos hn]
    refine ⟨file, 0, rfl, ?_⟩
    rw [hall]
    exact h
  · have hkept : ∀ e ∈ events.filter (fun e => beforeTs ≤ e.ts),
        ∃ text, serde.toString e = .ok text := fun e he => h.written e (List.mem_of_mem_filter he)
    obtain ⟨lines, hlines⟩ := exists_lines hkept
    simp only [if_neg hn, Checks.mapM_ok.mpr hlines]
    exact ⟨_, _, rfl, added_flatten hlines⟩

end Appends

section Tears

variable {serde : SerdeJson} {event : FleetEvent} {text : String} {torn : List UInt8}

end Tears

section Survival

variable {serde : SerdeJson}

/-- What a replay promises after a crash: every event whose append returned is in it, as
often as it was appended, and nothing else but perhaps the event that was cut. -/
def Kept (serde : SerdeJson) (before : List FleetEvent) (cut : FleetEvent)
    (later : List FleetEvent) (file : List UInt8) : Prop :=
  ∀ key fromSeq, ∃ events, replay serde file key fromSeq = .ok events ∧
    (Store.replay (before ++ later) key fromSeq).Subperm events ∧
    events.Subperm (Store.replay (before ++ cut :: later) key fromSeq)

variable {before later : List FleetEvent} {cut : FleetEvent} {file : List UInt8}

end Survival

section Sample

/-- An event of one agent, told by its seq and its day. -/
structure Sample where
  seq : Nat
  digit : String
  day : String

namespace Sample

def ts (s : Sample) : String := "2026-01-0" ++ s.day ++ "T00:00:00+00:00"

def event (s : Sample) : FleetEvent :=
  ⟨s.seq, s.ts, "acme", "a1", .agentSpawned, none, none⟩

def fields (s : Sample) : String :=
  s.digit ++ ",\"ts\":\"" ++ s.ts ++ "\",\"repo\":\"acme\",\"agent_id\":\"a1\"," ++
    "\"kind\":\x7b\"kind\":\"agent_spawned\"\x7d"

def text (s : Sample) : String := "\x7b\"seq\":" ++ s.fields ++ "\x7d"

def fits (s : Sample) : FleetEvent → Bool
  | ⟨seq, ts, repo, agentId, .agentSpawned, none, none⟩ =>
    seq = s.seq ∧ ts = s.ts ∧ repo = "acme" ∧ agentId = "a1"
  | _ => false

end Sample

def first : Sample := ⟨1, "1", "1"⟩

def second : Sample := ⟨2, "2", "2"⟩

def third : Sample := ⟨3, "3", "3"⟩

end Sample

end Prospero.Proofs.JsonlStore
