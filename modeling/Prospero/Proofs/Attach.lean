import Prospero.Attach
import Prospero.Lib.Machine
import Prospero.Lib.Numbered

namespace Prospero.Proofs.Attach
open Prospero.Attach CalibandStream Numbered

/-- A line's `normalize_frame` image. -/
def image (t : Target) : Line → Option EventKind
  | .frame trimmed =>
    (t.fromStr trimmed).bind fun frame =>
      match normalizeFrame frame t.normalize with
      | .event kind => some kind
      | .dropped => none
      | .unknown => none
  | .blank => none
  | .undecodable => none

def nonBlank (lines : List Line) : List Line :=
  lines.filter (· ≠ .blank)

/-- The non-blank lines of the whole stream. -/
def streamLines (t : Target) : List Line :=
  nonBlank (readLines t.stream .eof)

/-- The lines `attach_once` counts before a line that is not UTF-8 stops it. -/
def counted (lines : List Line) : List Line :=
  (nonBlank lines).takeWhile (· ≠ .undecodable)

def arrived (t : Target) (c : Connection) : List Line :=
  match c.served with
  | none => []
  | some (n, ending) => counted (readLines (t.stream.take n) ending)

/-- An end of file after some lines and the beginning of a further one. The
beginning is counted when it is text, is not blank, and is reached. -/
def cutAfter (lines : List Line) (rest : List UInt8) : Option (Nat × Line) :=
  if rest = [] ∨ .undecodable ∈ lines then none
  else match Line.ofBytes rest with
    | .frame trimmed => some ((nonBlank lines).length, .frame trimmed)
    | .blank => none
    | .undecodable => none

/-- A line cut short by the end of the connection and counted all the same,
with the number of lines before it. -/
def cutLine (t : Target) (c : Connection) : Option (Nat × Line) :=
  match c.served with
  | some (n, .eof) =>
    let (lines, rest) := Lines.split 10 (t.stream.take n)
    cutAfter (lines.map Line.ofBytes) rest
  | _ => none

section Read

theorem process_idx (t : Target) (r : Reader) (x : String) : (r.process t x).idx = r.idx := by
  unfold Reader.process
  repeat' first | rfl | split

theorem process_framesSeen (t : Target) (r : Reader) (x : String) :
    (r.process t x).framesSeen = r.framesSeen := by
  unfold Reader.process
  repeat' first | rfl | split

theorem process_emitted (t : Target) (r : Reader) (x : String) {n : Nat} (hn : r.idx = n + 1) :
    (r.process t x).emitted = r.emitted ++ images (image t) n [.frame x] := by
  unfold Reader.process
  cases hx : t.fromStr x with
  | none => simp [images, image, hx]
  | some frame =>
    simp only
    split <;> rename_i hf <;> simp [images, image, hx, hf, hn]

theorem counted_blank (lines : List Line) : counted (.blank :: lines) = counted lines := rfl

theorem counted_undecodable (lines : List Line) : counted (.undecodable :: lines) = [] := rfl

theorem counted_frame (x : String) (lines : List Line) :
    counted (.frame x :: lines) = .frame x :: counted lines := rfl

/-- One connection emits the images of the lines it counts past the mark, and
raises the mark to their number. -/
theorem readAll_spec (t : Target) (lines : List Line) (r : Reader) (h : r.idx ≤ r.framesSeen) :
    (r.readAll t lines).1.framesSeen = max r.framesSeen (r.idx + (counted lines).length) ∧
    (r.readAll t lines).1.emitted =
      r.emitted ++ images (image t) r.framesSeen
        ((counted lines).drop (r.framesSeen - r.idx)) := by
  induction lines generalizing r with
  | nil => simp [Reader.readAll, counted, nonBlank, h]
  | cons line lines ih =>
    cases line with
    | blank => exact ih r h
    | undecodable => simp [Reader.readAll, counted_undecodable, h]
    | frame x =>
      rw [counted_frame, List.length_cons]
      simp only [Reader.readAll]
      split
      · rename_i hle
        obtain ⟨hseen, hem⟩ := ih { r with idx := r.idx + 1 } hle
        rw [hseen, hem]
        obtain ⟨k, hk⟩ : ∃ k, r.framesSeen - r.idx = k + 1 :=
          ⟨r.framesSeen - r.idx - 1, by omega⟩
        have hk' : r.framesSeen - (r.idx + 1) = k := by omega
        simp only [hk, hk', List.drop_succ_cons, and_true]
        omega
      · rename_i hgt
        have heq : r.framesSeen = r.idx := by omega
        obtain ⟨hseen, hem⟩ :=
          ih (Reader.process t { r with idx := r.idx + 1, framesSeen := r.idx + 1 } x)
            (by rw [process_idx, process_framesSeen])
        rw [hseen, hem, process_idx, process_framesSeen, process_emitted t _ x rfl]
        simp only [heq, Nat.sub_self, List.drop_zero, List.append_assoc]
        rw [← images_cons]
        exact ⟨by omega, rfl⟩

theorem attachOnce_spec (t : Target) (l : Loop) (c : Connection) :
    (attachOnce t l c).1.framesSeen = max l.framesSeen (arrived t c).length ∧
    (attachOnce t l c).1.emitted =
      l.emitted ++ images (image t) l.framesSeen ((arrived t c).drop l.framesSeen) := by
  unfold attachOnce arrived
  cases c.served with
  | none => simp
  | some served =>
    obtain ⟨n, ending⟩ := served
    have hspec := readAll_spec t (readLines (t.stream.take n) ending)
      ⟨0, l.framesSeen, false, l.emitted⟩ (Nat.zero_le _)
    simp only [Nat.zero_add, Nat.sub_zero] at hspec
    cases hr : Reader.readAll t ⟨0, l.framesSeen, false, l.emitted⟩
        (readLines (t.stream.take n) ending) with
    | mk r ok =>
      rw [hr] at hspec
      simp only [hr]
      cases ok <;> cases ending <;> exact hspec

theorem step_spec {t : Target} {l l' : Loop} {c : Connection} (h : step t l c = some l') :
    l'.framesSeen = max l.framesSeen (arrived t c).length ∧
    l'.emitted = l.emitted ++ images (image t) l.framesSeen ((arrived t c).drop l.framesSeen) := by
  have hspec := attachOnce_spec t l c
  unfold step at h
  cases hout : l.outcome with
  | some _ => simp [hout] at h
  | none =>
    simp only [hout] at h
    cases hr : attachOnce t l c with
    | mk r so =>
      rw [hr] at hspec
      simp only [hr] at h
      cases so <;> simp only [Option.some.injEq] at h <;> subst h
      · exact hspec
      · exact hspec
      · repeat' first | exact hspec | split
      · repeat' first | exact hspec | split

/-- What the connections of one `attach_loop` emit. -/
def emissions (t : Target) : Nat → List Connection → List (Nat × EventKind)
  | _, [] => []
  | seen, c :: cs =>
    images (image t) seen ((arrived t c).drop seen) ++
      emissions t (max seen (arrived t c).length) cs

theorem run_spec {t : Target} {l l' : Loop} {cs : List Connection}
    (h : Machine.run (step t) l cs = some l') :
    l'.emitted = l.emitted ++ emissions t l.framesSeen cs := by
  induction cs generalizing l with
  | nil =>
    cases h
    simp [emissions]
  | cons c cs ih =>
    obtain ⟨m, hm, hr⟩ := Machine.run_cons h
    obtain ⟨hseen, hem⟩ := step_spec hm
    rw [ih hr, hem, hseen, emissions, List.append_assoc]

end Read

section Cuts

theorem trimEnd_eq_empty {s : String} : trimEnd s = "" ↔ ∀ c ∈ s.toList, isWhitespace c = true := by
  unfold trimEnd
  rw [← String.toList_inj]
  simp [List.rdropWhile_eq_nil_iff]

/-- What goes on from a line that is not blank is not blank. -/
theorem ofBytes_append_ne_blank {p q : List UInt8} (hp : Line.ofBytes p ≠ .undecodable)
    (hb : Line.ofBytes p ≠ .blank) : Line.ofBytes (p ++ q) ≠ .blank := by
  unfold Line.ofBytes at *
  cases hs : Lines.decode p with
  | none => simp [hs] at hp
  | some s =>
    cases hu : Lines.decode (p ++ q) with
    | none => simp
    | some u =>
      have hsub : s.toList <+: u.toList := Lines.decode_prefix hs hu
      simp only [hs] at hb ⊢
      intro hblank
      have hall : trimEnd u = "" := by
        by_contra hne
        simp [hne] at hblank
      apply hb
      have hempty : trimEnd s = "" :=
        trimEnd_eq_empty.mpr fun c hc => trimEnd_eq_empty.mp hall c (hsub.subset hc)
      simp [hempty]

theorem counted_prefix (lines more : List Line) :
    counted lines <+: nonBlank (lines ++ more) := by
  unfold counted nonBlank
  rw [List.filter_append]
  exact (List.takeWhile_prefix _).trans (List.prefix_append _ _)

theorem counted_append_of_decodable {lines : List Line} (h : .undecodable ∉ lines)
    (more : List Line) : counted (lines ++ more) = nonBlank lines ++ counted more := by
  unfold counted
  have hsplit : nonBlank (lines ++ more) = nonBlank lines ++ nonBlank more := List.filter_append ..
  rw [hsplit, List.takeWhile_append_of_pos]
  intro line hm
  have hm' : line ∈ lines := (List.mem_filter.mp hm).1
  have hne : line ≠ .undecodable := fun he => h (he ▸ hm')
  simpa using hne

theorem counted_append_of_undecodable {lines : List Line} (h : .undecodable ∈ lines)
    (more : List Line) : counted (lines ++ more) = counted lines := by
  induction lines with
  | nil => simp at h
  | cons line lines ih =>
    cases line with
    | undecodable => rfl
    | blank => exact ih (by simpa using h)
    | frame x =>
      rw [List.cons_append, counted_frame, counted_frame, ih (by simpa using h)]

/-- Counting up to an end of file, when the stream goes on with `later`. -/
theorem cutAfter_cases (lines : List Line) (rest : List UInt8) (later : List (List UInt8))
    (hlater : rest ≠ [] → ∃ q ls, later = (rest ++ q) :: ls) :
    let seen := counted (if rest = [] then lines else lines ++ [Line.ofBytes rest])
    let stream := nonBlank (lines ++ later.map Line.ofBytes)
    (cutAfter lines rest = none ∧ seen <+: stream) ∨
    ∃ before line whole after, cutAfter lines rest = some (before.length, line) ∧
      seen = before ++ [line] ∧ stream = before ++ whole :: after := by
  intro seen stream
  have hsplit : stream = nonBlank lines ++ nonBlank (later.map Line.ofBytes) :=
    List.filter_append ..
  by_cases hrest : rest = []
  · left
    simp only [seen, cutAfter, hrest, if_true, true_or, true_and]
    exact counted_prefix _ _
  by_cases hu : .undecodable ∈ lines
  · left
    simp only [seen, cutAfter, hrest, hu, or_true, if_true, if_false, true_and,
      counted_append_of_undecodable hu]
    exact counted_prefix _ _
  have hseen : seen = nonBlank lines ++ counted [Line.ofBytes rest] := by
    simp only [seen, hrest, if_false, counted_append_of_decodable hu]
  rw [hseen, hsplit]
  obtain ⟨q, ls, rfl⟩ := hlater hrest
  cases hx : Line.ofBytes rest with
  | blank =>
    left
    refine ⟨by simp [cutAfter, hx], ?_⟩
    rw [counted_blank]
    exact (List.prefix_append_right_inj _).mpr List.nil_prefix
  | undecodable =>
    left
    refine ⟨by simp [cutAfter, hx], ?_⟩
    rw [counted_undecodable]
    exact (List.prefix_append_right_inj _).mpr List.nil_prefix
  | frame x =>
    right
    have hne : Line.ofBytes (rest ++ q) ≠ .blank :=
      ofBytes_append_ne_blank (by simp [hx]) (by simp [hx])
    refine ⟨nonBlank lines, .frame x, Line.ofBytes (rest ++ q), nonBlank (ls.map Line.ofBytes),
      by simp [cutAfter, hrest, hu, hx], rfl, ?_⟩
    unfold nonBlank
    rw [List.map_cons, List.filter_cons_of_pos (by simpa using hne)]

/-- A connection counts a first part of the stream's lines, but for the last
line when an end of file cut it short. -/
theorem arrived_cases (t : Target) (c : Connection) :
    (cutLine t c = none ∧ arrived t c <+: streamLines t) ∨
    ∃ before line whole after, cutLine t c = some (before.length, line) ∧
      arrived t c = before ++ [line] ∧ streamLines t = before ++ whole :: after := by
  unfold arrived cutLine streamLines
  cases c.served with
  | none => exact Or.inl ⟨rfl, List.nil_prefix⟩
  | some served =>
    obtain ⟨n, ending⟩ := served
    obtain ⟨later, hall, hlater⟩ := Lines.all_append 10 (t.stream.take n) (t.stream.drop n)
    rw [List.take_append_drop] at hall
    have hstream : readLines t.stream .eof =
        (Lines.split 10 (t.stream.take n)).1.map Line.ofBytes ++ later.map Line.ofBytes := by
      simp [readLines, hall]
    rw [hstream]
    cases ending with
    | eof =>
      have hread : readLines (t.stream.take n) .eof =
          if (Lines.split 10 (t.stream.take n)).2 = [] then
            (Lines.split 10 (t.stream.take n)).1.map Line.ofBytes
          else (Lines.split 10 (t.stream.take n)).1.map Line.ofBytes ++
            [Line.ofBytes (Lines.split 10 (t.stream.take n)).2] := by
        simp only [readLines, if_true, Lines.all]
        split <;> simp
      simp only [hread]
      exact cutAfter_cases _ _ later hlater
    | readError => exact Or.inl ⟨rfl, counted_prefix _ _⟩
    | shutdown => exact Or.inl ⟨rfl, counted_prefix _ _⟩

theorem arrived_length_le (t : Target) (c : Connection) :
    (arrived t c).length ≤ (streamLines t).length := by
  rcases arrived_cases t c with ⟨_, hpre⟩ | ⟨before, line, whole, after, _, harr, hstream⟩
  · exact hpre.length_le
  · simp [harr, hstream]

end Cuts

section Exact

/-- A line cut short past the mark yields what the whole line yields. -/
def HarmlessCut (t : Target) (seen : Nat) (c : Connection) : Prop :=
  ∀ i line, cutLine t c = some (i, line) → seen ≤ i →
    ∀ whole, (streamLines t)[i]? = some whole → image t line = image t whole

/-- No cut changes what a line yields before the line was ever counted, and
the lines no connection reaches yield nothing. -/
def HarmlessCuts (t : Target) : Nat → List Connection → Prop
  | seen, [] => ∀ line ∈ (streamLines t).drop seen, image t line = none
  | seen, c :: cs =>
    HarmlessCut t seen c ∧ HarmlessCuts t (max seen (arrived t c).length) cs

/-- One connection emits what the whole lines it counts yield exactly when its
cut is harmless. -/
theorem images_arrived_iff (t : Target) (seen : Nat) (c : Connection) :
    images (image t) seen ((arrived t c).drop seen) =
      images (image t) seen (((streamLines t).take (arrived t c).length).drop seen) ↔
    HarmlessCut t seen c := by
  rcases arrived_cases t c with ⟨hcut, hpre⟩ | ⟨before, line, whole, after, hcut, harr, hstream⟩
  · rw [← List.prefix_iff_eq_take.mp hpre]
    apply iff_of_true rfl
    intro i line h
    rw [hcut] at h
    cases h
  · have htake : (streamLines t).take (before ++ [line]).length = before ++ [whole] := by
      rw [hstream, List.length_append, List.take_length_add_append]
      rfl
    have hat : (streamLines t)[before.length]? = some whole := by
      simp [hstream]
    rw [harr, htake]
    by_cases hseen : seen ≤ before.length
    · rw [List.drop_append_of_le_length hseen, List.drop_append_of_le_length hseen,
        images_append, images_append, List.append_cancel_left_eq, images_singleton_eq_iff]
      constructor
      · intro heq i l hc _ w hw
        rw [hcut] at hc
        cases hc
        rw [hat] at hw
        cases hw
        exact heq
      · exact fun h => h _ _ hcut hseen whole hat
    · have hnil : ∀ x : Line, (before ++ [x]).drop seen = [] := by
        intro x
        apply List.drop_eq_nil_of_le
        simp
        omega
      rw [hnil, hnil]
      apply iff_of_true rfl
      intro i l hc hle
      rw [hcut] at hc
      cases hc
      exact absurd hle hseen

theorem place_of_mem_emissions {t : Target} {cs : List Connection} {seen : Nat}
    {p : Nat × EventKind} (h : p ∈ emissions t seen cs) : seen < p.1 := by
  induction cs generalizing seen with
  | nil => simp [emissions] at h
  | cons c cs ih =>
    rw [emissions, List.mem_append] at h
    rcases h with h | h
    · exact (place_of_mem h).1
    · have hlt := ih h
      omega

theorem emissions_iff (t : Target) (cs : List Connection) (seen : Nat) :
    emissions t seen cs = images (image t) seen ((streamLines t).drop seen) ↔
      HarmlessCuts t seen cs := by
  induction cs generalizing seen with
  | nil => exact eq_comm.trans images_eq_nil_iff
  | cons c cs ih =>
    have hlen := arrived_length_le t c
    rw [emissions, images_drop_max hlen, append_eq_append_iff (m := max seen (arrived t c).length),
      images_arrived_iff, ih]
    · rfl
    · intro p hp
      have hb := place_of_mem hp
      simp only [List.length_drop] at hb
      omega
    · intro p hp
      have hb := place_of_mem hp
      simp only [List.length_drop, List.length_take] at hb
      omega
    · exact fun p hp => place_of_mem_emissions hp
    · exact fun p hp => (place_of_mem hp).1

end Exact

/-- A run of `attach_loop` hands the emitter the images of the whole stream's
non-blank lines, each once and in order, exactly when its cuts are harmless. -/
theorem attach_exactly_once_iff (t : Target) (cs : List Connection) {l : Loop}
    (h : Machine.run (step t) Loop.start cs = some l) :
    l.emitted = images (image t) 0 (streamLines t) ↔ HarmlessCuts t 0 cs := by
  rw [run_spec h]
  exact emissions_iff t cs 0

def deltaText : String := "\x7b\"type\":\"AssistantTextDelta\",\"text\":\"hi\"\x7d"
def runEndText : String :=
  "\x7b\"type\":\"RunEnd\",\"turn_count\":1,\"stopped_for\":\"EndOfTurn\"\x7d"

/-- An answer and its end, with `serde_json` on the texts that occur. -/
def someTarget : Target where
  stream := (deltaText ++ "\n" ++ runEndText ++ "\n").toByteArray.data.toList
  fromStr := fun s =>
    if s = deltaText then
      some (.object [("text", .string "hi"), ("type", .string "AssistantTextDelta")])
    else if s = runEndText then
      some (.object [("stopped_for", .string "EndOfTurn"), ("turn_count", .number (.posInt 1)),
        ("type", .string "RunEnd")])
    else none
  normalize := ⟨false⟩
  maxRetries := 3

/-- The first connection breaks off inside the first line. -/
def resumedAfter (ending : Ending) : List Connection :=
  [⟨some (10, ending), .quiet⟩, ⟨none, .quiet⟩, ⟨some (200, .eof), .quiet⟩]

theorem read_error_harmless : HarmlessCuts someTarget 0 (resumedAfter .readError) := by
  have hcut : ∀ c ∈ resumedAfter .readError, cutLine someTarget c = none := by
    intro c hc
    simp only [resumedAfter, List.mem_cons, List.not_mem_nil, or_false] at hc
    rcases hc with rfl | rfl | rfl <;> rfl
  have hno : ∀ c ∈ resumedAfter .readError, ∀ seen, HarmlessCut someTarget seen c := by
    intro c hc seen i line h
    rw [hcut c hc] at h
    cases h
  refine ⟨hno _ (by simp [resumedAfter]) _, hno _ (by simp [resumedAfter]) _,
    hno _ (by simp [resumedAfter]) _, ?_⟩
  intro line hm
  cases hm

theorem resumed_after_read_error : ∃ l,
    Machine.run (step someTarget) Loop.start (resumedAfter .readError) = some l ∧
    l.outcome = some .finished ∧
    l.emitted = images (image someTarget) 0 (streamLines someTarget) :=
  ⟨_, rfl, rfl, (attach_exactly_once_iff someTarget (resumedAfter .readError) rfl).mpr
    read_error_harmless⟩

/-- The beginning of a line counts as the line, which the next connection then
skips as already processed. -/
theorem cut_line_lost : ¬∀ (t : Target) (cs : List Connection) (l : Loop),
    Machine.run (step t) Loop.start cs = some l → l.outcome = some .finished →
    l.emitted = images (image t) 0 (streamLines t) := by
  intro h
  have hall := h someTarget (resumedAfter .eof) _ rfl rfl
  have hlen := congrArg List.length hall
  cases hlen

end Prospero.Proofs.Attach
