import Prospero.Lib.Blocks
import Prospero.Timeline

namespace Prospero.Proofs.Timeline
open Prospero.Timeline
open Prospero.Dashboard (Entry)

section Entries

/-- What an entry is to the timeline: text of a stream, the start of a call with its place
in the stream, id, name and input, the finish of one, or a segment of its own. -/
inductive Role
  | chunk (stream : OutputStream) (text : String)
  | start (call : Nat × String × String × Value)
  | finish
  | plain (seg : Segment)

def role : Entry → Role
  | .gap skipped => .plain (.gap skipped)
  | .undecodable why => .plain (.undecodable why)
  | .event e =>
    match e.kind with
    | .output stream chunk => .chunk stream chunk
    | .toolStarted id name input => .start (e.seq, id, name, input)
    | .toolFinished .. => .finish
    | .agentInit model tools sessionId => .plain (.init model tools sessionId)
    | .statusChanged fromStatus toStatus => .plain (.status fromStatus toStatus)
    | .agentFinished outcome costUsd turns => .plain (.finished outcome costUsd turns)
    | other => .plain (.other (kindLabel other))

def chunkOf (stream : OutputStream) (e : Entry) : Option String :=
  match role e with
  | .chunk other text => if other = stream then some text else none
  | _ => none

def startOf (e : Entry) : Option (Nat × String × String × Value) :=
  match role e with
  | .start call => some call
  | _ => none

def plainOf (e : Entry) : Option Segment :=
  match role e with
  | .plain seg => some seg
  | _ => none

end Entries

section Segments

def blockOf : OutputStream → String → Segment
  | .stdout, text => .output text
  | .thinking, text => .thinking text

def textOf : OutputStream → Segment → Option String
  | .stdout, .output text => some text
  | .thinking, .thinking text => some text
  | _, _ => none

def callOf : Segment → Option (Nat × String × String × Value)
  | .tool t => some (t.seq, t.id, t.name, t.input)
  | _ => none

def loneOf : Segment → Option Segment
  | .output _ | .thinking _ | .tool _ => none
  | seg => some seg

end Segments

/-- The consecutive entries that a segment is made of. A block of chunks has nothing
between them but finishes, and to any other segment nothing but finishes is added. -/
inductive Block : List Entry → Segment → Prop
  | chunks {stream : OutputStream} {first : Entry} {rest : List Entry} {seg : Segment}
      (starts : ∃ text, role first = .chunk stream text)
      (goesOn : ∀ x ∈ rest, (∃ text, role x = .chunk stream text) ∨ role x = .finish)
      (joined : seg = blockOf stream (String.join ((first :: rest).filterMap (chunkOf stream)))) :
      Block (first :: rest) seg
  | tool {first : Entry} {rest : List Entry} {seg : Segment} {call : Nat × String × String × Value}
      (starts : role first = .start call) (goesOn : ∀ x ∈ rest, role x = .finish)
      (same : callOf seg = some call) : Block (first :: rest) seg
  | plain {first : Entry} {rest : List Entry} {seg : Segment} (starts : role first = .plain seg)
      (goesOn : ∀ x ∈ rest, role x = .finish) : Block (first :: rest) seg

section Block

variable {e : Entry} {block : List Entry} {seg : Segment} {stream : OutputStream}

theorem plain_of_role (h : role e = .plain seg) : loneOf seg = some seg := by
  unfold role at h
  split at h
  · cases h
    rfl
  · cases h
    rfl
  · split at h <;> cases h <;> rfl

theorem mem_snoc {P : Entry → Prop} {rest : List Entry} (h : ∀ x ∈ rest, P x) (he : P e) :
    ∀ x ∈ rest ++ [e], P x := by
  intro x hx
  rcases List.mem_append.mp hx with hmem | hmem
  · exact h x hmem
  · exact List.mem_singleton.mp hmem ▸ he

/-- A finish leaves what the segment is made of as it is. -/
theorem Block.finish (h : Block block seg) (he : role e = .finish) : Block (block ++ [e]) seg := by
  cases h with
  | chunks starts goesOn joined =>
    refine .chunks starts (mem_snoc goesOn (Or.inr he)) ?_
    simp [joined, List.filterMap_cons, chunkOf, he]
  | tool starts goesOn same => exact .tool starts (mem_snoc goesOn he) same
  | plain starts goesOn => exact .plain starts (mem_snoc goesOn he)

variable (stream) in
theorem Block.single {chunk : String} (he : role e = .chunk stream chunk) :
    Block [e] (blockOf stream chunk) :=
  .chunks ⟨chunk, he⟩ (by simp) (by simp [chunkOf, he])

variable (stream) in
theorem Block.chunk {text chunk : String} (h : Block block (blockOf stream text))
    (he : role e = .chunk stream chunk) :
    Block (block ++ [e]) (blockOf stream (text ++ chunk)) := by
  cases h with
  | @chunks other first rest _ starts goesOn joined =>
    have hsame : stream = other ∧
        text = String.join ((first :: rest).filterMap (chunkOf other)) := by
      cases stream <;> cases other <;> cases joined <;> exact ⟨rfl, rfl⟩
    obtain ⟨rfl, rfl⟩ := hsame
    refine .chunks starts (mem_snoc goesOn (Or.inl ⟨chunk, he⟩)) ?_
    change _ = blockOf stream (String.join (((first :: rest) ++ [e]).filterMap (chunkOf stream)))
    rw [List.filterMap_append, String.join_append]
    simp [chunkOf, he]
  | tool starts goesOn same => cases stream <;> cases same
  | plain starts goesOn =>
    have hplain := plain_of_role starts
    cases stream <;> cases hplain

end Block

/-- An open block is the last segment. -/
structure Inv (entries : List Entry) (g : Grouping) : Prop where
  cut : Blocks.Cut (fun e => role e = .finish) Block entries g.segs
  output : ∀ i, g.openOutput = some i →
    ∃ segs text, g.segs = segs ++ [.output text] ∧ i = segs.length
  thinking : ∀ i, g.openThinking = some i →
    ∃ segs text, g.segs = segs ++ [.thinking text] ∧ i = segs.length

theorem modify_last {β : Type} (xs : List β) (y : β) (f : β → β) :
    (xs ++ [y]).modify xs.length f = xs ++ [f y] := by
  induction xs with
  | nil => rfl
  | cons x xs ih => simp [ih]

theorem modify_before_last {β : Type} (xs : List β) (i : Nat) {y : β} {f : β → β} (hy : f y = y) :
    (xs ++ [y]).modify i f = xs.modify i f ++ [y] := by
  induction xs generalizing i with
  | nil => cases i <;> simp [hy]
  | cons x xs ih => cases i <;> simp [ih]

section Step

variable {entries : List Entry} {g : Grouping} {e : Entry}

theorem Inv.push {seg : Segment} (h : Inv entries g) (he : Block [e] seg) :
    Inv (entries ++ [e]) (g.push seg) :=
  ⟨h.cut.push he, by simp [Grouping.push], by simp [Grouping.push]⟩

theorem Inv.pushStdout {chunk : String} (h : Inv entries g) (he : role e = .chunk .stdout chunk) :
    Inv (entries ++ [e]) (g.pushStdout chunk) := by
  unfold Grouping.pushStdout
  split
  · rename_i i hopen
    obtain ⟨segs, text, hsegs, rfl⟩ := h.output i hopen
    have hcut := h.cut
    rw [hsegs] at hcut
    refine ⟨?_, ?_, by simp⟩
    · rw [hsegs, modify_last]
      exact hcut.extend fun block hblock => hblock.chunk .stdout he
    · intro j hj
      obtain rfl := Option.some.inj (hopen.symm.trans hj)
      exact ⟨segs, text ++ chunk, by rw [hsegs, modify_last], rfl⟩
  · refine ⟨h.cut.push (.single .stdout he), ?_, by simp⟩
    intro j hj
    exact ⟨g.segs, chunk, rfl, (Option.some.inj hj).symm⟩

theorem Inv.pushThinking {chunk : String} (h : Inv entries g)
    (he : role e = .chunk .thinking chunk) : Inv (entries ++ [e]) (g.pushThinking chunk) := by
  unfold Grouping.pushThinking
  split
  · rename_i i hopen
    obtain ⟨segs, text, hsegs, rfl⟩ := h.thinking i hopen
    have hcut := h.cut
    rw [hsegs] at hcut
    refine ⟨?_, by simp, ?_⟩
    · rw [hsegs, modify_last]
      exact hcut.extend fun block hblock => hblock.chunk .thinking he
    · intro j hj
      obtain rfl := Option.some.inj (hopen.symm.trans hj)
      exact ⟨segs, text ++ chunk, by rw [hsegs, modify_last], rfl⟩
  · refine ⟨h.cut.push (.single .thinking he), by simp, ?_⟩
    intro j hj
    exact ⟨g.segs, chunk, rfl, (Option.some.inj hj).symm⟩

/-- A finish rewrites no more of a call than what its start has left open. -/
theorem Inv.finish {x : FleetEvent} {id : String} {ok : Bool} {result : Option String}
    {truncated : Bool} (h : Inv entries g) (he : role e = .finish) :
    Inv (entries ++ [e]) (g.finish x id ok result truncated) := by
  have hcut := h.cut.skip he fun block seg hblock => hblock.finish he
  unfold Grouping.finish
  split
  · exact ⟨hcut, h.output, h.thinking⟩
  · rename_i i hfound
    refine ⟨hcut.modify i ?_, ?_, ?_⟩
    · intro block seg hblock
      cases seg with
      | tool t =>
        cases hblock with
        | @chunks stream _ _ _ _ _ joined => cases stream <;> cases joined
        | tool starts goesOn same => exact .tool starts goesOn same
        | plain starts goesOn => cases plain_of_role starts
      | _ => exact hblock
    · intro j hj
      obtain ⟨segs, text, hsegs, rfl⟩ := h.output j hj
      exact ⟨segs.modify i _, text, by rw [hsegs]; exact modify_before_last segs i rfl,
        List.length_modify .. |>.symm⟩
    · intro j hj
      obtain ⟨segs, text, hsegs, rfl⟩ := h.thinking j hj
      exact ⟨segs.modify i _, text, by rw [hsegs]; exact modify_before_last segs i rfl,
        List.length_modify .. |>.symm⟩

theorem Inv.event {x : FleetEvent} (h : Inv entries g) :
    Inv (entries ++ [.event x]) (g.event x) := by
  unfold Grouping.event
  cases hkind : x.kind with
  | output stream chunk =>
    cases stream with
    | stdout => exact h.pushStdout (by simp [role, hkind])
    | thinking => exact h.pushThinking (by simp [role, hkind])
  | toolStarted id name input =>
    have hpush : Inv (entries ++ [.event x])
        (g.push (.tool ⟨x.seq, id, name, input, .running, none, none, false⟩)) :=
      h.push (.tool (by simp only [role, hkind]) (by simp) rfl)
    exact ⟨hpush.cut, hpush.output, hpush.thinking⟩
  | toolFinished id name ok result truncated => exact h.finish (by simp [role, hkind])
  | _ => exact h.push (.plain (by simp [role, hkind]) (by simp))

theorem Inv.entry (h : Inv entries g) (e : Entry) : Inv (entries ++ [e]) (g.entry e) := by
  cases e with
  | gap skipped => exact h.push (.plain rfl (by simp))
  | undecodable why => exact h.push (.plain rfl (by simp))
  | event x => exact h.event

theorem grouping_inv (entries : List Entry) : Inv entries (grouping entries) := by
  induction entries using List.reverseRecOn with
  | nil => exact ⟨.nil, by simp [grouping], by simp [grouping]⟩
  | append_singleton entries e ih =>
    rw [grouping, List.foldl_append]
    exact ih.entry e

end Step

section Conserve

variable {e : Entry} {block : List Entry} {seg : Segment}

theorem toList_join_filterMap {α : Type} (f : α → Option String) (xs : List α) :
    (String.join (xs.filterMap f)).toList = xs.flatMap fun x => (f x).elim [] String.toList := by
  rw [String.toList_join]
  induction xs with
  | nil => rfl
  | cons x xs ih => cases hx : f x <;> simp [hx, ih]

theorem chunks_role {stream : OutputStream} {first : Entry} {rest : List Entry}
    (starts : ∃ text, role first = .chunk stream text)
    (goesOn : ∀ x ∈ rest, (∃ text, role x = .chunk stream text) ∨ role x = .finish) :
    ∀ x ∈ first :: rest, (∃ text, role x = .chunk stream text) ∨ role x = .finish := by
  intro x hx
  rcases List.mem_cons.mp hx with rfl | hmem
  · exact Or.inl starts
  · exact goesOn x hmem

theorem filterMap_silent {β : Type} {f : Entry → Option β} {xs : List Entry}
    (h : ∀ x ∈ xs, role x = .finish) (hf : ∀ x, role x = .finish → f x = none) :
    xs.filterMap f = [] :=
  List.filterMap_eq_nil_iff.mpr fun x hx => hf x (h x hx)

theorem textOf_call {stream : OutputStream} {call : Nat × String × String × Value}
    (h : callOf seg = some call) : textOf stream seg = none := by
  cases seg <;> cases stream <;> first | rfl | cases h

theorem textOf_plain {stream : OutputStream} (h : loneOf seg = some seg) :
    textOf stream seg = none := by
  cases seg <;> cases stream <;> first | rfl | cases h

theorem textOf_blockOf {stream other : OutputStream} (h : stream ≠ other) (text : String) :
    textOf stream (blockOf other text) = none := by
  cases stream <;> cases other <;> first | rfl | exact absurd rfl h

/-- The chunks of a stream are in the blocks of that stream only. -/
theorem Block.texts (h : Block block seg) (stream : OutputStream) :
    String.join (block.filterMap (chunkOf stream)) = (textOf stream seg).getD "" := by
  cases h with
  | @chunks other first rest _ starts goesOn joined =>
    by_cases hsame : stream = other
    · subst hsame
      rw [joined]
      cases stream <;> rfl
    · have hnone : (first :: rest).filterMap (chunkOf stream) = [] := by
        rw [List.filterMap_eq_nil_iff]
        intro x hx
        rcases chunks_role starts goesOn x hx with ⟨text, htext⟩ | hfinish
        · simp [chunkOf, htext, Ne.symm hsame]
        · simp [chunkOf, hfinish]
      rw [hnone, joined, textOf_blockOf hsame, String.join_nil]
      rfl
  | tool starts goesOn same =>
    rw [List.filterMap_cons_none (by simp [chunkOf, starts]),
      filterMap_silent goesOn fun x hx => by simp [chunkOf, hx], textOf_call same,
      String.join_nil]
    rfl
  | plain starts goesOn =>
    rw [List.filterMap_cons_none (by simp [chunkOf, starts]),
      filterMap_silent goesOn fun x hx => by simp [chunkOf, hx],
      textOf_plain (plain_of_role starts), String.join_nil]
    rfl

theorem Block.calls (h : Block block seg) : block.filterMap startOf = (callOf seg).toList := by
  cases h with
  | @chunks stream first rest _ starts goesOn joined =>
    have hnone : (first :: rest).filterMap startOf = [] := by
      rw [List.filterMap_eq_nil_iff]
      intro x hx
      rcases chunks_role starts goesOn x hx with ⟨text, htext⟩ | hfinish
      · simp [startOf, htext]
      · simp [startOf, hfinish]
    rw [hnone, joined]
    cases stream <;> rfl
  | @tool _ _ _ call starts goesOn same =>
    rw [List.filterMap_cons_some (b := call) (by simp [startOf, starts]),
      filterMap_silent goesOn fun x hx => by simp [startOf, hx], same]
    rfl
  | plain starts goesOn =>
    rw [List.filterMap_cons_none (by simp [startOf, starts]),
      filterMap_silent goesOn fun x hx => by simp [startOf, hx]]
    have hplain := plain_of_role starts
    cases seg <;> first | rfl | cases hplain

theorem Block.plains (h : Block block seg) : block.filterMap plainOf = (loneOf seg).toList := by
  cases h with
  | @chunks stream first rest _ starts goesOn joined =>
    have hnone : (first :: rest).filterMap plainOf = [] := by
      rw [List.filterMap_eq_nil_iff]
      intro x hx
      rcases chunks_role starts goesOn x hx with ⟨text, htext⟩ | hfinish
      · simp [plainOf, htext]
      · simp [plainOf, hfinish]
    rw [hnone, joined]
    cases stream <;> rfl
  | tool starts goesOn same =>
    rw [List.filterMap_cons_none (by simp [plainOf, starts]),
      filterMap_silent goesOn fun x hx => by simp [plainOf, hx]]
    cases seg <;> first | rfl | cases same
  | plain starts goesOn =>
    rw [List.filterMap_cons_some (b := seg) (by simp [plainOf, starts]),
      filterMap_silent goesOn fun x hx => by simp [plainOf, hx], plain_of_role starts]
    rfl

/-- The timeline loses nothing and keeps the order: the text of a stream is its chunks in
order, every start has its call and every entry that stands alone its segment. The
entries fall into consecutive blocks, one for each segment, so that two chunks share one
only with chunks of their stream and finishes between them. -/
theorem group_spec (entries : List Entry) :
    (∀ stream, String.join ((group entries).filterMap (textOf stream)) =
      String.join (entries.filterMap (chunkOf stream))) ∧
    (group entries).filterMap callOf = entries.filterMap startOf ∧
    (group entries).filterMap loneOf = entries.filterMap plainOf ∧
    ∃ lead blocks, entries = lead ++ blocks.flatten ∧ (∀ x ∈ lead, role x = .finish) ∧
      List.Forall₂ Block blocks (group entries) := by
  have hcut := (grouping_inv entries).cut
  refine ⟨?_, ?_, ?_, hcut⟩
  · intro stream
    apply String.toList_injective
    rw [toList_join_filterMap, toList_join_filterMap]
    refine (hcut.flatMap_eq (fun x hx => by simp [chunkOf, hx]) fun block seg hblock => ?_).symm
    rw [← toList_join_filterMap, hblock.texts]
    cases textOf stream seg <;> rfl
  · rw [List.filterMap_eq_flatMap_toList, List.filterMap_eq_flatMap_toList]
    refine (hcut.flatMap_eq (fun x hx => by simp [startOf, hx]) fun block seg hblock => ?_).symm
    rw [← List.filterMap_eq_flatMap_toList, hblock.calls]
  · rw [List.filterMap_eq_flatMap_toList, List.filterMap_eq_flatMap_toList]
    refine (hcut.flatMap_eq (fun x hx => by simp [plainOf, hx]) fun block seg hblock => ?_).symm
    rw [← List.filterMap_eq_flatMap_toList, hblock.plains]

end Conserve

end Prospero.Proofs.Timeline
