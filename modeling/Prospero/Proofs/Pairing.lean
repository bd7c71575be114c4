import Mathlib.Data.List.Nodup
import Prospero.Timeline

namespace Prospero.Proofs.Pairing
open Prospero.Timeline
open Prospero.Dashboard (Entry)

def toolOf : Segment → Option ToolCall
  | .tool t => some t
  | _ => none

/-- The tool call at an index. -/
def callAt (segs : List Segment) (i : Nat) : Option ToolCall := segs[i]?.bind toolOf

def startedId : Entry → Option String
  | .event e =>
    match e.kind with
    | .toolStarted id _ _ => some id
    | _ => none
  | _ => none

/-- The id of a finish, and what it reports. -/
def finishOf : Entry → Option (String × Bool × Option String)
  | .event e =>
    match e.kind with
    | .toolFinished id _ ok result _ => some (id, ok, result)
    | _ => none
  | _ => none

def outcomeOf (ok : Bool) : ToolOutcome := if ok then .ok else .failed

section Segments

variable {segs : List Segment} {i j : Nat} {seg : Segment}

theorem callAt_append (hj : j < segs.length) : callAt (segs ++ [seg]) j = callAt segs j := by
  unfold callAt
  rw [List.getElem?_append_left hj]

theorem callAt_length : callAt (segs ++ [.tool t]) segs.length = some t := by
  simp [callAt, toolOf]

theorem lt_of_callAt {t : ToolCall} (h : callAt segs i = some t) : i < segs.length := by
  by_contra hi
  rw [callAt, List.getElem?_eq_none (Nat.not_lt.mp hi)] at h
  cases h

theorem callAt_modify (f : Segment → Segment) :
    callAt (segs.modify i f) j =
      if i = j then segs[j]?.bind fun seg => toolOf (f seg) else callAt segs j := by
  unfold callAt
  rw [List.getElem?_modify]
  split <;> cases segs[j]? <;> rfl

theorem callAt_onTool (f : ToolCall → ToolCall) :
    callAt (segs.modify i (Segment.onTool f)) j =
      if i = j then (callAt segs j).map f else callAt segs j := by
  have htool : ∀ seg, toolOf (seg.onTool f) = (toolOf seg).map f := by
    intro seg
    cases seg <;> rfl
  rw [callAt_modify]
  simp only [htool, callAt, Option.map_bind]
  rfl

/-- What is written over a segment of another kind touches no call. -/
theorem callAt_same {f : Segment → Segment} (hf : ∀ seg, toolOf (f seg) = toolOf seg) :
    callAt (segs.modify i f) j = callAt segs j := by
  rw [callAt_modify]
  simp only [hf]
  exact ite_self _

end Segments

/-- What one entry does to the calls. -/
inductive Turn (g g' : Grouping) (e : Entry) : Prop
  | started (id : String) (t : ToolCall) (starts : startedId e = some id)
      (other : finishOf e = none) (named : t.id = id) (running : t.outcome = .running)
      (length : g'.segs.length = g.segs.length + 1)
      (calls : ∀ j, callAt g'.segs j = if j = g.segs.length then some t else callAt g.segs j)
      (waits : g'.openTools = g.openTools ++ [g.segs.length])
  | paired (id : String) (ok : Bool) (result : Option String) (i : Nat) (f : ToolCall → ToolCall)
      (finishes : finishOf e = some (id, ok, result)) (other : startedId e = none)
      (found : g.found id = some i) (named : ∀ t, (f t).id = t.id)
      (settles : ∀ t, (f t).outcome = outcomeOf ok ∧ (f t).result = result)
      (length : g'.segs.length = g.segs.length)
      (calls : ∀ j, callAt g'.segs j = if i = j then (callAt g.segs j).map f else callAt g.segs j)
      (waits : g'.openTools = g.openTools.filter (· ≠ i))
  | missed (id : String) (ok : Bool) (result : Option String)
      (finishes : finishOf e = some (id, ok, result)) (other : startedId e = none)
      (found : g.found id = none) (same : g' = g)
  | passed (starts : startedId e = none) (finishes : finishOf e = none)
      (length : g.segs.length ≤ g'.segs.length)
      (calls : ∀ j, callAt g'.segs j = callAt g.segs j) (waits : g'.openTools = g.openTools)

section Turn

variable {g : Grouping}

theorem callAt_push {seg : Segment} (h : toolOf seg = none) (j : Nat) :
    callAt (g.segs ++ [seg]) j = callAt g.segs j := by
  unfold callAt
  rcases Nat.lt_trichotomy j g.segs.length with hlt | rfl | hgt
  · rw [List.getElem?_append_left hlt]
  · simp [h]
  · rw [List.getElem?_eq_none (by simp; omega), List.getElem?_eq_none (by omega)]

theorem push_turn {e : Entry} {seg : Segment} (h : toolOf seg = none) (starts : startedId e = none)
    (finishes : finishOf e = none) : Turn g (g.push seg) e :=
  .passed starts finishes (by simp [Grouping.push]) (callAt_push h) rfl

theorem stdout_turn {e : Entry} {chunk : String} (starts : startedId e = none)
    (finishes : finishOf e = none) : Turn g (g.pushStdout chunk) e := by
  unfold Grouping.pushStdout
  split
  · refine .passed starts finishes (by simp) (fun j => callAt_same ?_) rfl
    intro seg
    cases seg <;> rfl
  · exact .passed starts finishes (by simp) (callAt_push rfl) rfl

theorem thinking_turn {e : Entry} {chunk : String} (starts : startedId e = none)
    (finishes : finishOf e = none) : Turn g (g.pushThinking chunk) e := by
  unfold Grouping.pushThinking
  split
  · refine .passed starts finishes (by simp) (fun j => callAt_same ?_) rfl
    intro seg
    cases seg <;> rfl
  · exact .passed starts finishes (by simp) (callAt_push rfl) rfl

theorem start_turn {e : Entry} {x : FleetEvent} {id name : String} {input : Value}
    (starts : startedId e = some id) (finishes : finishOf e = none) :
    Turn g (g.start x id name input) e := by
  refine .started id ⟨x.seq, id, name, input, .running, none, none, false⟩ starts finishes rfl rfl
    (by simp [Grouping.start, Grouping.push]) ?_ rfl
  intro j
  simp only [Grouping.start, Grouping.push]
  split
  · rename_i hj
    subst hj
    exact callAt_length
  · rename_i hj
    rcases Nat.lt_or_gt_of_ne hj with hlt | hgt
    · exact callAt_append hlt
    · unfold callAt
      rw [List.getElem?_eq_none (by simp; omega), List.getElem?_eq_none (by omega)]

theorem finish_turn {e : Entry} {x : FleetEvent} {id : String} {ok : Bool}
    {result : Option String} {truncated : Bool} (starts : startedId e = none)
    (finishes : finishOf e = some (id, ok, result)) :
    Turn g (g.finish x id ok result truncated) e := by
  unfold Grouping.finish
  split
  · exact .missed id ok result finishes starts ‹_› rfl
  · rename_i i hfound
    let settle (t : ToolCall) : ToolCall :=
      { t with
        outcome := outcomeOf ok
        durationMs := (g.startedAt.lookup i).bind fun s => durationMs s x.ts
        result := result
        resultTruncated := truncated }
    exact .paired id ok result i settle finishes starts hfound (fun _ => rfl)
      (fun _ => ⟨rfl, rfl⟩) (List.length_modify ..) (fun j => callAt_onTool settle) rfl

theorem entry_turn (g : Grouping) (e : Entry) : Turn g (g.entry e) e := by
  cases e with
  | gap skipped => exact push_turn rfl rfl rfl
  | undecodable why => exact push_turn rfl rfl rfl
  | event x =>
    simp only [Grouping.entry, Grouping.event]
    cases hkind : x.kind with
    | output stream chunk =>
      cases stream with
      | stdout => exact stdout_turn (by simp [startedId, hkind]) (by simp [finishOf, hkind])
      | thinking => exact thinking_turn (by simp [startedId, hkind]) (by simp [finishOf, hkind])
    | toolStarted id name input =>
      exact start_turn (by simp [startedId, hkind]) (by simp [finishOf, hkind])
    | toolFinished id name ok result truncated =>
      exact finish_turn (by simp [startedId, hkind]) (by simp [finishOf, hkind])
    | _ => exact push_turn rfl (by simp [startedId, hkind]) (by simp [finishOf, hkind])

end Turn

/-- The open calls are running, and each is open once. -/
structure Inv (g : Grouping) : Prop where
  running : ∀ i ∈ g.openTools, ∃ t, callAt g.segs i = some t ∧ t.outcome = .running
  nodup : g.openTools.Nodup

section Inv

variable {g g' : Grouping} {e : Entry} {i : Nat}

theorem mem_of_found {id : String} (h : g.found id = some i) : i ∈ g.openTools := by
  unfold Grouping.found at h
  split at h
  · exact List.mem_of_head? h
  · rcases Option.or_eq_some_iff.mp h with hfind | ⟨-, hhead⟩
    · exact List.mem_of_find?_eq_some hfind
    · exact List.mem_of_head? hhead

theorem Inv.lt (h : Inv g) (hi : i ∈ g.openTools) : i < g.segs.length := by
  obtain ⟨t, ht, -⟩ := h.running i hi
  exact lt_of_callAt ht

theorem Inv.step (h : Inv g) (ht : Turn g g' e) : Inv g' := by
  cases ht with
  | started id t starts other named running length calls waits =>
    constructor
    · intro i hi
      rw [waits] at hi
      rw [calls]
      rcases List.mem_append.mp hi with hmem | hmem
      · rw [if_neg (h.lt hmem).ne]
        exact h.running i hmem
      · rw [if_pos (List.mem_singleton.mp hmem)]
        exact ⟨t, rfl, running⟩
    · rw [waits]
      refine List.nodup_append.mpr ⟨h.nodup, List.nodup_singleton _, ?_⟩
      intro i hi j hj heq
      rw [List.mem_singleton.mp hj] at heq
      exact (h.lt hi).ne heq
  | paired id ok result i f finishes other found named settles length calls waits =>
    constructor
    · intro j hj
      rw [waits] at hj
      obtain ⟨hmem, hne⟩ := List.mem_filter.mp hj
      rw [calls, if_neg (Ne.symm (of_decide_eq_true hne))]
      exact h.running j hmem
    · rw [waits]
      exact h.nodup.filter _
  | missed id ok result finishes other found same => exact same ▸ h
  | passed starts finishes length calls waits =>
    constructor
    · intro i hi
      rw [calls]
      exact h.running i (waits ▸ hi)
    · exact waits ▸ h.nodup

theorem grouping_snoc (entries : List Entry) (e : Entry) :
    grouping (entries ++ [e]) = (grouping entries).entry e := by
  rw [grouping, List.foldl_append]
  rfl

theorem grouping_inv (entries : List Entry) : Inv (grouping entries) := by
  induction entries using List.reverseRecOn with
  | nil => exact ⟨by simp [grouping], by simp [grouping]⟩
  | append_singleton entries e ih =>
    rw [grouping_snoc]
    exact ih.step (entry_turn _ e)

/-- A call keeps its id. -/
theorem Turn.keeps {t : ToolCall} (h : Turn g g' e) (ht : callAt g.segs i = some t) :
    ∃ t', callAt g'.segs i = some t' ∧ t'.id = t.id := by
  cases h with
  | started id t' starts other named running length calls waits =>
    exact ⟨t, by rw [calls, if_neg (lt_of_callAt ht).ne, ht], rfl⟩
  | paired id ok result j f finishes other found named settles length calls waits =>
    rw [calls, ht]
    split
    · exact ⟨f t, rfl, named t⟩
    · exact ⟨t, rfl, rfl⟩
  | missed id ok result finishes other found same => exact ⟨t, by rw [same, ht], rfl⟩
  | passed starts finishes length calls waits => exact ⟨t, by rw [calls, ht], rfl⟩

/-- A call that is no longer open stays as it is. -/
theorem Turn.closed {t : ToolCall} (h : Turn g g' e) (hi : i ∉ g.openTools)
    (ht : callAt g.segs i = some t) : i ∉ g'.openTools ∧ callAt g'.segs i = some t := by
  have hlt := lt_of_callAt ht
  cases h with
  | started id t' starts other named running length calls waits =>
    rw [waits, calls, if_neg hlt.ne]
    refine ⟨?_, ht⟩
    intro hmem
    rcases List.mem_append.mp hmem with hmem | hmem
    · exact hi hmem
    · exact hlt.ne (List.mem_singleton.mp hmem)
  | paired id ok result j f finishes other found named settles length calls waits =>
    have hne : j ≠ i := by
      intro hj
      exact hi (hj ▸ mem_of_found found)
    rw [waits, calls, if_neg hne]
    exact ⟨fun hmem => hi (List.mem_of_mem_filter hmem), ht⟩
  | missed id ok result finishes other found same => exact same ▸ ⟨hi, ht⟩
  | passed starts finishes length calls waits => exact ⟨waits ▸ hi, by rw [calls, ht]⟩

theorem closed_stays {t : ToolCall} {entries : List Entry} (more : List Entry)
    (hi : i ∉ (grouping entries).openTools) (ht : callAt (group entries) i = some t) :
    i ∉ (grouping (entries ++ more)).openTools ∧ callAt (group (entries ++ more)) i = some t := by
  induction more using List.reverseRecOn with
  | nil =>
    rw [List.append_nil]
    exact ⟨hi, ht⟩
  | append_singleton more e ih =>
    rw [← List.append_assoc, group, grouping_snoc]
    exact (entry_turn _ e).closed ih.1 ih.2

/-- What is no longer open has been closed by a finish that was paired with it. -/
theorem closed_by {entries more : List Entry} (hi : i ∈ (grouping entries).openTools)
    (hclosed : i ∉ (grouping (entries ++ more)).openTools) :
    ∃ before finish after id ok result, more = before ++ finish :: after ∧
      finishOf finish = some (id, ok, result) ∧
      (grouping (entries ++ before)).found id = some i := by
  induction more using List.reverseRecOn with
  | nil =>
    rw [List.append_nil] at hclosed
    exact absurd hi hclosed
  | append_singleton more e ih =>
    by_cases hopen : i ∈ (grouping (entries ++ more)).openTools
    · rw [← List.append_assoc, grouping_snoc] at hclosed
      have hturn := entry_turn (grouping (entries ++ more)) e
      cases hturn with
      | started id t starts other named running length calls waits =>
        rw [waits] at hclosed
        exact absurd (List.mem_append_left _ hopen) hclosed
      | paired id ok result j f finishes other found named settles length calls waits =>
        have hj : j = i := by
          by_contra hne
          rw [waits] at hclosed
          exact hclosed (List.mem_filter.mpr ⟨hopen, by simpa using Ne.symm hne⟩)
        subst hj
        exact ⟨more, e, [], id, ok, result, rfl, finishes, found⟩
      | missed id ok result finishes other found same =>
        rw [same] at hclosed
        exact absurd hopen hclosed
      | passed starts finishes length calls waits => exact absurd (waits ▸ hopen) hclosed
    · obtain ⟨before, finish, after, id, ok, result, rfl, hfinish, hfound⟩ := ih hopen
      exact ⟨before, finish, after ++ [e], id, ok, result, by simp, hfinish, hfound⟩

end Inv

section Own

def finishedId (e : Entry) : Option String := (finishOf e).map (·.1)

/-- How many calls of an id wait for a finish of their own, when the starts and the
finishes of the id go together in order. -/
def waiting (id : String) (entries : List Entry) : Nat :=
  entries.foldl (fun n e =>
    if startedId e = some id then n + 1 else if finishedId e = some id then n - 1 else n) 0

/-- The open calls of an id, the oldest first. -/
def openCalls (id : String) (g : Grouping) : List Nat := g.openTools.filter (g.isCall id)

variable {g g' : Grouping} {e : Entry} {id : String}

theorem isCall_iff {i : Nat} :
    g.isCall id i = true ↔ ∃ t, callAt g.segs i = some t ∧ t.id = id := by
  unfold Grouping.isCall callAt
  cases g.segs[i]? with
  | none => simp
  | some seg => cases seg <;> simp [toolOf]

/-- An open call goes by the same id before and after. -/
theorem isCall_keep (hg : Inv g) (h : Turn g g' e) {i : Nat} (hi : i ∈ g.openTools) :
    g'.isCall id i = g.isCall id i := by
  obtain ⟨t, ht, -⟩ := hg.running i hi
  obtain ⟨t', ht', hid⟩ := h.keeps ht
  rw [Bool.eq_iff_iff, isCall_iff, isCall_iff, ht, ht']
  simp [hid]

theorem filter_keep (hg : Inv g) (h : Turn g g' e) {open' : List Nat}
    (hopen : open' ⊆ g.openTools) :
    open'.filter (g'.isCall id) = open'.filter (g.isCall id) :=
  List.filter_congr fun _ hi => isCall_keep hg h (hopen hi)

theorem filter_head {xs : List Nat} {i : Nat} (hnodup : xs.Nodup) (h : xs.head? = some i) :
    xs.filter (· ≠ i) = xs.tail := by
  cases xs with
  | nil => rfl
  | cons x xs =>
    cases h
    rw [List.filter_cons_of_neg (by simp), List.tail_cons, List.filter_eq_self]
    intro j hj
    have hne : j ≠ i := fun heq => (List.nodup_cons.mp hnodup).1 (heq ▸ hj)
    simpa using hne

/-- A start adds its call to the open ones of its id. -/
theorem openCalls_started (hg : Inv g) (h : Turn g g' e) (hstart : startedId e = some id) :
    openCalls id g' = openCalls id g ++ [g.segs.length] := by
  have hturn := h
  cases h with
  | started other t starts none named running length calls waits =>
    obtain rfl := Option.some.inj (hstart.symm.trans starts)
    have hnew : g'.isCall id g.segs.length = true :=
      isCall_iff.mpr ⟨t, by rw [calls, if_pos rfl], named⟩
    rw [openCalls, waits, List.filter_append, filter_keep hg hturn (List.Subset.refl _),
      List.filter_cons_of_pos hnew]
    rfl
  | paired other ok result i f finishes none => rw [none] at hstart; cases hstart
  | missed other ok result finishes none => rw [none] at hstart; cases hstart
  | passed none => rw [none] at hstart; cases hstart

/-- A finish closes the oldest open call of its id, if there is one. -/
theorem openCalls_finished (hg : Inv g) (h : Turn g g' e) (hid : id ≠ "")
    (hfinish : finishedId e = some id) : openCalls id g' = (openCalls id g).tail := by
  have hturn := h
  unfold finishedId at hfinish
  cases h with
  | started other t starts none => rw [none] at hfinish; cases hfinish
  | paired other ok result i f finishes none found named settles length calls waits =>
    rw [finishes] at hfinish
    obtain rfl : other = id := Option.some.inj hfinish
    have hcomm : (g.openTools.filter (· ≠ i)).filter (g.isCall other) =
        (openCalls other g).filter (· ≠ i) := by
      rw [openCalls, List.filter_filter, List.filter_filter]
      simp only [Bool.and_comm]
    rw [openCalls, waits, filter_keep hg hturn (List.filter_subset_self _), hcomm]
    rw [Grouping.found, if_neg hid, ← List.head?_filter] at found
    rcases Option.or_eq_some_iff.mp found with hhead | ⟨hnone, -⟩
    · exact filter_head (hg.nodup.filter _) hhead
    · rw [openCalls, List.head?_eq_none_iff.mp hnone]
      rfl
  | missed other ok result finishes none found same =>
    rw [finishes] at hfinish
    obtain rfl : other = id := Option.some.inj hfinish
    rw [Grouping.found, if_neg hid, ← List.head?_filter] at found
    rw [same, openCalls, List.head?_eq_none_iff.mp (Option.or_eq_none_iff.mp found).1]
    rfl
  | passed none finishes => rw [finishes] at hfinish; cases hfinish

/-- No other entry opens a call of the id. -/
theorem openCalls_sublist (hg : Inv g) (h : Turn g g' e) (hstart : startedId e ≠ some id) :
    (openCalls id g').Sublist (openCalls id g) := by
  have hturn := h
  cases h with
  | started other t starts none named running length calls waits =>
    have hnew : g'.isCall id g.segs.length = false := by
      rw [Bool.eq_false_iff]
      intro hcall
      obtain ⟨t', ht', hid⟩ := isCall_iff.mp hcall
      rw [calls, if_pos rfl] at ht'
      obtain rfl := Option.some.inj ht'
      exact hstart (by rw [starts, ← named, hid])
    rw [openCalls, waits, List.filter_append, filter_keep hg hturn (List.Subset.refl _),
      List.filter_cons_of_neg (by simp [hnew]), List.filter_nil, List.append_nil]
    exact List.Sublist.refl _
  | paired other ok result i f finishes none found named settles length calls waits =>
    rw [openCalls, waits, filter_keep hg hturn (List.filter_subset_self _)]
    exact List.filter_sublist.filter _
  | missed other ok result finishes none found same => rw [same]
  | passed none finishes length calls waits =>
    rw [openCalls, waits, filter_keep hg hturn (List.Subset.refl _)]
    exact List.Sublist.refl _

theorem not_both (h : startedId e = some id) : finishOf e = none := by
  cases e with
  | event x =>
    simp only [startedId] at h
    cases hkind : x.kind with
    | toolStarted => simp [finishOf, hkind]
    | _ => simp [hkind] at h
  | _ => rfl

theorem waiting_snoc (id : String) (entries : List Entry) (e : Entry) :
    waiting id (entries ++ [e]) =
      if startedId e = some id then waiting id entries + 1
      else if finishedId e = some id then waiting id entries - 1 else waiting id entries := by
  rw [waiting, List.foldl_append]
  rfl

/-- The open calls of an id are among those that wait for a finish of their own. -/
theorem openCalls_waiting (hid : id ≠ "") (entries : List Entry) :
    ∃ queue : List Nat, queue.length = waiting id entries ∧
      (openCalls id (grouping entries)).Sublist queue := by
  induction entries using List.reverseRecOn with
  | nil => exact ⟨[], rfl, by simp [openCalls, grouping]⟩
  | append_singleton entries e ih =>
    obtain ⟨queue, hlength, hsub⟩ := ih
    have hg := grouping_inv entries
    have hturn := entry_turn (grouping entries) e
    rw [waiting_snoc, grouping_snoc]
    split
    · rename_i hstart
      rw [openCalls_started hg hturn hstart]
      exact ⟨queue ++ [_], by simp [hlength], hsub.append (List.Sublist.refl _)⟩
    · rename_i hstart
      split
      · rename_i hfinish
        rw [openCalls_finished hg hturn hid hfinish]
        exact ⟨queue.tail, by simp [hlength], hsub.tail⟩
      · exact ⟨queue, hlength, (openCalls_sublist hg hturn hstart).trans hsub⟩

variable {pre mid : List Entry} {start finish : Entry}

theorem length_mono (entries more : List Entry) :
    (group entries).length ≤ (group (entries ++ more)).length := by
  induction more using List.reverseRecOn with
  | nil => rw [List.append_nil]
  | append_singleton more e ih =>
    refine ih.trans ?_
    rw [← List.append_assoc, group, group, grouping_snoc]
    cases entry_turn (grouping (entries ++ more)) e with
    | started id t starts other named running length => omega
    | paired id ok result i f finishes other found named settles length => omega
    | missed id ok result finishes other found same => rw [same]
    | passed starts finishes length => exact length

theorem keeps_more {t : ToolCall} {i : Nat} {entries : List Entry} (more : List Entry)
    (ht : callAt (group entries) i = some t) :
    ∃ t', callAt (group (entries ++ more)) i = some t' ∧ t'.id = t.id := by
  induction more using List.reverseRecOn with
  | nil =>
    rw [List.append_nil]
    exact ⟨t, ht, rfl⟩
  | append_singleton more e ih =>
    obtain ⟨t', ht', hid⟩ := ih
    rw [← List.append_assoc, group, grouping_snoc]
    obtain ⟨t'', ht'', hid'⟩ := (entry_turn _ e).keeps ht'
    exact ⟨t'', ht'', hid'.trans hid⟩

variable (pre) in
/-- A start puts its call next, and leaves it open. -/
theorem started_call (hstart : startedId start = some id) :
    (∃ t, callAt (group (pre ++ [start])) (group pre).length = some t ∧ t.id = id) ∧
    (group pre).length ∈ (grouping (pre ++ [start])).openTools ∧
    (group (pre ++ [start])).length = (group pre).length + 1 := by
  rw [group, group, grouping_snoc]
  cases entry_turn (grouping pre) start with
  | started other t starts none named running length calls waits =>
    obtain rfl := Option.some.inj (hstart.symm.trans starts)
    refine ⟨⟨t, by rw [calls, if_pos rfl], named⟩, ?_, length⟩
    rw [waits]
    exact List.mem_append_right _ (List.mem_singleton_self _)
  | paired other ok result i f finishes none => rw [none] at hstart; cases hstart
  | missed other ok result finishes none => rw [none] at hstart; cases hstart
  | passed none => rw [none] at hstart; cases hstart

/-- While those before it have their finishes, a call moves up to the front. -/
theorem openCalls_front (hid : id ≠ "") (hstart : startedId start = some id)
    (hle : mid.countP (fun e => finishedId e = some id) ≤ waiting id pre) :
    ∃ ahead behind : List Nat,
      ahead.length + mid.countP (fun e => finishedId e = some id) = waiting id pre ∧
      (group pre).length ∉ behind ∧
      (openCalls id (grouping (pre ++ [start] ++ mid))).Sublist
        (ahead ++ (group pre).length :: behind) := by
  induction mid using List.reverseRecOn with
  | nil =>
    obtain ⟨queue, hlength, hsub⟩ := openCalls_waiting hid pre
    refine ⟨queue, [], by simp [hlength], by simp, ?_⟩
    rw [List.append_nil, grouping_snoc,
      openCalls_started (grouping_inv pre) (entry_turn _ start) hstart]
    exact hsub.append (List.Sublist.refl _)
  | append_singleton mid e ih =>
    rw [List.countP_append] at hle ⊢
    obtain ⟨ahead, behind, hlength, hnot, hsub⟩ := ih (by omega)
    have hg := grouping_inv (pre ++ [start] ++ mid)
    have hturn := entry_turn (grouping (pre ++ [start] ++ mid)) e
    rw [← List.append_assoc, grouping_snoc]
    by_cases hstarts : startedId e = some id
    · have hnone : finishedId e = none := by rw [finishedId, not_both hstarts]; rfl
      rw [openCalls_started hg hturn hstarts]
      refine ⟨ahead, behind ++ [(group (pre ++ [start] ++ mid)).length],
        by simpa [hnone] using hlength, ?_, ?_⟩
      · intro hmem
        rcases List.mem_append.mp hmem with hmem | hmem
        · exact hnot hmem
        · have hlong := length_mono (pre ++ [start]) mid
          rw [(started_call pre hstart).2.2] at hlong
          have heq := List.mem_singleton.mp hmem
          omega
      · rw [← List.cons_append, ← List.append_assoc ahead]
        exact hsub.append (List.Sublist.refl _)
    · by_cases hfinish : finishedId e = some id
      · rw [openCalls_finished hg hturn hid hfinish]
        simp only [hfinish, List.countP_singleton, decide_true, if_true] at hle ⊢
        cases ahead with
        | nil =>
          rw [List.length_nil] at hlength
          omega
        | cons first ahead =>
          refine ⟨ahead, behind, ?_, hnot, hsub.tail⟩
          rw [List.length_cons] at hlength
          omega
      · exact ⟨ahead, behind, by simpa [hfinish] using hlength, hnot,
          (openCalls_sublist hg hturn hstarts).trans hsub⟩

/-- A call whose own finish has come is closed. -/
theorem own_closed (hid : id ≠ "") (hstart : startedId start = some id)
    (hfinish : finishedId finish = some id)
    (hown : mid.countP (fun e => finishedId e = some id) = waiting id pre) :
    (group pre).length ∉ (grouping (pre ++ [start] ++ mid ++ [finish])).openTools := by
  obtain ⟨ahead, behind, hlength, hnot, hsub⟩ := openCalls_front hid hstart hown.le
  have hahead : ahead = [] := List.length_eq_zero_iff.mp (by omega)
  rw [hahead, List.nil_append] at hsub
  obtain ⟨t, ht, hname⟩ := (started_call pre hstart).1
  obtain ⟨t', ht', hkeep⟩ := keeps_more (mid ++ [finish]) ht
  intro hmem
  have hopen : (group pre).length ∈
      openCalls id (grouping (pre ++ [start] ++ mid ++ [finish])) := by
    refine List.mem_filter.mpr ⟨hmem, isCall_iff.mpr ⟨t', ?_, hkeep.trans hname⟩⟩
    rw [← List.append_assoc] at ht'
    exact ht'
  rw [grouping_snoc, openCalls_finished (grouping_inv _) (entry_turn _ finish) hid hfinish] at hopen
  exact hnot (hsub.tail.subset hopen)

end Own

/-- The call at an index has its own finish in the list: the starts and the finishes of
its id go together in order. -/
def Own (entries : List Entry) (i : Nat) (ok : Bool) (result : Option String) : Prop :=
  ∃ id pre start mid finish post, id ≠ "" ∧
    entries = pre ++ [start] ++ mid ++ [finish] ++ post ∧ startedId start = some id ∧
    finishOf finish = some (id, ok, result) ∧ i = (group pre).length ∧
    mid.countP (fun e => finishedId e = some id) = waiting id pre

/-- A finish with an id leaves the calls with another id as they are, and a call whose
own finish is present ends with what that reports. -/
structure OnIds (entries : List Entry) : Prop where
  apart : ∀ pre finish post id ok result, entries = pre ++ [finish] ++ post →
    finishOf finish = some (id, ok, result) → id ≠ "" →
    ∀ i t, callAt (group pre) i = some t → t.id ≠ "" → t.id ≠ id →
      callAt (group (pre ++ [finish])) i = some t
  settled : ∀ i ok result, Own entries i ok result →
    ∃ t, callAt (group entries) i = some t ∧ t.outcome = outcomeOf ok ∧ t.result = result

/-- A finish for which the loop finds an open call has the call's id, or one of the two has
none; and it reports what the call's own finish does, if that is present. -/
def FindsOwn (entries : List Entry) : Prop :=
  ∀ pre finish post id ok result, entries = pre ++ [finish] ++ post →
    finishOf finish = some (id, ok, result) →
    ∀ i t, (grouping pre).found id = some i → callAt (group pre) i = some t →
      (id ≠ "" → t.id ≠ "" → t.id = id) ∧
      ∀ ok' result', Own entries i ok' result' → ok' = ok ∧ result' = result

section Exact

variable {pre : List Entry} {finish : Entry} {id : String} {ok : Bool} {result : Option String}
  {i : Nat} {t : ToolCall}

theorem outcomeOf_injective {a b : Bool} (h : outcomeOf a = outcomeOf b) : a = b := by
  cases a <;> cases b <;> first | rfl | cases h

/-- The call that a finish is paired with was running, and has its report from then on. -/
theorem paired_call (hfinish : finishOf finish = some (id, ok, result))
    (hfound : (grouping pre).found id = some i) : ∃ t t', callAt (group pre) i = some t ∧
      t.outcome = .running ∧ callAt (group (pre ++ [finish])) i = some t' ∧
      t'.outcome = outcomeOf ok ∧ t'.result = result ∧
      i ∉ (grouping (pre ++ [finish])).openTools := by
  obtain ⟨t, ht, hrunning⟩ := (grouping_inv pre).running i (mem_of_found hfound)
  rw [group, group, grouping_snoc]
  cases entry_turn (grouping pre) finish with
  | started id t starts other => rw [other] at hfinish; cases hfinish
  | paired id' ok' result' j f finishes other found named settles length calls waits =>
    cases hfinish.symm.trans finishes
    obtain rfl := Option.some.inj (hfound.symm.trans found)
    refine ⟨t, f t, ht, hrunning, by rw [calls, if_pos rfl, ht]; rfl, (settles t).1,
      (settles t).2, ?_⟩
    rw [waits]
    simp
  | missed id' ok' result' finishes other found same =>
    cases hfinish.symm.trans finishes
    rw [hfound] at found
    cases found
  | passed starts finishes => rw [finishes] at hfinish; cases hfinish

/-- A finish leaves every call but the one it is paired with. -/
theorem unpaired_call (hfinish : finishOf finish = some (id, ok, result))
    (hfound : (grouping pre).found id ≠ some i) :
    callAt (group (pre ++ [finish])) i = callAt (group pre) i := by
  rw [group, group, grouping_snoc]
  cases entry_turn (grouping pre) finish with
  | started id t starts other => rw [other] at hfinish; cases hfinish
  | paired id' ok' result' j f finishes other found named settles length calls waits =>
    cases hfinish.symm.trans finishes
    rw [calls, if_neg]
    intro hj
    exact hfound (hj ▸ found)
  | missed id' ok' result' finishes other found same => rw [same]
  | passed starts finishes => rw [finishes] at hfinish; cases hfinish

end Exact

/-- The timeline pairs on ids exactly when no finish lands on another's call and no call
is closed by another report than its own. -/
theorem pairs_on_ids_iff (entries : List Entry) : OnIds entries ↔ FindsOwn entries := by
  constructor
  · intro h pre finish post id ok result hsplit hfinish i t hfound ht
    obtain ⟨t₀, t', ht₀, hrunning, ht', houtcome, hresult, hclosed⟩ := paired_call hfinish hfound
    obtain rfl := Option.some.inj (ht.symm.trans ht₀)
    constructor
    · intro hid hname
      by_contra hne
      have hsame := h.apart pre finish post id ok result hsplit hfinish hid i t ht hname hne
      rw [ht'] at hsame
      rw [Option.some.inj hsame, hrunning] at houtcome
      cases ok <;> cases houtcome
    · intro ok' result' hown
      obtain ⟨last, hlast, hok, hres⟩ := h.settled i ok' result' hown
      have hstays := (closed_stays post hclosed ht').2
      rw [← hsplit, hlast] at hstays
      rw [Option.some.inj hstays] at hok hres
      exact ⟨outcomeOf_injective (hok.symm.trans houtcome), hres.symm.trans hresult⟩
  · intro h
    constructor
    · intro pre finish post id ok result hsplit hfinish hid i t ht hname hne
      rw [unpaired_call hfinish, ht]
      intro hfound
      exact hne ((h pre finish post id ok result hsplit hfinish i t hfound ht).1 hid hname)
    · intro i ok result hown
      have hreport := fun pre finish post id ok' result' hsplit hfinish t hfound ht =>
        (h pre finish post id ok' result' hsplit hfinish i t hfound ht).2 ok result hown
      obtain ⟨id, pre, start, mid, finish, post, hid, hsplit, hstart, hfinish, rfl, hcount⟩ := hown
      have hclosed := own_closed hid hstart (by rw [finishedId, hfinish]; rfl) hcount
      have hopen := (started_call pre hstart).2.1
      rw [List.append_assoc (pre ++ [start])] at hclosed
      obtain ⟨before, closing, after, id', ok', result', hmore, hclosing, hfound⟩ :=
        closed_by hopen hclosed
      have hwhole : entries = pre ++ [start] ++ before ++ [closing] ++ (after ++ post) := by
        rw [hsplit, List.append_assoc (pre ++ [start]) mid, hmore]
        simp
      obtain ⟨t, t', ht, -, ht', houtcome, hresult, hgone⟩ := paired_call hclosing hfound
      obtain ⟨rfl, rfl⟩ :=
        hreport (pre ++ [start] ++ before) closing (after ++ post) id' ok' result' hwhole hclosing t
          hfound ht
      rw [hwhole]
      exact ⟨t', (closed_stays _ hgone ht').2, houtcome, hresult⟩

section Stray

def stray : List Entry :=
  [.event ⟨1, "t", "r", "a", .toolStarted "tu_1" "Read" .null, none, none⟩,
    .event ⟨2, "t", "r", "a", .toolFinished "tu_2" "" true none false, none, none⟩]

/-- The finish of a call whose start was lost closes another that still runs. -/
theorem stray_finish_lands : ¬∀ entries, OnIds entries := by
  intro h
  have happart := (h stray).apart (stray.take 1) _ [] "tu_2" true none rfl rfl (by decide) 0 _ rfl
    (by decide) (by decide)
  cases happart

end Stray

end Prospero.Proofs.Pairing
