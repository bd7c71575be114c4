import Mathlib.Tactic.Common

namespace JsonText

/-- Where a reader is among the brackets of a JSON text: outside of strings, in one,
after its backslash, or right after its closing quote. -/
inductive Mode
  | plain
  | string
  | escape
  | closed

/-- `inside n` has `n` brackets open around the innermost one. -/
inductive State
  | before
  | inside (depth : Nat) (mode : Mode)
  | done

inductive Move
  | stay (mode : Mode)
  | opening
  | closing

def isSpace (c : Char) : Bool := c = ' ' ∨ c = '\t' ∨ c = '\n' ∨ c = '\r'

/-- Of the grammar only what a cut in a text shows by is kept: brackets, strings and what
may follow them. -/
def move : Mode → Char → Option Move
  | .plain, c =>
    if c = '"' then some (.stay .string)
    else if c = '{' ∨ c = '[' then some .opening
    else if c = '}' ∨ c = ']' then some .closing
    else some (.stay .plain)
  | .string, c =>
    if c = '"' then some (.stay .closed)
    else if c = '\\' then some (.stay .escape)
    else some (.stay .string)
  | .escape, c =>
    if c ∈ ['"', '\\', '/', 'b', 'f', 'n', 'r', 't', 'u'] then some (.stay .string) else none
  | .closed, c =>
    if c = '}' ∨ c = ']' then some .closing
    else if c = ',' ∨ c = ':' then some (.stay .plain)
    else if isSpace c then some (.stay .closed)
    else none

def close : Nat → State
  | 0 => .done
  | depth + 1 => .inside depth .plain

def arrive (depth : Nat) : Move → State
  | .stay mode => .inside depth mode
  | .opening => .inside (depth + 1) .plain
  | .closing => close depth

def step : State → Char → Option State
  | .before, c =>
    if isSpace c then some .before
    else if c = '{' ∨ c = '[' then some (.inside 0 .plain)
    else none
  | .inside depth mode, c => (move mode c).map (arrive depth)
  | .done, c => if isSpace c then some .done else none

def run : State → List Char → Option State
  | s, [] => some s
  | s, c :: cs => (step s c).bind fun s' => run s' cs

/-- The text is one object or array, and nothing else. -/
def Whole (cs : List Char) : Prop := run .before cs = some .done

theorem run_append (s : State) (cs ds : List Char) :
    run s (cs ++ ds) = (run s cs).bind fun t => run t ds := by
  induction cs generalizing s with
  | nil => rfl
  | cons c cs ih =>
    rw [List.cons_append, run, run]
    cases step s c with
    | none => rfl
    | some s' => exact ih s'

section Raise

end Raise

section Cuts

variable {cs ds : List Char}

theorem run_done {s : State} (h : run .done cs = some s) : ∀ c ∈ cs, isSpace c = true := by
  induction cs with
  | nil => exact nofun
  | cons c cs ih =>
    obtain ⟨s', hs, hr⟩ := Option.bind_eq_some_iff.mp h
    rw [step] at hs
    split at hs
    · rename_i hc
      cases hs
      exact List.forall_mem_cons.mpr ⟨hc, ih hr⟩
    · cases hs

/-- A text that goes on was not whole. -/
theorem not_whole_of_append (h : Whole (cs ++ ds)) (hds : ∃ c ∈ ds, isSpace c = false) :
    ¬Whole cs := by
  intro hcs
  obtain ⟨c, hc, hsolid⟩ := hds
  rw [Whole, run_append, hcs] at h
  exact absurd (run_done h c hc) (by rw [hsolid]; nofun)

/-- How a text begins that no other text can go on with: a letter after the quote that
opens its first key. -/
structure Keyed (cs : List Char) : Prop where
  whole : Whole cs
  start : ∃ c rest, cs = '{' :: '"' :: c :: rest ∧ c.isAlpha = true

end Cuts

end JsonText
