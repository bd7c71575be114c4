import Prospero.Lib.Lines

namespace EventStream

/-- A field of an event; a space in front of its value is no part of it. -/
structure Field where
  name : List Char
  value : List Char
  spaced : Bool

/-- What a stream is made of: events, and comments that keep a connection open. -/
inductive Item
  | comment (text : List Char)
  | block (fields : List Field)

section Write

def Field.line (f : Field) : List Char :=
  f.name ++ ':' :: ((if f.spaced then [' '] else []) ++ f.value)

def Item.body : Item → List (List Char)
  | .comment text => [':' :: text]
  | .block fields => fields.map Field.line

/-- A blank line ends an item. -/
def Item.lines (item : Item) : List (List Char) := item.body ++ [[]]

def terminated (line : List Char) : List UInt8 := Lines.encode (String.ofList line) ++ [10]

def Item.bytes (item : Item) : List UInt8 := item.lines.flatMap terminated

end Write

section Read

/-- An event as a reader is told of it, with the last id that has been given. An event
without a name is a `message`. -/
structure Event where
  id : List Char
  name : List Char
  data : List Char
deriving DecidableEq

/-- What a reader keeps of the block that it is in, and the last id given. -/
structure Buffer where
  id : List Char
  name : List Char
  data : List (List Char)

def Buffer.rest (id : List Char) : Buffer := ⟨id, [], []⟩

def Buffer.field (b : Buffer) (name value : List Char) : Buffer :=
  if name = "event".toList then { b with name := value }
  else if name = "data".toList then { b with data := b.data ++ [value] }
  else if name = "id".toList ∧ '\x00' ∉ value then { b with id := value }
  else b

def Buffer.event (b : Buffer) : Option Event :=
  if b.data = [] then none else some ⟨b.id, b.name, ['\n'].intercalate b.data⟩

/-- A line without a colon is the name of a field without a value. -/
def parseField (line : List Char) : List Char × List Char :=
  (line.takeWhile (· ≠ ':'), match line.dropWhile (· ≠ ':') with
    | ':' :: ' ' :: value => value
    | ':' :: value => value
    | _ => [])

def Buffer.line (b : Buffer) : List Char → Buffer × Option Event
  | [] => (.rest b.id, b.event)
  | ':' :: _ => (b, none)
  | line => (b.field (parseField line).1 (parseField line).2, none)

def read (b : Buffer) : List (List Char) → Buffer × List Event
  | [] => (b, [])
  | line :: lines =>
    let after := b.line line
    let more := read after.1 lines
    (more.1, after.2.toList ++ more.2)

/-- What a reader is told of a stream that has come so far; of a line that has not come
whole it makes nothing. -/
def events (decode : List UInt8 → List Char) (bytes : List UInt8) : List Event :=
  (read (.rest []) ((Lines.split 10 bytes).1.map decode)).2

end Read

section Meaning

def Buffer.fields (b : Buffer) (fields : List Field) : Buffer :=
  fields.foldl (fun b f => b.field f.name f.value) b

structure Field.Proper (f : Field) : Prop where
  named : f.name ≠ []
  colon : ':' ∉ f.name
  value : f.spaced = false → f.value.head? ≠ some ' '
  newline : '\n' ∉ f.name ++ f.value

def Item.Proper : Item → Prop
  | .comment text => '\n' ∉ text
  | .block fields => ∀ f ∈ fields, f.Proper

end Meaning

section Lines

variable {f : Field}

theorem Field.Proper.newline_not_mem (h : f.Proper) : '\n' ∉ f.line := by
  have hn := h.newline
  rw [List.mem_append, not_or] at hn
  rw [Field.line]
  cases f.spaced <;> simp [hn.1, hn.2]

theorem Item.newline_not_mem {item : Item} (h : item.Proper) :
    ∀ line ∈ item.lines, '\n' ∉ line := by
  intro line hline
  rcases List.mem_append.mp hline with hbody | hblank
  · cases item with
    | comment text =>
      rw [List.mem_singleton.mp hbody, List.mem_cons, not_or]
      exact ⟨by decide, h⟩
    | block fields =>
      obtain ⟨f, hf, rfl⟩ := List.mem_map.mp hbody
      exact (h f hf).newline_not_mem
  · rw [List.mem_singleton.mp hblank]
    exact List.not_mem_nil

end Lines

section Reading

end Reading

section Cuts

end Cuts

section Events

variable {decode : List UInt8 → List Char} {items : List Item}
  (hd : ∀ s : String, decode (Lines.encode s) = s.toList)
  (h : ∀ item ∈ items, item.Proper)
include hd h

end Events

end EventStream
