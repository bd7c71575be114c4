import Mathlib.Data.List.AList
import Prospero.Automation

namespace Prospero

section Equality

mutual

def Value.decEq : (a b : Value) → Decidable (a = b)
  | .null, .null => .isTrue rfl
  | .bool a, .bool b => decidable_of_iff (a = b) (by simp)
  | .number a, .number b => decidable_of_iff (a = b) (by simp)
  | .string a, .string b => decidable_of_iff (a = b) (by simp)
  | .array xs, .array ys =>
    have := decEqItems xs ys
    decidable_of_iff (xs = ys) (by simp)
  | .object fields, .object others =>
    have := decEqFields fields others
    decidable_of_iff (fields = others) (by simp)
  | .null, .bool _ | .null, .number _ | .null, .string _ | .null, .array _ | .null, .object _
  | .bool _, .null | .bool _, .number _ | .bool _, .string _ | .bool _, .array _
  | .bool _, .object _ | .number _, .null | .number _, .bool _ | .number _, .string _
  | .number _, .array _ | .number _, .object _ | .string _, .null | .string _, .bool _
  | .string _, .number _ | .string _, .array _ | .string _, .object _ | .array _, .null
  | .array _, .bool _ | .array _, .number _ | .array _, .string _ | .array _, .object _
  | .object _, .null | .object _, .bool _ | .object _, .number _ | .object _, .string _
  | .object _, .array _ => .isFalse nofun

def decEqItems : (xs ys : List Value) → Decidable (xs = ys)
  | [], [] => .isTrue rfl
  | [], _ :: _ | _ :: _, [] => .isFalse nofun
  | x :: xs, y :: ys =>
    have := Value.decEq x y
    have := decEqItems xs ys
    decidable_of_iff (x = y ∧ xs = ys) (by simp)

def decEqFields : (xs ys : List (String × Value)) → Decidable (xs = ys)
  | [], [] => .isTrue rfl
  | [], _ :: _ | _ :: _, [] => .isFalse nofun
  | (key, x) :: xs, (key', y) :: ys =>
    have := Value.decEq x y
    have := decEqFields xs ys
    decidable_of_iff (key = key' ∧ x = y ∧ xs = ys) (by simp [and_assoc])

end

instance : DecidableEq Value := Value.decEq

end Equality

namespace OpenApi
open Automations (stripPrefix)

/-- What each type's name is published with: a JSON schema, with references to others. -/
abbrev Schemas := AList fun _ : String => Value

abbrev Renames := AList fun _ : String => String

def definitionsPath : String := "#/components/schemas/"

/-- Suffix distinguishing a type's request shape from its response shape. -/
def requestSuffix : String := "Request"

def schemaRef (name : String) : Value := .object [("$ref", .string (definitionsPath ++ name))]

/-- The type that the value of a `$ref` points at. -/
def refName : Value → Option String
  | .string r => (stripPrefix definitionsPath.toList r.toList).map String.ofList
  | _ => none

def renameRef (renames : Renames) (val : Value) : Value :=
  match (refName val).bind fun name => renames.lookup name with
  | some renamed => .string (definitionsPath ++ renamed)
  | none => val

mutual

def renameRefs (renames : Renames) : Value → Value
  | .object map => .object (renameFields renames map)
  | .array items => .array (renameItems renames items)
  | other => other

def renameItems (renames : Renames) : List Value → List Value
  | [] => []
  | v :: items => renameRefs renames v :: renameItems renames items

def renameFields (renames : Renames) : List (String × Value) → List (String × Value)
  | [] => []
  | (key, val) :: map =>
    (key, if key = "$ref" then renameRef renames val else renameRefs renames val) ::
      renameFields renames map

end

/-- The two shapes of a type actually differ. -/
def collides (responses : Schemas) (name : String) (schema : Value) : Bool :=
  (responses.lookup name).any fun r => r ≠ schema

def renamesOf (responses requests : Schemas) : Renames :=
  requests.entries.foldl (fun renames e =>
    if collides responses e.1 e.2 then renames.insert e.1 (e.1 ++ requestSuffix) else renames) ∅

def publishedName (renames : Renames) (name : String) : String := (renames.lookup name).getD name

/-- The two directions in one, and the names that request types are published under. -/
def mergedSchemas (responses requests : Schemas) : Schemas × Renames :=
  let renames := renamesOf responses requests
  (requests.entries.foldl (fun merged e =>
    merged.insert (publishedName renames e.1) (renameRefs renames e.2)) responses, renames)

def apiErrorSchema : Value :=
  .object [("description", .string "The body of any 4xx or 5xx response."),
    ("properties", .object [
      ("error", .object [("description", .string "Human-readable message."),
        ("type", .string "string")]),
      ("kind", .object [("description", .string ("Machine-readable class, e.g. `unauthorized`, " ++
        "`not_found`, `invalid_state`, `unreachable`.")), ("type", .string "string")])]),
    ("required", .array [.string "error", .string "kind"]),
    ("type", .string "object")]

def openApiDocumentSchema : Value :=
  .object [("description", .string "An OpenAPI 3.1 document."), ("type", .string "object")]

/-- `components/schemas` of the document. -/
def componentSchemas (responses requests : Schemas) : Schemas :=
  ((mergedSchemas responses requests).1.insert "ApiErrorBody" apiErrorSchema).insert
    "OpenApiDocument" openApiDocumentSchema

/-- The schema of a request's body: a type's read shape. -/
def requestSchema (renames : Renames) (schema : String) : Value :=
  schemaRef (publishedName renames schema)

end OpenApi

end Prospero
