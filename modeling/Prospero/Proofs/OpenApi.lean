import Prospero.OpenApi

namespace Prospero.Proofs.OpenApi
open Prospero.OpenApi Prospero.Automations

section Expansion

/-- What a `$ref` becomes if each type that it may point at is put for it. -/
def expandRef (f : String → Value) (val : Value) : Value :=
  match refName val with
  | some name => f name
  | none => val

mutual

def expand (f : String → Value) : Value → Value
  | .object map => .object (expandFields f map)
  | .array items => .array (expandItems f items)
  | other => other

def expandItems (f : String → Value) : List Value → List Value
  | [] => []
  | v :: items => expand f v :: expandItems f items

def expandFields (f : String → Value) : List (String × Value) → List (String × Value)
  | [] => []
  | (key, val) :: map =>
    (key, if key = "$ref" then expandRef f val else expand f val) :: expandFields f map

end

/-- The types that a schema refers to. -/
def refsOf (val : Value) : List String := (refName val).toList

mutual

def refs : Value → List String
  | .object map => refsFields map
  | .array items => refsItems items
  | _ => []

def refsItems : List Value → List String
  | [] => []
  | v :: items => refs v ++ refsItems items

def refsFields : List (String × Value) → List String
  | [] => []
  | (key, val) :: map => (if key = "$ref" then refsOf val else refs val) ++ refsFields map

end

/-- What a schema says, with the types it refers to in place of their names down to a depth. -/
def unfold (schemas : Schemas) : Nat → Value → Value
  | 0 => expand fun _ => .null
  | depth + 1 => expand fun name =>
    match schemas.lookup name with
    | some schema => unfold schemas depth schema
    | none => .null

end Expansion

section Refs

theorem refName_path (name : String) : refName (.string (definitionsPath ++ name)) = some name := by
  have hstrip : stripPrefix definitionsPath.toList (definitionsPath ++ name).toList =
      some name.toList := by
    rw [String.toList_append, stripPrefix, if_pos (List.prefix_append _ _), List.drop_left]
  rw [refName, hstrip, Option.map_some, String.ofList_toList]

theorem refName_eq_some {val : Value} {name : String} (h : refName val = some name) :
    val = .string (definitionsPath ++ name) := by
  unfold refName at h
  split at h
  · rename_i r
    obtain ⟨cs, hcs, rfl⟩ := Option.map_eq_some_iff.mp h
    unfold stripPrefix at hcs
    split at hcs
    · rename_i hpre
      obtain ⟨rest, hrest⟩ := hpre
      rw [← hrest, List.drop_left] at hcs
      cases hcs
      congr 1
      rw [← String.toList_inj, ← hrest, String.toList_append, String.toList_ofList]
    · cases hcs
  · cases h

/-- A reference under another name. -/
def relink (ρ : String → String) (name : String) : Value := .string (definitionsPath ++ ρ name)

theorem renameRef_eq (renames : Renames) (val : Value) :
    renameRef renames val = expandRef (relink (publishedName renames)) val := by
  rw [renameRef, expandRef]
  cases h : refName val with
  | none => rfl
  | some name =>
    rw [Option.bind_some]
    simp only
    rw [relink, publishedName]
    cases renames.lookup name with
    | none => exact refName_eq_some h
    | some renamed => rfl

mutual

theorem renameRefs_eq (renames : Renames) :
    ∀ v, renameRefs renames v = expand (relink (publishedName renames)) v
  | .object map => by rw [renameRefs, expand, renameFields_eq renames map]
  | .array items => by rw [renameRefs, expand, renameItems_eq renames items]
  | .null | .bool _ | .number _ | .string _ => rfl

theorem renameItems_eq (renames : Renames) :
    ∀ items, renameItems renames items = expandItems (relink (publishedName renames)) items
  | [] => rfl
  | v :: items => by
    rw [renameItems, expandItems, renameRefs_eq renames v, renameItems_eq renames items]

theorem renameFields_eq (renames : Renames) :
    ∀ map, renameFields renames map = expandFields (relink (publishedName renames)) map
  | [] => rfl
  | (key, val) :: map => by
    rw [renameFields, expandFields, renameRef_eq, renameRefs_eq renames val,
      renameFields_eq renames map]

end

theorem expandRef_relink (f : String → Value) (ρ : String → String) (val : Value) :
    expandRef f (expandRef (relink ρ) val) = expandRef (fun name => f (ρ name)) val := by
  cases h : refName val with
  | none => simp only [expandRef, h]
  | some name =>
    have hlink : refName (relink ρ name) = some (ρ name) := refName_path (ρ name)
    simp only [expandRef, h, hlink]

mutual

/-- Types put for references that have been renamed are put for the old ones. -/
theorem expand_relink (f : String → Value) (ρ : String → String) :
    ∀ v, expand f (expand (relink ρ) v) = expand (fun name => f (ρ name)) v
  | .object map => by rw [expand, expand, expand, expandFields_relink f ρ map]
  | .array items => by rw [expand, expand, expand, expandItems_relink f ρ items]
  | .null | .bool _ | .number _ | .string _ => rfl

theorem expandItems_relink (f : String → Value) (ρ : String → String) :
    ∀ items, expandItems f (expandItems (relink ρ) items) =
      expandItems (fun name => f (ρ name)) items
  | [] => rfl
  | v :: items => by
    rw [expandItems, expandItems, expandItems, expand_relink f ρ v, expandItems_relink f ρ items]

theorem expandFields_relink (f : String → Value) (ρ : String → String) :
    ∀ map, expandFields f (expandFields (relink ρ) map) =
      expandFields (fun name => f (ρ name)) map
  | [] => rfl
  | (key, val) :: map => by
    rw [expandFields, expandFields, expandFields, expandFields_relink f ρ map]
    by_cases hkey : key = "$ref"
    · rw [if_pos hkey, if_pos hkey, if_pos hkey, expandRef_relink]
    · rw [if_neg hkey, if_neg hkey, if_neg hkey, expand_relink f ρ val]

end

variable {f g : String → Value}

theorem expandRef_congr {val : Value} (h : ∀ name ∈ refsOf val, f name = g name) :
    expandRef f val = expandRef g val := by
  rw [expandRef, expandRef]
  cases hr : refName val with
  | none => rfl
  | some name =>
    apply h name
    rw [refsOf, hr]
    exact List.mem_singleton_self name

mutual

theorem expand_congr : ∀ v, (∀ name ∈ refs v, f name = g name) → expand f v = expand g v
  | .object map, h => by rw [expand, expand, expandFields_congr map h]
  | .array items, h => by rw [expand, expand, expandItems_congr items h]
  | .null, _ | .bool _, _ | .number _, _ | .string _, _ => rfl

theorem expandItems_congr : ∀ items, (∀ name ∈ refsItems items, f name = g name) →
    expandItems f items = expandItems g items
  | [], _ => rfl
  | v :: items, h => by
    obtain ⟨hv, hitems⟩ := List.forall_mem_append.mp h
    rw [expandItems, expandItems, expand_congr v hv, expandItems_congr items hitems]

theorem expandFields_congr : ∀ map, (∀ name ∈ refsFields map, f name = g name) →
    expandFields f map = expandFields g map
  | [], _ => rfl
  | (key, val) :: map, h => by
    obtain ⟨hval, hmap⟩ := List.forall_mem_append.mp h
    rw [expandFields, expandFields, expandFields_congr map hmap]
    by_cases hkey : key = "$ref"
    · rw [if_pos hkey] at hval
      rw [if_pos hkey, if_pos hkey, expandRef_congr hval]
    · rw [if_neg hkey] at hval
      rw [if_neg hkey, if_neg hkey, expand_congr val hval]

end

theorem relink_eq {ρ : String → String} {name : String} :
    relink ρ name = .string (definitionsPath ++ name) ↔ ρ name = name := by
  rw [relink]
  constructor
  · intro h
    have hlist := congrArg String.toList (Value.string.inj h)
    rw [String.toList_append, String.toList_append] at hlist
    exact String.toList_inj.mp (List.append_cancel_left hlist)
  · intro h
    rw [h]

theorem expandRef_eq_self {ρ : String → String} {val : Value} :
    expandRef (relink ρ) val = val ↔ ∀ name ∈ refsOf val, ρ name = name := by
  rw [expandRef, refsOf]
  cases h : refName val with
  | none => simp
  | some name => simp [refName_eq_some h, relink_eq]

mutual

/-- Renaming leaves alone what refers to no type that is renamed, and nothing else. -/
theorem expand_eq_self (ρ : String → String) :
    ∀ v, expand (relink ρ) v = v ↔ ∀ name ∈ refs v, ρ name = name
  | .object map => by
    rw [expand, refs, ← expandFields_eq_self ρ map]
    exact ⟨Value.object.inj, congrArg Value.object⟩
  | .array items => by
    rw [expand, refs, ← expandItems_eq_self ρ items]
    exact ⟨Value.array.inj, congrArg Value.array⟩
  | .null | .bool _ | .number _ | .string _ => by simp [expand, refs]

theorem expandItems_eq_self (ρ : String → String) :
    ∀ items, expandItems (relink ρ) items = items ↔ ∀ name ∈ refsItems items, ρ name = name
  | [] => by simp [expandItems, refsItems]
  | v :: items => by
    rw [expandItems, refsItems, List.forall_mem_append, ← expand_eq_self ρ v,
      ← expandItems_eq_self ρ items, List.cons.injEq]

theorem expandFields_eq_self (ρ : String → String) :
    ∀ map, expandFields (relink ρ) map = map ↔ ∀ name ∈ refsFields map, ρ name = name
  | [] => by simp [expandFields, refsFields]
  | (key, val) :: map => by
    rw [expandFields, refsFields, List.forall_mem_append, ← expandFields_eq_self ρ map,
      List.cons.injEq, Prod.mk.injEq]
    by_cases hkey : key = "$ref"
    · rw [if_pos hkey, if_pos hkey, ← expandRef_eq_self]
      simp
    · rw [if_neg hkey, if_neg hkey, ← expand_eq_self ρ val]
      simp

end

end Refs

section Merge

variable {responses requests : Schemas} {name : String} {schema : Value}

theorem lookup_foldl_of_ne {α β : Type} (key : α → String) (val : α → β) {es : List α}
    (h : ∀ e ∈ es, key e ≠ name) (acc : AList fun _ : String => β) :
    (es.foldl (fun acc e => acc.insert (key e) (val e)) acc).lookup name = acc.lookup name := by
  induction es generalizing acc with
  | nil => rfl
  | cons e es ih =>
    obtain ⟨he, hes⟩ := List.forall_mem_cons.mp h
    rw [List.foldl_cons, ih hes, AList.lookup_insert_ne (Ne.symm he)]

/-- Of things inserted under keys of their own each one is found. -/
theorem lookup_foldl_of_mem {α β : Type} (key : α → String) (val : α → β) {es : List α}
    (hn : (es.map key).Nodup) {e : α} (he : e ∈ es) (acc : AList fun _ : String => β) :
    (es.foldl (fun acc e => acc.insert (key e) (val e)) acc).lookup (key e) = some (val e) := by
  induction es generalizing acc with
  | nil => cases he
  | cons x es ih =>
    rw [List.map_cons, List.nodup_cons] at hn
    rw [List.foldl_cons]
    rcases List.mem_cons.mp he with rfl | he
    · rw [lookup_foldl_of_ne key val, AList.lookup_insert]
      intro y hy heq
      exact hn.1 (List.mem_map.mpr ⟨y, hy, heq⟩)
    · exact ih hn.2 he _

theorem mem_entries : (⟨name, schema⟩ : Sigma fun _ : String => Value) ∈ requests.entries ↔
    requests.lookup name = some schema := (AList.mem_lookup_iff).symm

/-- A type reads and writes differently. -/
def Differs (responses requests : Schemas) (name : String) : Prop :=
  ∃ r s, responses.lookup name = some r ∧ requests.lookup name = some s ∧ r ≠ s

theorem differs_of_collides {e : Sigma fun _ : String => Value} (he : e ∈ requests.entries)
    (h : collides responses e.1 e.2 = true) : Differs responses requests e.1 := by
  unfold collides at h
  cases hr : responses.lookup e.1 with
  | none =>
    rw [hr] at h
    cases h
  | some r =>
    rw [hr, Option.any_some] at h
    exact ⟨r, e.2, hr, mem_entries.mp he, of_decide_eq_true h⟩

theorem renamesOf_eq : renamesOf responses requests =
    (requests.entries.filter fun e => collides responses e.1 e.2).foldl
      (fun renames e => renames.insert e.1 (e.1 ++ requestSuffix)) ∅ :=
  List.foldl_filter.symm

theorem nodup_names (p : (Sigma fun _ : String => Value) → Bool) :
    ((requests.entries.filter p).map Sigma.fst).Nodup :=
  List.Nodup.sublist (List.filter_sublist.map Sigma.fst) requests.nodupKeys

theorem publishedName_of_differs (h : Differs responses requests name) :
    publishedName (renamesOf responses requests) name = name ++ requestSuffix := by
  obtain ⟨r, s, hr, hs, hne⟩ := h
  have hcollides : collides responses name s = true := by
    simp [collides, hr, hne]
  have hmem : (⟨name, s⟩ : Sigma fun _ : String => Value) ∈
      requests.entries.filter fun e => collides responses e.1 e.2 :=
    List.mem_filter.mpr ⟨mem_entries.mpr hs, hcollides⟩
  have hlookup := lookup_foldl_of_mem Sigma.fst (fun e => e.1 ++ requestSuffix) (nodup_names _)
    hmem ∅
  rw [publishedName, renamesOf_eq, hlookup]
  rfl

theorem publishedName_of_not (h : ¬Differs responses requests name) :
    publishedName (renamesOf responses requests) name = name := by
  have hne : ∀ e ∈ requests.entries.filter fun e => collides responses e.1 e.2, e.1 ≠ name := by
    rintro e he rfl
    obtain ⟨he, hc⟩ := List.mem_filter.mp he
    exact h (differs_of_collides he hc)
  rw [publishedName, renamesOf_eq, lookup_foldl_of_ne Sigma.fst _ hne]
  rfl

/-- No type goes by a name that a read shape is published under, or that the document keeps for
schemas of its own. -/
structure Separate (responses requests : Schemas) : Prop where
  twin : ∀ name, Differs responses requests name →
    requests.lookup (name ++ requestSuffix) = none ∧ responses.lookup (name ++ requestSuffix) = none
  own : ∀ name ∈ ["ApiErrorBody", "OpenApiDocument"],
    requests.lookup name = none ∧ responses.lookup name = none

theorem ne_own (h : ∀ own ∈ ["ApiErrorBody", "OpenApiDocument"], name ≠ own) (schemas : Schemas) :
    ((schemas.insert "ApiErrorBody" apiErrorSchema).insert "OpenApiDocument"
      openApiDocumentSchema).lookup name = schemas.lookup name := by
  obtain ⟨herror, hdocument⟩ := List.forall_mem_cons.mp h
  rw [AList.lookup_insert_ne (List.forall_mem_singleton.mp hdocument),
    AList.lookup_insert_ne herror]

theorem twin_ne_own : ∀ own ∈ ["ApiErrorBody", "OpenApiDocument"], name ++ requestSuffix ≠ own := by
  have hsuffix : requestSuffix.toList <:+ (name ++ requestSuffix).toList := by
    rw [String.toList_append]
    exact List.suffix_append _ _
  refine List.forall_mem_cons.mpr ⟨?_, List.forall_mem_singleton.mpr ?_⟩
  · intro he
    rw [he] at hsuffix
    exact absurd hsuffix (by decide)
  · intro he
    rw [he] at hsuffix
    exact absurd hsuffix (by decide)

variable (h : Separate responses requests)
include h

theorem published_ne_own (hs : requests.lookup name = some schema) :
    ∀ own ∈ ["ApiErrorBody", "OpenApiDocument"],
      publishedName (renamesOf responses requests) name ≠ own := by
  by_cases hd : Differs responses requests name
  · rw [publishedName_of_differs hd]
    exact twin_ne_own
  · rw [publishedName_of_not hd]
    rintro own hown rfl
    rw [(h.own name hown).1] at hs
    cases hs

theorem published_injective {other : String} {schema' : Value}
    (hs : requests.lookup name = some schema) (hs' : requests.lookup other = some schema')
    (heq : publishedName (renamesOf responses requests) name =
      publishedName (renamesOf responses requests) other) : name = other := by
  by_cases hd : Differs responses requests name
  · by_cases hd' : Differs responses requests other
    · rw [publishedName_of_differs hd, publishedName_of_differs hd'] at heq
      have hlist := congrArg String.toList heq
      rw [String.toList_append, String.toList_append] at hlist
      exact String.toList_inj.mp (List.append_cancel_right hlist)
    · rw [publishedName_of_differs hd, publishedName_of_not hd'] at heq
      rw [← heq, (h.twin name hd).1] at hs'
      cases hs'
  · by_cases hd' : Differs responses requests other
    · rw [publishedName_of_not hd, publishedName_of_differs hd'] at heq
      rw [heq, (h.twin other hd').1] at hs
      cases hs
    · rw [publishedName_of_not hd, publishedName_of_not hd'] at heq
      exact heq

/-- Each request type is published, with its references renamed. -/
theorem lookup_request (hs : requests.lookup name = some schema) :
    (componentSchemas responses requests).lookup
        (publishedName (renamesOf responses requests) name) =
      some (renameRefs (renamesOf responses requests) schema) := by
  have hnodup : (requests.entries.map fun e =>
      publishedName (renamesOf responses requests) e.1).Nodup := by
    have hpairs := (List.nodupKeys_iff_pairwise.mp requests.nodupKeys)
    rw [List.Nodup, List.pairwise_map]
    refine hpairs.imp_of_mem fun {e e'} he he' hne heq => hne ?_
    exact published_injective h (mem_entries.mp he) (mem_entries.mp he') heq
  rw [componentSchemas, ne_own (published_ne_own h hs)]
  exact lookup_foldl_of_mem (fun e => publishedName (renamesOf responses requests) e.1)
    (fun e => renameRefs (renamesOf responses requests) e.2) hnodup (mem_entries.mpr hs) responses

omit h in
/-- What no request type is published under is as it is for the responses. -/
theorem lookup_response
    (hne : ∀ other schema', requests.lookup other = some schema' →
      publishedName (renamesOf responses requests) other ≠ name)
    (hown : ∀ own ∈ ["ApiErrorBody", "OpenApiDocument"], name ≠ own) :
    (componentSchemas responses requests).lookup name = responses.lookup name := by
  rw [componentSchemas, ne_own hown]
  have hentry : ∀ e ∈ requests.entries,
      publishedName (renamesOf responses requests) e.1 ≠ name := fun e he =>
    hne e.1 e.2 (mem_entries.mp he)
  exact lookup_foldl_of_ne _ _ hentry responses

end Merge

section Meaning

variable {responses requests : Schemas}

/-- A type is registered with all that it refers to. -/
def Closed (schemas : Schemas) : Prop :=
  ∀ name schema, schemas.lookup name = some schema → ∀ other ∈ refs schema,
    (schemas.lookup other).isSome = true

/-- What the document says of a request body is what the server reads, at every depth. -/
theorem unfold_request (h : Separate responses requests) (hclosed : Closed requests) (depth : Nat)
    {v : Value} (hv : ∀ name ∈ refs v, (requests.lookup name).isSome = true) :
    unfold (componentSchemas responses requests) depth
        (renameRefs (renamesOf responses requests) v) = unfold requests depth v := by
  induction depth generalizing v with
  | zero =>
    rw [renameRefs_eq, unfold, expand_relink]
    rfl
  | succ depth ih =>
    rw [renameRefs_eq, unfold, expand_relink, unfold]
    apply expand_congr
    intro name hname
    obtain ⟨schema, hs⟩ := Option.isSome_iff_exists.mp (hv name hname)
    rw [lookup_request h hs, hs]
    exact ih (hclosed name schema hs)

theorem requestSchema_eq (renames : Renames) (name : String) :
    requestSchema renames name = renameRefs renames (schemaRef name) := by
  have href : refName (.string (definitionsPath ++ name)) = some name := refName_path name
  rw [requestSchema, schemaRef, schemaRef, renameRefs_eq, expand, expandFields, if_pos rfl,
    expandFields, expandRef, href]
  rfl

/-- What an operation's body refers to is, with all that it refers to in turn, the shape that
the server reads. -/
theorem request_body_meaning (h : Separate responses requests) (hclosed : Closed requests)
    {name : String} (hname : (requests.lookup name).isSome = true) (depth : Nat) :
    unfold (componentSchemas responses requests) depth
        (requestSchema (renamesOf responses requests) name) =
      unfold requests depth (schemaRef name) := by
  have hrefs : refs (schemaRef name) = [name] := by
    rw [schemaRef, refs, refsFields, if_pos rfl, refsOf, refName_path]
    rfl
  rw [requestSchema_eq]
  apply unfold_request h hclosed
  rw [hrefs]
  exact List.forall_mem_singleton.mpr hname

theorem append_ne_self (name : String) : name ++ requestSuffix ≠ name := by
  intro heq
  have hlen := congrArg (fun s : String => s.toList.length) heq
  simp [requestSuffix] at hlen

/-- Each response type is published just as the server writes it if and only if none that
reads as it writes refers to one that does not. -/
theorem responses_kept_iff (h : Separate responses requests) :
    (∀ name schema, responses.lookup name = some schema →
      (componentSchemas responses requests).lookup name = some schema) ↔
    ∀ name schema, responses.lookup name = some schema → requests.lookup name = some schema →
      ∀ other ∈ refs schema, ¬Differs responses requests other := by
  have hshared : ∀ {name schema}, responses.lookup name = some schema →
      requests.lookup name = some schema → (componentSchemas responses requests).lookup name =
        some (renameRefs (renamesOf responses requests) schema) := by
    intro name schema hr hs
    have hsame : ¬Differs responses requests name := by
      rintro ⟨r, s, hr', hs', hne⟩
      rw [hr] at hr'
      rw [hs] at hs'
      exact hne ((Option.some.inj hr').symm.trans (Option.some.inj hs'))
    have hlookup := lookup_request h hs
    rw [publishedName_of_not hsame] at hlookup
    exact hlookup
  constructor
  · intro hkept name schema hr hs other hother hdiffers
    have hself := hkept name schema hr
    rw [hshared hr hs, renameRefs_eq] at hself
    have hname := (expand_eq_self _ schema).mp (Option.some.inj hself) other hother
    rw [publishedName_of_differs hdiffers] at hname
    exact append_ne_self other hname
  · intro hplain name schema hr
    by_cases hs : requests.lookup name = some schema
    · rw [hshared hr hs, renameRefs_eq, (expand_eq_self _ schema).mpr]
      exact fun other hother => publishedName_of_not (hplain name schema hr hs other hother)
    · rw [lookup_response ?_ ?_]
      · exact hr
      · rintro other schema' hother heq
        by_cases hd : Differs responses requests other
        · rw [publishedName_of_differs hd] at heq
          have habsent := (h.twin other hd).2
          rw [heq, hr] at habsent
          cases habsent
        · rw [publishedName_of_not hd] at heq
          subst heq
          exact hd ⟨schema, schema', hr, hother, fun heq => hs (heq ▸ hother)⟩
      · rintro own hown rfl
        rw [(h.own name hown).2] at hr
        cases hr

section Sample

/-- A template that is read with one field required and written with two. -/
def read : Schemas :=
  AList.insert "CreateAutomationBody" (.object [("properties", .object
    [("template", schemaRef "SpawnTemplate")])])
    (AList.insert "SpawnTemplate" (.object [("required", .array [.string "task"])]) ∅)

def written : Schemas :=
  AList.insert "Automation" (.object [("properties", .object
    [("template", schemaRef "SpawnTemplate")])])
    (AList.insert "SpawnTemplate" (.object [("required", .array
      [.string "task", .string "isolation_worktree"])]) ∅)

theorem lookup_two {a b name : String} {x y : Value}
    (h : (AList.insert a x (AList.insert b y (∅ : Schemas))).lookup name ≠ none) :
    name = a ∨ name = b := by
  by_contra hne
  rw [not_or] at hne
  rw [AList.lookup_insert_ne hne.1, AList.lookup_insert_ne hne.2] at h
  exact h rfl

theorem separate_sample : Separate written read := by
  refine ⟨?_, ?_⟩
  · rintro name ⟨r, s, -, hs, -⟩
    rcases lookup_two (show read.lookup name ≠ none by rw [hs]; nofun) with rfl | rfl
    · exact ⟨rfl, rfl⟩
    · exact ⟨rfl, rfl⟩
  · exact List.forall_mem_cons.mpr ⟨⟨rfl, rfl⟩, List.forall_mem_singleton.mpr ⟨rfl, rfl⟩⟩

theorem closed_sample : Closed read := by
  intro name schema hs
  rcases lookup_two (show read.lookup name ≠ none by rw [hs]; nofun) with rfl | rfl
  · cases hs
    exact List.forall_mem_singleton.mpr rfl
  · cases hs
    exact List.forall_mem_nil _

/-- The body of a creation has the template that is read. -/
theorem request_body_sample : unfold (componentSchemas written read) 2
      (requestSchema (renamesOf written read) "CreateAutomationBody") =
    unfold read 2 (schemaRef "CreateAutomationBody") :=
  request_body_meaning separate_sample closed_sample rfl 2

theorem responses_kept_sample :
    (∀ name schema, written.lookup name = some schema →
      (componentSchemas written read).lookup name = some schema) ↔
    ∀ name schema, written.lookup name = some schema → read.lookup name = some schema →
      ∀ other ∈ refs schema, ¬Differs written read other :=
  responses_kept_iff separate_sample

end Sample

end Meaning

end Prospero.Proofs.OpenApi
