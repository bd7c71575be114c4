import Prospero.Proofs.Sessions

namespace Prospero.Proofs.TaskNames
open Prospero.Automations Proofs.Auth

variable {σ : Type} (crates : Crates σ)

/-- What makes two specs the same desired agent. -/
def agentOf (spec : TaskSpec) : String × String × Option String :=
  (spec.workspace, spec.request.prompt, spec.request.label)

/-- The bytes that `task_name` feeds to the hash. -/
def hashed (spec : TaskSpec) : List UInt8 :=
  utf8 spec.workspace ++ [0] ++ utf8 spec.request.prompt ++ [0] ++
    (spec.request.label.map utf8).getD []

def nameOf (bytes : List UInt8) : String :=
  "ct-" ++ String.ofList ((crates.hexEncode (crates.sha256 bytes)).toList.take 16)

theorem taskName_eq (spec : TaskSpec) : taskName crates spec = nameOf crates (hashed spec) := rfl

/-- Every other agent is hashed from other bytes, and has another name if the hash does not
collide on the two. -/
def Unmistakable (spec : TaskSpec) : Prop :=
  ∀ other, agentOf other ≠ agentOf spec →
    hashed other ≠ hashed spec ∧
      ((nameOf crates (hashed other) = nameOf crates (hashed spec) →
        hashed other = hashed spec) → taskName crates other ≠ taskName crates spec)

section Text

/-- The text whose bytes are hashed. -/
def text (spec : TaskSpec) : List Char :=
  (spec.workspace.toList ++ '\x00' :: spec.request.prompt.toList) ++
    '\x00' :: (spec.request.label.getD "").toList

theorem utf8_nul (cs : List Char) :
    utf8 (String.ofList ('\x00' :: cs)) = [0] ++ utf8 (String.ofList cs) := by
  have hnul : utf8 (String.ofList ['\x00']) = [0] := by
    rw [utf8_eq]
    rfl
  rw [← List.singleton_append, String.ofList_append, utf8_append, hnul]

theorem hashed_eq (spec : TaskSpec) : hashed spec = utf8 (String.ofList (text spec)) := by
  have hlabel : (spec.request.label.map utf8).getD [] = utf8 (spec.request.label.getD "") := by
    cases spec.request.label with
    | none =>
      rw [Option.map_none, Option.getD_none, Option.getD_none, utf8_eq]
      rfl
    | some label => rfl
  rw [hashed, hlabel, text, String.ofList_append, utf8_append, String.ofList_append, utf8_append,
    utf8_nul, utf8_nul, String.ofList_toList, String.ofList_toList, String.ofList_toList]
  simp only [List.append_assoc]

theorem hashed_inj {a b : TaskSpec} : hashed a = hashed b ↔ text a = text b := by
  rw [hashed_eq, hashed_eq, utf8_injective.eq_iff, String.ofList_inj]

/-- No field has a NUL, which the fields are separated by. -/
def Separable (spec : TaskSpec) : Prop :=
  '\x00' ∉ spec.workspace.toList ∧ '\x00' ∉ spec.request.prompt.toList ∧
    '\x00' ∉ (spec.request.label.getD "").toList

theorem separable_iff_count (spec : TaskSpec) :
    Separable spec ↔ (text spec).count '\x00' = 2 := by
  unfold Separable text
  rw [← List.count_eq_zero, ← List.count_eq_zero, ← List.count_eq_zero, List.count_append,
    List.count_append, List.count_cons_self, List.count_cons_self]
  omega

/-- The separators tell the fields apart, but not an empty label from none. -/
theorem text_inj_of_separable {a b : TaskSpec} (ha : Separable a) (h : text a = text b) :
    a.workspace = b.workspace ∧ a.request.prompt = b.request.prompt ∧
      a.request.label.getD "" = b.request.label.getD "" := by
  have hb : Separable b := by
    rw [separable_iff_count, ← h, ← separable_iff_count]
    exact ha
  obtain ⟨hrest, hlabel⟩ := field_injective ha.2.2 hb.2.2 h
  obtain ⟨hworkspace, hprompt⟩ := field_injective ha.2.1 hb.2.1 hrest
  exact ⟨String.toList_inj.mp hworkspace, String.toList_inj.mp hprompt, String.toList_inj.mp hlabel⟩

end Text

section Mistaken

variable {crates} {spec : TaskSpec}

theorem not_unmistakable (other : TaskSpec) (hagent : agentOf other ≠ agentOf spec)
    (htext : text other = text spec) : ¬Unmistakable crates spec :=
  fun h => (h other hagent).1 (hashed_inj.mpr htext)

/-- The spec with other fields. -/
def refield (spec : TaskSpec) (workspace prompt : List Char) (label : Option (List Char)) :
    TaskSpec :=
  ⟨String.ofList workspace,
    { spec.request with prompt := String.ofList prompt, label := label.map String.ofList }⟩

theorem text_refield (workspace prompt label : List Char) :
    text (refield spec workspace prompt (some label)) =
      (workspace ++ '\x00' :: prompt) ++ '\x00' :: label := by
  simp [text, refield]

theorem label_of_unmistakable (h : Unmistakable crates spec) :
    ∃ label, spec.request.label = some label ∧ label ≠ "" := by
  cases hlabel : spec.request.label with
  | none =>
    refine absurd h (not_unmistakable
      (refield spec spec.workspace.toList spec.request.prompt.toList (some [])) ?_ ?_)
    · simp [agentOf, refield, hlabel]
    · rw [text_refield, text, hlabel]
      rfl
  | some label =>
    refine ⟨label, rfl, ?_⟩
    rintro rfl
    refine absurd h (not_unmistakable
      (refield spec spec.workspace.toList spec.request.prompt.toList none) ?_ ?_)
    · simp [agentOf, refield, hlabel]
    · simp [text, refield, hlabel]

theorem ne_of_longer {text rest : List Char} {s : String} (h : s.toList = text ++ rest)
    (hrest : rest ≠ []) : String.ofList text ≠ s := by
  intro heq
  rw [← heq, String.toList_ofList] at h
  exact hrest (List.self_eq_append_right.mp h)

/-- A NUL in a field can as well be the separator that ends a shorter field. -/
theorem separable_of_unmistakable (h : Unmistakable crates spec) : Separable spec := by
  refine ⟨?_, ?_, ?_⟩
  · intro hmem
    obtain ⟨a, b, hsplit⟩ := List.append_of_mem hmem
    refine not_unmistakable (refield spec a b
      (some (spec.request.prompt.toList ++ '\x00' :: (spec.request.label.getD "").toList))) ?_ ?_ h
    · intro heq
      exact ne_of_longer hsplit (List.cons_ne_nil _ _) (congrArg Prod.fst heq)
    · rw [text_refield, text, hsplit]
      simp
  · intro hmem
    obtain ⟨a, b, hsplit⟩ := List.append_of_mem hmem
    refine not_unmistakable (refield spec spec.workspace.toList a
      (some (b ++ '\x00' :: (spec.request.label.getD "").toList))) ?_ ?_ h
    · intro heq
      exact ne_of_longer hsplit (List.cons_ne_nil _ _) (congrArg (fun t => t.2.1) heq)
    · rw [text_refield, text, hsplit]
      simp
  · intro hmem
    obtain ⟨a, b, hsplit⟩ := List.append_of_mem hmem
    refine not_unmistakable (refield spec
      (spec.workspace.toList ++ '\x00' :: spec.request.prompt.toList) a (some b)) ?_ ?_ h
    · intro heq
      have hworkspace : spec.workspace = String.ofList (spec.workspace.toList ++
          '\x00' :: spec.request.prompt.toList) := (congrArg Prod.fst heq).symm
      have hlist := congrArg String.toList hworkspace
      rw [String.toList_ofList] at hlist
      exact List.cons_ne_nil _ _ (List.self_eq_append_right.mp hlist)
    · rw [text_refield, text, hsplit]
      simp

theorem unmistakable_of_separable {label : String} (hlabel : spec.request.label = some label)
    (hne : label ≠ "") (hs : Separable spec) : Unmistakable crates spec := by
  have hbytes : ∀ other, agentOf other ≠ agentOf spec → hashed other ≠ hashed spec := by
    intro other hagent hsame
    obtain ⟨hworkspace, hprompt, hlabels⟩ :=
      text_inj_of_separable hs (hashed_inj.mp hsame).symm
    apply hagent
    rw [hlabel, Option.getD_some] at hlabels
    have hother : other.request.label = some label := by
      cases hnone : other.request.label with
      | none => exact absurd (by rwa [hnone, Option.getD_none] at hlabels) hne
      | some l => rw [hlabels, hnone, Option.getD_some]
    rw [agentOf, agentOf, hworkspace, hprompt, hother, hlabel]
  intro other hagent
  refine ⟨hbytes other hagent, ?_⟩
  intro hfree hname
  rw [taskName_eq, taskName_eq] at hname
  exact hbytes other hagent (hfree hname)

end Mistaken

/-- A spec is told from every other agent exactly when it has a label and no NUL in its
fields. Without NULs only an empty label and none are taken for each other. -/
theorem task_name_injective_iff (spec : TaskSpec) :
    (Unmistakable crates spec ↔
      (∃ label, spec.request.label = some label ∧ label ≠ "") ∧ Separable spec) ∧
    (Separable spec → ∀ other, hashed other = hashed spec ↔
      other.workspace = spec.workspace ∧ other.request.prompt = spec.request.prompt ∧
        other.request.label.getD "" = spec.request.label.getD "") := by
  refine ⟨⟨?_, ?_⟩, ?_⟩
  · intro h
    exact ⟨label_of_unmistakable h, separable_of_unmistakable h⟩
  · rintro ⟨⟨label, hlabel, hne⟩, hs⟩
    exact unmistakable_of_separable hlabel hne hs
  · intro hs other
    rw [hashed_inj]
    constructor
    · intro h
      obtain ⟨hworkspace, hprompt, hlabel⟩ := text_inj_of_separable hs h.symm
      exact ⟨hworkspace.symm, hprompt.symm, hlabel.symm⟩
    · rintro ⟨hworkspace, hprompt, hlabel⟩
      rw [text, text, hworkspace, hprompt, hlabel]

section Sample

def fixWith (prompt : String) (label : Option String) : TaskSpec :=
  ⟨"acme", ⟨prompt, label, none, false, none, false, none, none, none, .supervised⟩⟩

/-- A NUL in a prompt stands for the separator before a label, and an empty label for none. -/
theorem spawn_lands_on_stranger :
    (¬∀ a b : TaskSpec, agentOf a ≠ agentOf b → hashed a ≠ hashed b) ∧
      ∀ crates : Crates Unit,
        taskName crates (fixWith "fix\x00a" none) = taskName crates (fixWith "fix" (some "a\x00")) ∧
        taskName crates (fixWith "fix" none) = taskName crates (fixWith "fix" (some "")) := by
  have hnul : hashed (fixWith "fix\x00a" none) = hashed (fixWith "fix" (some "a\x00")) := by
    rw [hashed_inj]
    decide
  have hempty : hashed (fixWith "fix" none) = hashed (fixWith "fix" (some "")) := by
    rw [hashed_inj]
    decide
  refine ⟨fun h => h _ _ (by decide) hnul, ?_⟩
  intro crates
  exact ⟨congrArg (nameOf crates) hnul, congrArg (nameOf crates) hempty⟩

end Sample

end Prospero.Proofs.TaskNames
