import Mathlib.Data.List.Nodup

namespace KeyedLog

variable {ρ κ : Type*} [DecidableEq κ] (key : ρ → κ)

/-- Append to a log on which `key` is unique; refused when the key is taken. -/
def insert? (r : ρ) (log : List ρ) : Option (List ρ) :=
  if key r ∈ log.map key then none else some (log ++ [r])

variable {key}

theorem insert?_eq_some {r : ρ} {log log' : List ρ} :
    insert? key r log = some log' ↔ key r ∉ log.map key ∧ log' = log ++ [r] := by
  unfold insert?
  split <;> simp_all [eq_comm]

theorem nodup_insert? {r : ρ} {log log' : List ρ} (hl : (log.map key).Nodup)
    (h : insert? key r log = some log') : (log'.map key).Nodup := by
  obtain ⟨hfresh, rfl⟩ := insert?_eq_some.mp h
  rw [List.map_append]
  exact List.Nodup.append hl (List.nodup_singleton _) (by simpa using hfresh)

/-- A stored row is the only one under its key. -/
theorem filter_key_eq {r : ρ} {log : List ρ} (hl : (log.map key).Nodup) (hr : r ∈ log) :
    log.filter (fun q => key q = key r) = [r] := by
  obtain ⟨before, after, rfl⟩ := List.append_of_mem hr
  simp only [List.map_append, List.map_cons, List.nodup_append, List.nodup_cons] at hl
  obtain ⟨-, ⟨hafter, -⟩, hbefore⟩ := hl
  have hb : before.filter (fun q => key q = key r) = [] := by
    apply List.filter_eq_nil_iff.mpr
    intro q hq hk
    exact hbefore _ (List.mem_map_of_mem hq) _ (List.mem_cons_self ..) (by simpa using hk)
  have ha : after.filter (fun q => key q = key r) = [] := by
    apply List.filter_eq_nil_iff.mpr
    intro q hq hk
    apply hafter
    exact (of_decide_eq_true hk) ▸ List.mem_map_of_mem hq
  simp [hb, ha]

omit [DecidableEq κ] in
/-- A selection that leaves the keys as they are. -/
theorem map_filterMap_sublist {σ : Type*} {key' : σ → κ} {f : ρ → Option σ}
    (h : ∀ r s, f r = some s → key' s = key r) (log : List ρ) :
    ((log.filterMap f).map key').Sublist (log.map key) := by
  induction log with
  | nil => exact List.Sublist.refl _
  | cons r log ih =>
    cases hr : f r with
    | none =>
      rw [List.filterMap_cons_none hr]
      exact ih.trans (List.sublist_cons_self ..)
    | some s =>
      rw [List.filterMap_cons_some hr, List.map_cons, List.map_cons, h r s hr]
      exact ih.cons_cons _

end KeyedLog
