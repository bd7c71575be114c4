import Prospero.Auth

namespace Prospero.Proofs.Auth
open Prospero.Auth

variable {crypto : Crypto} {auth : AuthState} {r : Request} {identity : Identity}

/-- How a request comes to its handler, and the identity it then has. -/
inductive Admitted (crypto : Crypto) (auth : AuthState) (r : Request) : Identity → Prop
  | disabled (subject : Option String) (header : subjectHeader r.headers = .ok subject)
      (off : auth.isEnabled = false) : Admitted crypto auth r ⟨none, subject⟩
  | unguarded (subject : Option String) (header : subjectHeader r.headers = .ok subject)
      (access : requiredAccess r.method r.route = .unguarded) :
      Admitted crypto auth r ⟨none, subject⟩
  | authenticated (subject : Option String) (header : subjectHeader r.headers = .ok subject)
      (need : Scope) (access : requiredAccess r.method r.route = .requires need)
      (principal : Principal)
      (resolved : resolvePrincipal crypto auth r.headers r.nowUnix = some principal)
      (may : ¬principal.scope < need)
      (origin : principal.via = .cookie → r.method ∉ [.get, .head] → sameOrigin r.headers = true) :
      Admitted crypto auth r ⟨some principal.tokenName, subject⟩

theorem middleware_admitted (h : middleware crypto auth r = .ok identity) :
    Admitted crypto auth r identity := by
  unfold middleware at h
  split at h
  · cases h
  rename_i subject header
  split at h
  · rename_i off
    cases h
    exact .disabled subject header (by simpa using off)
  split at h
  · rename_i access
    cases h
    exact .unguarded subject header access
  rename_i need access
  split at h
  · cases h
  rename_i principal resolved
  split at h
  · cases h
  rename_i may
  split at h
  · cases h
  rename_i origin
  cases h
  refine .authenticated subject header need access principal resolved may ?_
  intro hvia hmethod
  by_contra hcross
  exact origin ⟨hvia, hmethod, hcross⟩

/-- Where a scope is required, the identity is that of the resolved principal. -/
theorem admitted_principal {need : Scope} (h : middleware crypto auth r = .ok identity)
    (henabled : auth.isEnabled = true)
    (haccess : requiredAccess r.method r.route = .requires need) :
    ∃ principal, resolvePrincipal crypto auth r.headers r.nowUnix = some principal ∧
      identity.actor = some principal.tokenName := by
  cases middleware_admitted h with
  | disabled subject header off =>
    rw [henabled] at off
    cases off
  | unguarded subject header access =>
    rw [haccess] at access
    cases access
  | authenticated subject header need access principal resolved may origin =>
    exact ⟨principal, resolved, rfl⟩

theorem admitted_unguarded (h : middleware crypto auth r = .ok identity)
    (haccess : requiredAccess r.method r.route = .unguarded) : identity.actor = none := by
  cases middleware_admitted h with
  | disabled subject header off | unguarded subject header access => rfl
  | authenticated subject header need access principal resolved may origin =>
    rw [haccess] at access
    cases access

theorem admitted_subject (h : middleware crypto auth r = .ok identity) :
    subjectHeader r.headers = .ok identity.subject := by
  cases middleware_admitted h with
  | disabled subject header off => exact header
  | unguarded subject header access => exact header
  | authenticated subject header need access principal resolved may origin => exact header

/-- A subject that was accepted is what the header says, and an absent header gives none. -/
theorem subject_none {headers : Headers} :
    subjectHeader headers = .ok none ↔ headers.onBehalfOf = none := by
  unfold subjectHeader
  split
  · rename_i absent
    simp [absent]
  · rename_i unreadable
    simp [unreadable]
  · rename_i text present
    simp only [present, reduceCtorEq, iff_false]
    cases validateSubject text <;> simp [Except.map]

end Prospero.Proofs.Auth
