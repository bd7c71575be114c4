import Prospero.Lib.Machine
import Prospero.Marks
import Prospero.Proofs.SessionTasks

namespace Prospero.Proofs.Marks
open Prospero.SessionPlane (AgentRecord Phase Proc ensurePodAgent)
open Prospero.KubeFleet (recreatedNames)
open Prospero.Proofs.SessionTasks (proceed_spec step_turn)
open Prospero.Marks

/-- The process may yet find its pod's agent terminal. -/
def Resolving : Phase → Prop
  | .dedup | .checked | .acquired | .owned | .listing => True
  | _ => False

/-- No attach call for an older CR of the name is pending on the replica. -/
def NoneOlder (w : World) (me : ReplicaId) (name : String) : Prop :=
  ∀ id p, w.plane.procs id = some p → p.replica = me → p.agent = name → Resolving p.phase →
    w.crs.lookup name = some (w.incarnation id)

/-- The pod of the name's current CR was found terminal. -/
def Observed (w : World) (name : String) : Prop :=
  ∃ uid, w.crs.lookup name = some uid ∧ uid ∈ w.observed

/-- A mark is about the current CR. -/
def MarksCurrent (w : World) : Prop :=
  ∀ me name, name ∈ w.plane.terminal me → NoneOlder w me name → Observed w name

/-- A mark is about the current CR as soon as the watch loop has been through a
pass that listed the name as it is now. -/
def MarksListed (w : World) : Prop :=
  ∀ me name, name ∈ w.plane.terminal me → NoneOlder w me name →
    (w.loops me).clearing = none → (w.loops me).lastUids.lookup name = w.crs.lookup name →
    Observed w name

/-- A call for a CR whose pod was not found terminal goes on to attach, once the
watch loop has been through such a pass. -/
def Attaches (w : World) : Prop :=
  ∀ id me name addr hasSpec uid w', NoneOlder w me name → (w.loops me).clearing = none →
    (w.loops me).lastUids.lookup name = w.crs.lookup name → ¬Observed w name →
    w.step (.attach id me name (.tcp addr) hasSpec uid) = some w' →
    ∃ p, w'.plane.procs id = some p ∧ p.agent = name ∧ p.phase = .dedup

/-- The watch loop has the name to clear, or sees by its next pass that it has. -/
def Due (w : World) (me : ReplicaId) (name : String) : Prop :=
  (∃ names, (w.loops me).clearing = some names ∧ name ∈ names) ∨
    ∃ uid, (w.loops me).lastUids.lookup name = some uid ∧ w.crs.lookup name ≠ some uid

/-- A reply that tells of a terminal agent is of the pod of the current CR, or
the name is due to be cleared; and a marked name's CR goes only when the watch
loop has listed the name or is to clear it. -/
def Noticed (w : World) : Action → Prop
  | .reply id records uid => ∀ p, w.plane.procs id = some p → p.phase = .listing →
      ensurePodAgent records p.hasSpec = .terminal →
      w.crs.lookup p.agent = some uid ∨ Due w p.replica p.agent
  | .delete name => ∀ me, name ∈ w.plane.terminal me →
      (w.loops me).lastUids.lookup name ≠ none ∨ Due w me name
  | _ => True

/-- A reply that tells of a terminal agent is of the pod of the current CR, and a
name's CR goes only when no replica has marked the name. -/
def Prompt (w : World) : Action → Prop
  | .reply id records uid => ∀ p, w.plane.procs id = some p → p.phase = .listing →
      ensurePodAgent records p.hasSpec = .terminal → w.crs.lookup p.agent = some uid
  | .delete name => ∀ me, name ∉ w.plane.terminal me
  | _ => True

section Fades

variable {p p' : SessionPlane.World}

/-- No name is marked that was not. -/
def Fades (p p' : SessionPlane.World) : Prop :=
  ∀ me name, name ∈ p'.terminal me → name ∈ p.terminal me

theorem Fades.of_eq (h : p'.terminal = p.terminal) : Fades p p' := by
  intro me name hname
  rwa [h] at hname

theorem Fades.filter {me : ReplicaId} {keep : String → Bool}
    (h : p'.terminal = Function.update p.terminal me ((p.terminal me).filter keep)) :
    Fades p p' := by
  intro other name hname
  rw [h] at hname
  by_cases he : other = me
  · subst he
    rw [Function.update_self] at hname
    exact (List.mem_filter.mp hname).1
  · rwa [Function.update_of_ne he] at hname

theorem cleanupAttach_terminal (p : SessionPlane.World) (id : Nat) (q : Proc) :
    (p.cleanupAttach id q).terminal = p.terminal := by
  unfold SessionPlane.World.cleanupAttach
  split <;> rfl

theorem takeSlot_terminal (p : SessionPlane.World) (me : ReplicaId) (agent : String) :
    (p.takeSlot me agent).terminal = p.terminal := by
  unfold SessionPlane.World.takeSlot
  repeat' split
  all_goals rfl

theorem statement_fades {id : Nat} {source : Phase} {a : Proc → Leases.Action}
    {target : Leases.World → Phase} (hs : p.statement id source a target = some p') :
    Fades p p' := by
  obtain ⟨q, _, _, hq⟩ := proceed_spec hs
  obtain ⟨l, _, rfl⟩ := Option.map_eq_some_iff.mp hq
  exact .of_eq rfl

/-- Only a `List` that is answered can mark a name. -/
theorem step_fades {a : SessionPlane.Action} (hs : p.step a = some p')
    (ha : ∀ id, a ≠ .list id true) : Fades p p' := by
  cases step_turn hs with
  | adopt id | mark id | vacant id => exact absurd rfl (ha id)
  | tryAcquire id ok p' taken | recordHeld id p' taken | forgetHeld id p' taken
  | release id ok p' taken => exact statement_fades taken
  | unlisted id ok q slot phase found | unsent id agentId replied q slot phase
  | finish id q attachId slot phase => exact .of_eq (cleanupAttach_terminal p id q)
  | unanswered id agentId q slot phase => exact .of_eq (cleanupAttach_terminal _ id q)
  | stop id me agent slot => exact .of_eq (takeSlot_terminal p me agent)
  | forgetTerminal | forgetGone => exact .filter rfl
  | restart me =>
    intro other name hname
    by_cases he : other = me
    · subst he
      simp [SessionPlane.World.restart] at hname
    · simpa [SessionPlane.World.restart, he] using hname
  | _ => exact .of_eq rfl

end Fades

section Reply

variable {p p' : SessionPlane.World}

/-- An answered `List` marks the agent of its process, and only when it finds
the pod's agent terminal. -/
theorem list_terminal {id : Nat} (hs : p.step (.list id true) = some p') :
    ∃ q, p.procs id = some q ∧ q.phase = .listing ∧ ∀ me name, name ∈ p'.terminal me →
      name ∈ p.terminal me ∨ me = q.replica ∧ name = q.agent ∧
        ensurePodAgent (p.pods q.agent q.addr).registry q.hasSpec = .terminal := by
  cases step_turn hs with
  | adopt _ q attachId slot phase found => exact ⟨q, slot, phase, fun me name => Or.inl⟩
  | vacant _ q slot phase found => exact ⟨q, slot, phase, fun me name => Or.inl⟩
  | unlisted _ _ q slot phase found =>
    refine ⟨q, slot, phase, fun me name hname => Or.inl ?_⟩
    rwa [cleanupAttach_terminal] at hname
  | mark _ q slot phase found =>
    refine ⟨q, slot, phase, ?_⟩
    intro me name hname
    simp only [cleanupAttach_terminal] at hname
    by_cases he : me = q.replica
    · subst he
      rw [Function.update_self] at hname
      rcases List.mem_cons.mp hname with rfl | hold
      · exact Or.inr ⟨rfl, rfl, found⟩
      · exact Or.inl hold
    · rw [Function.update_of_ne he] at hname
      exact Or.inl hname

end Reply

section Step

variable {w w' : World} {a : Action}

/-- What an attach task makes of a reply. -/
structure Answered (w w' : World) (records : List AgentRecord) (uid : String) (p : Proc) :
    Prop where
  marked : ∀ me name, name ∈ w'.plane.terminal me → name ∈ w.plane.terminal me ∨
    me = p.replica ∧ name = p.agent ∧ ensurePodAgent records p.hasSpec = .terminal
  observed : ∀ u ∈ w.observed, u ∈ w'.observed
  noted : ensurePodAgent records p.hasSpec = .terminal → uid ∈ w'.observed
  crs : w'.crs = w.crs
  loops : w'.loops = w.loops
  used : w'.used = w.used

theorem reply_spec {id : Nat} {records : List AgentRecord} {uid : String}
    (hs : w.step (.reply id records uid) = some w') :
    ∃ p, w.plane.procs id = some p ∧ p.phase = .listing ∧ Answered w w' records uid p := by
  obtain ⟨p, hat, hs⟩ := Option.bind_eq_some_iff.mp hs
  obtain ⟨plane, hlist, rfl⟩ := Option.map_eq_some_iff.mp hs
  obtain ⟨q, hat', hphase, hmarked⟩ := list_terminal hlist
  obtain rfl : p = q := Option.some.inj (hat.symm.trans hat')
  refine ⟨p, hat, hphase, ?_, ?_, ?_, rfl, rfl, rfl⟩
  · intro me name hname
    simpa [SessionPlane.World.setPod] using hmarked me name hname
  · intro u hu
    simp only
    split
    · exact List.mem_cons_of_mem _ hu
    · exact hu
  · intro hfound
    simp [hfound]

/-- What the steps other than a reply leave of the marks. -/
theorem step_forgets (hs : w.step a = some w') (ha : ∀ id records uid, a ≠ .reply id records uid) :
    Fades w.plane w'.plane := by
  cases a with
  | plane a =>
    simp only [World.step] at hs
    split at hs
    · rename_i hadmits
      obtain ⟨p, hp, rfl⟩ := Option.map_eq_some_iff.mp hs
      apply step_fades hp
      rintro id rfl
      cases hadmits
    · cases hs
  | attach id me agent endpoint hasSpec uid =>
    obtain ⟨p, hp, rfl⟩ := Option.map_eq_some_iff.mp hs
    exact step_fades hp (by simp)
  | reply id records uid => exact absurd rfl (ha id records uid)
  | create name uid =>
    simp only [World.step] at hs
    split at hs
    · cases hs
      exact .of_eq rfl
    · cases hs
  | delete name =>
    cases hs
    exact .of_eq rfl
  | list me =>
    simp only [World.step] at hs
    split at hs
    · cases hs
      exact .of_eq rfl
    · cases hs
  | clear me =>
    simp only [World.step] at hs
    split at hs
    · cases hs
      exact .filter rfl
    · cases hs
  | restart me =>
    cases hs
    exact step_fades (a := .restart me) rfl (by simp)

/-- What a step does to the CRs. -/
inductive CrStep (w w' : World) : Action → Prop
  | same {a : Action} (crs : w'.crs = w.crs) (used : w'.used = w.used) : CrStep w w' a
  | create (name uid : String) (absent : w.crs.lookup name = none) (fresh : uid ∉ w.used)
      (crs : w'.crs = w.crs.insert name uid) (used : w'.used = uid :: w.used) :
      CrStep w w' (.create name uid)
  | delete (name : String) (crs : w'.crs = w.crs.erase name) (used : w'.used = w.used) :
      CrStep w w' (.delete name)

theorem step_crs (hs : w.step a = some w') :
    CrStep w w' a ∧ ∀ u ∈ w.observed, u ∈ w'.observed := by
  cases a with
  | plane a =>
    simp only [World.step] at hs
    split at hs
    · obtain ⟨p, _, rfl⟩ := Option.map_eq_some_iff.mp hs
      exact ⟨.same rfl rfl, fun _ hu => hu⟩
    · cases hs
  | attach id me agent endpoint hasSpec uid =>
    obtain ⟨p, _, rfl⟩ := Option.map_eq_some_iff.mp hs
    exact ⟨.same rfl rfl, fun _ hu => hu⟩
  | reply id records uid =>
    obtain ⟨p, _, _, h⟩ := reply_spec hs
    exact ⟨.same h.crs h.used, h.observed⟩
  | create name uid =>
    simp only [World.step] at hs
    split at hs
    · rename_i hnew
      cases hs
      exact ⟨.create name uid hnew.1 hnew.2 rfl rfl, fun _ hu => hu⟩
    · cases hs
  | delete name =>
    cases hs
    exact ⟨.delete name rfl rfl, fun _ hu => hu⟩
  | list me =>
    simp only [World.step] at hs
    split at hs
    · cases hs
      exact ⟨.same rfl rfl, fun _ hu => hu⟩
    · cases hs
  | clear me =>
    simp only [World.step] at hs
    split at hs
    · cases hs
      exact ⟨.same rfl rfl, fun _ hu => hu⟩
    · cases hs
  | restart me =>
    cases hs
    exact ⟨.same rfl rfl, fun _ hu => hu⟩

/-- A mark is an old one, or that of a reply which tells of a terminal agent. -/
theorem step_marks (hs : w.step a = some w') {me : ReplicaId} {name : String}
    (hname : name ∈ w'.plane.terminal me) : name ∈ w.plane.terminal me ∨
      ∃ id records uid p, a = .reply id records uid ∧ w.plane.procs id = some p ∧
        p.phase = .listing ∧ ensurePodAgent records p.hasSpec = .terminal ∧
        me = p.replica ∧ name = p.agent ∧ w'.crs = w.crs ∧ uid ∈ w'.observed := by
  by_cases ha : ∃ id records uid, a = .reply id records uid
  · obtain ⟨id, records, uid, rfl⟩ := ha
    obtain ⟨p, hat, hphase, h⟩ := reply_spec hs
    rcases h.marked me name hname with hold | ⟨hme, hagent, hfound⟩
    · exact Or.inl hold
    · exact Or.inr ⟨id, records, uid, p, rfl, hat, hphase, hfound, hme, hagent, h.crs,
        h.noted hfound⟩
  · push Not at ha
    exact Or.inl (step_forgets hs ha me name hname)

/-- Only the deletion of its CR makes a mark lose what it is about. -/
theorem observed_step (hs : w.step a = some w') {name : String} (h : Observed w name) :
    Observed w' name ∨ a = .delete name := by
  obtain ⟨uid, hat, hu⟩ := h
  obtain ⟨hcrs, hobserved⟩ := step_crs hs
  cases hcrs with
  | same crs => exact Or.inl ⟨uid, crs ▸ hat, hobserved uid hu⟩
  | create other fresh absent _ crs =>
    have hne : name ≠ other := by
      rintro rfl
      rw [absent] at hat
      cases hat
    exact Or.inl ⟨uid, by rw [crs, AList.lookup_insert_ne hne, hat], hobserved uid hu⟩
  | delete other crs =>
    by_cases he : name = other
    · exact Or.inr (by rw [he])
    · exact Or.inl ⟨uid, by rw [crs, AList.lookup_erase_ne he, hat], hobserved uid hu⟩

end Step

section Loop

theorem mem_toClear {lastUids current : HashMap String String} {name uid : String}
    (hlast : lastUids.lookup name = some uid) (hnow : current.lookup name ≠ some uid) :
    name ∈ toClear lastUids current := by
  have hmem : name ∈ lastUids := AList.lookup_isSome.mp (by rw [hlast]; rfl)
  cases hcurrent : current.lookup name with
  | none =>
    refine List.mem_append_left _ (List.mem_filter.mpr ⟨hmem, ?_⟩)
    rw [hcurrent]
    rfl
  | some new =>
    have hne : new ≠ uid := by
      rintro rfl
      exact hnow hcurrent
    have hthere : name ∈ current := AList.lookup_isSome.mp (by rw [hcurrent]; rfl)
    refine List.mem_append_right _ (List.mem_filter.mpr ⟨hthere, ?_⟩)
    simp [hlast, hcurrent, hne.symm]

/-- A mark that is about no current CR is due to be cleared. The uids that a
loop has listed were given out before. -/
structure Inv (w : World) : Prop where
  listed : ∀ me name uid, (w.loops me).lastUids.lookup name = some uid → uid ∈ w.used
  created : ∀ name uid, w.crs.lookup name = some uid → uid ∈ w.used
  marks : ∀ me name, name ∈ w.plane.terminal me → Observed w name ∨ Due w me name

variable {w w' : World} {a : Action}

/-- What a step does to the watch loop of a replica. -/
inductive LoopStep (w w' : World) (me : ReplicaId) : Prop
  | same (loops : w'.loops me = w.loops me)
  | list (idle : (w.loops me).clearing = none) (crs : w'.crs = w.crs)
      (loops : w'.loops me = ⟨w.crs, some (toClear (w.loops me).lastUids w.crs)⟩)
  | clear (names : List String) (busy : (w.loops me).clearing = some names) (crs : w'.crs = w.crs)
      (loops : w'.loops me = ⟨(w.loops me).lastUids, none⟩)
      (forgotten : ∀ name ∈ names, name ∉ w'.plane.terminal me)
  | restart (loops : w'.loops me = ⟨∅, none⟩) (empty : w'.plane.terminal me = [])

theorem step_loop (hs : w.step a = some w') (me : ReplicaId) : LoopStep w w' me := by
  cases a with
  | plane a =>
    simp only [World.step] at hs
    split at hs
    · obtain ⟨p, _, rfl⟩ := Option.map_eq_some_iff.mp hs
      exact .same rfl
    · cases hs
  | attach id other agent endpoint hasSpec uid =>
    obtain ⟨p, _, rfl⟩ := Option.map_eq_some_iff.mp hs
    exact .same rfl
  | reply id records uid =>
    obtain ⟨p, _, _, h⟩ := reply_spec hs
    exact .same (by rw [h.loops])
  | create name uid =>
    simp only [World.step] at hs
    split at hs
    · cases hs
      exact .same rfl
    · cases hs
  | delete name =>
    cases hs
    exact .same rfl
  | list other =>
    simp only [World.step] at hs
    split at hs
    · rename_i hidle
      cases hs
      by_cases he : me = other
      · subst he
        exact .list hidle rfl (by simp [World.setLoop])
      · exact .same (by simp [World.setLoop, he])
    · cases hs
  | clear other =>
    simp only [World.step] at hs
    split at hs
    · rename_i names hbusy
      cases hs
      by_cases he : me = other
      · subst he
        refine .clear names hbusy rfl (by simp [World.setLoop, World.forget]) ?_
        intro name hname
        simp [World.setLoop, World.forget, hname]
      · exact .same (by simp [World.setLoop, World.forget, he])
    · cases hs
  | restart other =>
    cases hs
    by_cases he : me = other
    · subst he
      exact .restart (by simp [World.setLoop]) (by simp [World.setLoop, SessionPlane.World.restart])
    · exact .same (by simp [World.setLoop, he])

/-- A name stays due until its mark is gone. -/
theorem due_step (h : Inv w) (hs : w.step a = some w') {me : ReplicaId} {name : String}
    (hdue : Due w me name) : Due w' me name ∨ name ∉ w'.plane.terminal me := by
  cases step_loop hs me with
  | same loops =>
    rcases hdue with ⟨names, hbusy, hname⟩ | ⟨uid, hlast, hnow⟩
    · exact Or.inl (Or.inl ⟨names, by rw [loops, hbusy], hname⟩)
    · refine Or.inl (Or.inr ⟨uid, by rw [loops, hlast], ?_⟩)
      cases (step_crs hs).1 with
      | same crs => rwa [crs]
      | create other fresh _ unused crs =>
        rw [crs]
        by_cases he : name = other
        · subst he
          rw [AList.lookup_insert]
          rintro ⟨⟩
          exact unused (h.listed me name _ hlast)
        · rwa [AList.lookup_insert_ne he]
      | delete other crs =>
        rw [crs]
        by_cases he : name = other
        · subst he
          rw [AList.lookup_erase]
          simp
        · rwa [AList.lookup_erase_ne he]
  | list idle crs loops =>
    rcases hdue with ⟨names, hbusy, _⟩ | ⟨uid, hlast, hnow⟩
    · rw [idle] at hbusy
      cases hbusy
    · exact Or.inl (Or.inl ⟨_, by rw [loops], mem_toClear hlast hnow⟩)
  | clear names busy crs loops forgotten =>
    rcases hdue with ⟨names', hbusy, hname⟩ | ⟨uid, hlast, hnow⟩
    · obtain rfl : names = names' := Option.some.inj (busy.symm.trans hbusy)
      exact Or.inr (forgotten name hname)
    · exact Or.inl (Or.inr ⟨uid, by rw [loops, hlast], by rwa [crs]⟩)
  | restart loops empty => exact Or.inr (by simp [empty])

/-- A mark whose CR is deleted is due at the next pass. -/
theorem due_delete (h : Inv w) {name : String} (ok : Noticed w (.delete name))
    (hs : w.step (.delete name) = some w') {me : ReplicaId} (hold : name ∈ w.plane.terminal me)
    (hname : name ∈ w'.plane.terminal me) : Due w' me name := by
  rcases ok me hold with hlisted | hdue
  · obtain ⟨uid, hlast⟩ := Option.ne_none_iff_exists'.mp hlisted
    cases hs
    exact Or.inr ⟨uid, hlast, by simp⟩
  · rcases due_step h hs hdue with hstays | hgone
    · exact hstays
    · exact absurd hname hgone

theorem used_step (hs : w.step a = some w') : ∀ u ∈ w.used, u ∈ w'.used := by
  intro u hu
  cases (step_crs hs).1 with
  | same _ used => rwa [used]
  | create name uid _ _ _ used =>
    rw [used]
    exact List.mem_cons_of_mem _ hu
  | delete name _ used => rwa [used]

theorem Inv.created_step (h : Inv w) (hs : w.step a = some w') {name uid : String}
    (hat : w'.crs.lookup name = some uid) : uid ∈ w'.used := by
  cases (step_crs hs).1 with
  | same crs used =>
    rw [crs] at hat
    rw [used]
    exact h.created name uid hat
  | create other fresh _ _ crs used =>
    rw [crs] at hat
    rw [used]
    by_cases he : name = other
    · subst he
      rw [AList.lookup_insert] at hat
      cases hat
      exact List.mem_cons_self ..
    · rw [AList.lookup_insert_ne he] at hat
      exact List.mem_cons_of_mem _ (h.created name uid hat)
  | delete other crs used =>
    rw [crs] at hat
    rw [used]
    by_cases he : name = other
    · subst he
      rw [AList.lookup_erase] at hat
      cases hat
    · rw [AList.lookup_erase_ne he] at hat
      exact h.created name uid hat

theorem Inv.listed_step (h : Inv w) (hs : w.step a = some w') {me : ReplicaId}
    {name uid : String} (hlast : (w'.loops me).lastUids.lookup name = some uid) :
    uid ∈ w'.used := by
  apply used_step hs
  cases step_loop hs me with
  | same loops =>
    rw [loops] at hlast
    exact h.listed me name uid hlast
  | list _ _ loops =>
    rw [loops] at hlast
    exact h.created name uid hlast
  | clear _ _ _ loops _ =>
    rw [loops] at hlast
    exact h.listed me name uid hlast
  | restart loops _ =>
    rw [loops] at hlast
    cases hlast

theorem Inv.step (h : Inv w) (ok : Noticed w a) (hs : w.step a = some w') : Inv w' where
  listed _ _ _ hlast := h.listed_step hs hlast
  created _ _ hat := h.created_step hs hat
  marks := by
    intro me name hname
    have hkept : Due w me name → Due w' me name := fun hdue =>
      (due_step h hs hdue).resolve_right fun hgone => hgone hname
    rcases step_marks hs hname with hold | ⟨id, records, uid, p, rfl, hat, hphase, hfound, rfl, rfl,
      hcrs, hnoted⟩
    · rcases h.marks me name hold with hobserved | hdue
      · rcases observed_step hs hobserved with hstays | rfl
        · exact Or.inl hstays
        · exact Or.inr (due_delete h ok hs hold hname)
      · exact Or.inr (hkept hdue)
    · rcases ok p hat hphase hfound with hcurrent | hdue
      · exact Or.inl ⟨uid, by rw [hcrs, hcurrent], hnoted⟩
      · exact Or.inr (hkept hdue)

theorem Inv.start (plane : SessionPlane.World) (hplane : ∀ me, plane.terminal me = []) :
    Inv (World.start plane) where
  listed _ _ _ hlast := by cases hlast
  created _ _ hat := by cases hat
  marks me name hname := by
    simp [World.start, hplane me] at hname

theorem Inv.marksListed (h : Inv w) : MarksListed w := by
  intro me name hname _ hidle hlisted
  rcases h.marks me name hname with hobserved | ⟨names, hbusy, _⟩ | ⟨uid, hlast, hnow⟩
  · exact hobserved
  · rw [hidle] at hbusy
    cases hbusy
  · rw [← hlisted] at hnow
    exact absurd hlast hnow

theorem Inv.attaches (h : Inv w) : Attaches w := by
  intro id me name addr hasSpec uid w' hnone hidle hlisted hhealthy hs
  have hfree : name ∉ w.plane.terminal me := fun hname =>
    hhealthy (h.marksListed me name hname hnone hidle hlisted)
  obtain ⟨plane, hattach, rfl⟩ := Option.map_eq_some_iff.mp hs
  simp only [SessionPlane.World.step] at hattach
  split at hattach
  · rw [if_neg hfree] at hattach
    cases hattach
    exact ⟨⟨me, name, addr, hasSpec, 0, false, false, false, .dedup⟩,
      by simp [SessionPlane.World.setProc], rfl, rfl⟩
  · cases hattach

/-- Every mark is about the current CR of its name. -/
def Current (w : World) : Prop :=
  ∀ me name, name ∈ w.plane.terminal me → Observed w name

theorem Current.step (h : Current w) (ok : Prompt w a) (hs : w.step a = some w') :
    Current w' := by
  intro me name hname
  rcases step_marks hs hname with hold | ⟨id, records, uid, p, rfl, hat, hphase, hfound, rfl, rfl,
    hcrs, hnoted⟩
  · rcases observed_step hs (h me name hold) with hstays | rfl
    · exact hstays
    · exact absurd hold (ok me)
  · exact ⟨uid, by rw [hcrs, ok p hat hphase hfound], hnoted⟩

end Loop

/-- The marks keep to the current CRs: from the next pass of the watch loop on,
when no late reply marks a name that the loop has been through, and at all times
when no late reply marks a name and no marked CR is deleted. -/
theorem marks_current (now : Int) (table : Leases.Table) (ttl : ReplicaId → Int)
    (registry : String → String → List AgentRecord) (as : List Action) :
    let w := World.start (SessionPlane.World.start now table ttl registry)
    (Machine.Steps World.step Noticed w as →
      Machine.Always World.step (fun w => MarksListed w ∧ Attaches w) w as) ∧
    (Machine.Steps World.step Prompt w as → Machine.Always World.step MarksCurrent w as) := by
  intro w
  have hstart : ∀ me, (SessionPlane.World.start now table ttl registry).terminal me = [] :=
    fun _ => rfl
  constructor
  · intro h
    have hinv := Machine.always_of_steps (fun _ _ _ h ok hs => Inv.step h ok hs)
      (Inv.start _ hstart) h
    exact Machine.always_mono (fun _ h => ⟨h.marksListed, h.attaches⟩) hinv
  · intro h
    have hcurrent : Current w := by
      intro me name hname
      cases hname
    have hinv := Machine.always_of_steps (fun _ _ _ h ok hs => Current.step h ok hs) hcurrent h
    exact Machine.always_mono (fun _ h me name hname _ => h me name hname) hinv

/-- The CR `ct-1` is created and listed, and an attach task asks its pod for its agents. -/
def dialRun : List Action :=
  [.create "ct-1" "u1", .list "r1", .clear "r1",
    .attach 0 "r1" "ct-1" (.tcp "10.0.0.1:9000") true "u1", .plane (.dedup 0),
    .plane (.tryAcquire 0 true), .plane (.recordHeld 0), .plane (.reserve 0)]

/-- Its agent has failed; the CR is deleted, created anew, and listed. -/
def noticedRun : List Action :=
  dialRun ++ [.reply 0 [⟨"a1", .failed⟩] "u1", .delete "ct-1", .create "ct-1" "u2", .list "r1",
    .clear "r1"]

/-- Its agent has failed; the restart stops it first. -/
def promptRun : List Action :=
  dialRun ++ [.reply 0 [⟨"a1", .failed⟩] "u1", .plane (.stop 1 "r1" "ct-1"),
    .plane (.forgetTerminal 1), .delete "ct-1", .create "ct-1" "u2"]

def emptyStart : World :=
  World.start (SessionPlane.World.start 0 (fun _ => none) (fun _ => 30) fun _ _ => [])

theorem noticedRun_noticed : Machine.Steps World.step Noticed emptyStart noticedRun := by
  iterate 8 refine Machine.steps_cons trivial rfl ?_
  refine Machine.steps_cons ?_ rfl ?_
  · rintro p ⟨⟩ _ _
    exact Or.inl rfl
  refine Machine.steps_cons ?_ rfl ?_
  · intro me hname
    by_cases he : me = "r1"
    · subst he
      exact Or.inl (by decide)
    · have hmarked : "ct-1" ∈ Function.update (Function.update (fun _ => []) "r1" []) "r1" ["ct-1"]
        me := hname
      rw [Function.update_of_ne he, Function.update_of_ne he] at hmarked
      cases hmarked
  iterate 3 refine Machine.steps_cons trivial rfl ?_
  trivial

theorem promptRun_prompt : Machine.Steps World.step Prompt emptyStart promptRun := by
  iterate 8 refine Machine.steps_cons trivial rfl ?_
  refine Machine.steps_cons ?_ rfl ?_
  · rintro p ⟨⟩ _ _
    rfl
  iterate 2 refine Machine.steps_cons trivial rfl ?_
  refine Machine.steps_cons ?_ rfl ?_
  · intro me hname
    by_cases he : me = "r1"
    · subst he
      have hmarked : "ct-1" ∈ [] := hname
      cases hmarked
    · have hmarked : "ct-1" ∈ Function.update (Function.update
        (Function.update (fun _ => []) "r1" []) "r1" ["ct-1"]) "r1" [] me := hname
      rw [Function.update_of_ne he, Function.update_of_ne he, Function.update_of_ne he] at hmarked
      cases hmarked
  refine Machine.steps_cons trivial rfl ?_
  trivial

theorem marks_current_one :
    (∃ w, Machine.run World.step emptyStart noticedRun = some w ∧ MarksListed w ∧ Attaches w) ∧
      ∃ w, Machine.run World.step emptyStart promptRun = some w ∧ MarksCurrent w := by
  have hmarks := marks_current 0 (fun _ => none) (fun _ => 30) fun _ _ => []
  constructor
  · have hnoticed := (hmarks noticedRun).1 noticedRun_noticed
    exact ⟨_, rfl, Machine.always_end (P := fun w => MarksListed w ∧ Attaches w) hnoticed rfl⟩
  · exact ⟨_, rfl, Machine.always_end ((hmarks promptRun).2 promptRun_prompt) rfl⟩

/-- A reply that the pod of the first CR has sent comes when the second is listed. -/
def lateRun : List Action :=
  dialRun ++ [.delete "ct-1", .create "ct-1" "u2", .list "r1", .clear "r1",
    .reply 0 [⟨"a1", .failed⟩] "u1"]

theorem mark_outlives : ¬∀ (now : Int) (table : Leases.Table) (ttl : ReplicaId → Int)
    (registry : String → String → List AgentRecord) (as : List Action),
    let w := World.start (SessionPlane.World.start now table ttl registry)
    Machine.Always World.step MarksCurrent w as := by
  intro h
  have hend := Machine.always_end (h 0 (fun _ => none) (fun _ => 30) (fun _ _ => []) lateRun) rfl
  have hmarked : "ct-1" ∈ ["ct-1"] := List.mem_singleton_self _
  refine absurd (hend "r1" "ct-1" hmarked ?_) ?_
  · intro id p hp _ _ hresolving
    exfalso
    rcases id with _ | n
    · have hdone : some Phase.detached = some p.phase := congrArg (Option.map Proc.phase) hp
      rw [← Option.some.inj hdone] at hresolving
      exact hresolving
    · have hnone : none = some p := hp
      cases hnone
  · rintro ⟨uid, hat, hobserved⟩
    have hcurrent : some "u2" = some uid := hat
    have hseen : uid ∈ ["u1"] := hobserved
    cases hcurrent
    exact absurd hseen (by decide)

end Prospero.Proofs.Marks
