import Prospero.Lib.Slots
import Prospero.Proofs.Emitter
import Prospero.Retention

namespace Prospero.Proofs.Retention
open Prospero.Retention

variable {π : Type}

/-- A stored event is missing from the log. -/
def Pruned (w : World π) (e : FleetEvent) : Prop :=
  e ∈ w.stored ∧ e.key ∉ w.emitter.events.map FleetEvent.key

/-- The statement reaches the database, whatever its caller hears of it. -/
def applies : Emitter.Reply → Bool
  | .ran => true
  | .failed _ applied => applied

/-- An `INSERT` that the database executes is not under the seq of a pruned row. -/
def Unissued (w : World π) : Action π → Prop
  | .emitter (.append id reply) => ∀ x, w.emitter.writes id = some x → x.phase = .append →
      applies reply = true → ∀ e, Pruned w e → e.key ≠ x.event.key
  | _ => True

/-- Every seq that is yet to be allocated or written to the stream, going by
what the processes remember of it, is above the given one. -/
structure Behind (w : Emitter.World π) (key : StreamKey) (seq : Nat) : Prop where
  counters : ∀ process n, w.seqs process key = some n → seq ≤ n
  seeded : ∀ id x n, w.writes id = some x → x.streamKey = key → x.phase = .seeded n → seq ≤ n
  appends : ∀ id x, w.writes id = some x → x.streamKey = key → x.phase = .append →
    seq < x.event.seq

/-- Retention deletes only rows that every process is past, and a high water is
only read while it is at or above every pruned seq of the stream. -/
def Retains (w : World π) : Action π → Prop
  | .prune beforeTs => ∀ e ∈ w.emitter.events, Store.survives beforeTs e = false →
      Behind w.emitter e.streamKey e.seq
  | .emitter (.highWater id ok) => ∀ x, w.emitter.writes id = some x → ∀ e, Pruned w e →
      e.streamKey = x.streamKey →
      e.seq ≤ if ok then Store.highWater w.emitter.events x.streamKey else 0
  | _ => True

section Log

variable {w w' : Emitter.World π}

theorem append_log (w : Emitter.World π) (id : Emitter.WriteId) (x : Emitter.Write π)
    (reply : Emitter.Reply) : (w.append id x reply).log =
      if applies reply = true ∧ x.event.key ∉ w.events.map FleetEvent.key then
        w.log ++ [⟨x.event, some id⟩]
      else w.log := by
  have hstore : ∀ log, Store.append x.event w.events = .ok log →
      x.event.key ∉ w.events.map FleetEvent.key := fun log h => (Store.append_eq_ok.mp h).1
  have hstore' : ∀ err, Store.append x.event w.events = .error err →
      x.event.key ∈ w.events.map FleetEvent.key := by
    intro err h
    by_contra hfresh
    rw [Store.append_eq_ok.mpr ⟨hfresh, rfl⟩] at h
    cases h
  cases hs : Store.append x.event w.events with
  | ok log =>
    have hfresh := hstore log hs
    cases reply with
    | ran => simp [Emitter.World.append, hs, applies, hfresh, Emitter.World.setWrite,
        Emitter.World.insert]
    | failed message applied =>
      cases applied <;> simp [Emitter.World.append, hs, applies, hfresh,
        Emitter.World.setWrite, Emitter.World.insert]
  | error err =>
    have htaken := hstore' err hs
    cases reply with
    | ran => simp [Emitter.World.append, hs, htaken, Emitter.World.setWrite]
    | failed message applied => simp [Emitter.World.append, hs, htaken, Emitter.World.setWrite]

theorem log_same {a : Emitter.Action π} (h : Emitter.Effect w w' a)
    (ha : ∀ id reply, a ≠ .append id reply) : w'.log = w.log := by
  cases h with
  | begin task process draft idle writes log => exact log
  | advance id x seq phase slot pending pending' numbered writes log => exact log
  | append id reply => exact absurd rfl (ha id reply)
  | publish id markerTs x err slot phase eq => rw [eq, Emitter.publish_log]

variable [DecidableEq π]

/-- The log stays as it is, or one `INSERT` under a free key is executed. -/
theorem log_step {a : Emitter.Action π} (h : w.step a = some w') :
    (w'.log = w.log ∧ ∀ id reply, a = .append id reply → ∀ x, w.writes id = some x →
      applies reply = true → x.event.key ∈ w.events.map FleetEvent.key) ∨
    ∃ id reply x, a = .append id reply ∧ w.writes id = some x ∧ x.phase = .append ∧
      applies reply = true ∧ x.event.key ∉ w.events.map FleetEvent.key ∧
      w'.log = w.log ++ [⟨x.event, some id⟩] := by
  cases Emitter.step_performs h with
  | append id reply x hx hphase =>
    by_cases hrun : applies reply = true ∧ x.event.key ∉ w.events.map FleetEvent.key
    · exact Or.inr ⟨id, reply, x, rfl, hx, hphase, hrun.1, hrun.2, by rw [append_log, if_pos hrun]⟩
    · refine Or.inl ⟨by rw [append_log, if_neg hrun], ?_⟩
      intro id' reply' ha y hy happ
      cases ha
      cases hx.symm.trans hy
      by_contra hfresh
      exact hrun ⟨happ, hfresh⟩
  | _ => exact Or.inl ⟨log_same (Emitter.step_effect h) (by simp), by simp⟩

end Log

section Counters

variable {w w' : Emitter.World π}

theorem appended_phase (x : Emitter.Write π) (result : Except CoreError Unit) :
    (∀ n, (x.appended result).phase ≠ .seeded n) ∧ (x.appended result).phase ≠ .append := by
  rcases result with e | ⟨⟩
  · cases e <;> simp only [Emitter.Write.appended]
    · simp
    · split <;> simp
  · simp [Emitter.Write.appended]

theorem append_writes (w : Emitter.World π) (id : Emitter.WriteId) (x : Emitter.Write π)
    (reply : Emitter.Reply) : (w.append id x reply).seqs = w.seqs ∧
      ∃ result, (w.append id x reply).writes =
        Function.update w.writes id (some (x.appended result)) := by
  cases reply with
  | ran =>
    simp only [Emitter.World.append]
    split <;> exact ⟨rfl, _, rfl⟩
  | failed message applied =>
    simp only [Emitter.World.append]
    split <;> exact ⟨rfl, _, rfl⟩

theorem publish_writes (w : Emitter.World π) (id : Emitter.WriteId) (x : Emitter.Write π)
    (err : Option CoreError) (markerTs : String) :
    (w.publish id x err markerTs).seqs = w.seqs ∧
    ∀ other y, (w.publish id x err markerTs).writes other = some y →
      y.phase = .done ∨ y.phase = .nextSeq ∨ w.writes other = some y := by
  have hdone : ∀ other y, (w.setWrite id { x with phase := .done }).writes other = some y →
      y.phase = .done ∨ w.writes other = some y := by
    intro other y hy
    rcases Slots.update_some hy with ⟨rfl, rfl⟩ | ⟨_, hy⟩
    · exact Or.inl rfl
    · exact Or.inr hy
  unfold Emitter.World.publish
  split
  · rename_i task e
    refine ⟨rfl, ?_⟩
    intro other y hy
    by_cases ho : other = .marker task
    · subst ho
      simp only [Emitter.World.setWrite, Function.update_self, Option.some.injEq] at hy
      subst hy
      exact Or.inr (Or.inl rfl)
    · have hy' : (w.setWrite (.event task) { x with phase := .done }).writes other = some y := by
        simpa [Emitter.World.setWrite, ho] using hy
      rcases hdone other y hy' with hd | hold
      · exact Or.inl hd
      · exact Or.inr (Or.inr hold)
  · refine ⟨rfl, ?_⟩
    intro other y hy
    rcases hdone other y hy with hd | hold
    · exact Or.inl hd
    · exact Or.inr (Or.inr hold)

variable [DecidableEq π]

/-- What a step of an emitter does to the numbers it remembers. -/
inductive CountStep (w w' : Emitter.World π) : Emitter.Action π → Prop
  | allocate {a : Emitter.Action π} (id : Emitter.WriteId) (x : Emitter.Write π) (n : Nat)
      (slot : w.writes id = some x)
      (known : w.seqs x.process x.streamKey = some n ∨ x.phase = .seeded n)
      (eq : w' = w.allocate id x (n + 1)) : CountStep w w' a
  | read (id : Emitter.WriteId) (ok : Bool) (x : Emitter.Write π) (slot : w.writes id = some x)
      (eq : w' = w.highWater id x ok) : CountStep w w' (.highWater id ok)
  | idle {a : Emitter.Action π}
      (seqs : ∀ process key n, w'.seqs process key = some n → w.seqs process key = some n)
      (writes : ∀ id x, w'.writes id = some x → (∃ n, x.phase = .seeded n) ∨ x.phase = .append →
        w.writes id = some x) : CountStep w w' a

/-- A write that goes on to a phase without a number of its own. -/
theorem CountStep.pass {a : Emitter.Action π} (id : Emitter.WriteId) (x : Emitter.Write π)
    (hseqs : ∀ process key n, w'.seqs process key = some n → w.seqs process key = some n)
    (hwrites : w'.writes = Function.update w.writes id (some x))
    (hphase : ∀ n, x.phase ≠ .seeded n) (hphase' : x.phase ≠ .append) : CountStep w w' a := by
  refine .idle hseqs ?_
  intro other y hy hp
  rw [hwrites] at hy
  rcases Slots.update_some hy with ⟨rfl, rfl⟩ | ⟨_, hy⟩
  · rcases hp with ⟨n, hn⟩ | hn
    · exact absurd hn (hphase n)
    · exact absurd hn hphase'
  · exact hy

theorem count_step {a : Emitter.Action π} (h : w.step a = some w') : CountStep w w' a := by
  cases Emitter.step_performs h with
  | emit task process draft idle =>
    exact .pass _ _ (fun _ _ _ h => h) rfl (by simp [Emitter.Write.begin])
      (by simp [Emitter.Write.begin])
  | next id x n slot phase known => exact .allocate id x n slot (Or.inl known) rfl
  | unseeded id x slot phase => exact .pass id _ (fun _ _ _ h => h) rfl (by simp) (by simp)
  | highWater id ok x slot phase => exact .read id ok x slot rfl
  | seed id x seeded slot phase =>
    refine .allocate id x _ slot ?_ rfl
    cases hknown : w.seqs x.process x.streamKey with
    | none => exact Or.inr phase
    | some n => exact Or.inl rfl
  | append id reply x slot phase =>
    obtain ⟨hseqs, result, hwrites⟩ := append_writes w id x reply
    obtain ⟨hseeded, happend⟩ := appended_phase x result
    refine .pass id _ ?_ hwrites hseeded happend
    intro process key n hn
    rwa [hseqs] at hn
  | reseed id x slot phase =>
    refine .pass id _ ?_ rfl (by simp) (by simp)
    intro process key n hn
    simp only [Emitter.World.reseed, Emitter.World.setWrite, Emitter.World.setSeq] at hn
    by_cases hp : process = x.process
    · subst hp
      rw [Function.update_self] at hn
      exact (Slots.update_none hn).2
    · rwa [Function.update_of_ne hp] at hn
  | publish id markerTs x err slot phase =>
    obtain ⟨hseqs, hwrites⟩ := publish_writes w id x err markerTs
    refine .idle (fun process key n hn => by rwa [hseqs] at hn) ?_
    intro other y hy hp
    rcases hwrites other y hy with hphase | hphase | hold
    · simp [hphase] at hp
    · simp [hphase] at hp
    · exact hold

theorem Behind.count_step {a : Emitter.Action π} {key : StreamKey} {seq : Nat}
    (h : Behind w key seq) (hs : CountStep w w' a)
    (hread : ∀ id ok x, a = .highWater id ok → w.writes id = some x → x.streamKey = key →
      seq ≤ if ok then Store.highWater w.events x.streamKey else 0) : Behind w' key seq := by
  cases hs with
  | allocate id x n slot known eq =>
    subst eq
    have hbound : x.streamKey = key → seq ≤ n := by
      intro hk
      rcases known with hn | hphase
      · exact h.counters _ n (hk ▸ hn)
      · exact h.seeded id x n slot hk hphase
    constructor
    · intro process m hm
      simp only [Emitter.World.allocate, Emitter.World.setWrite, Emitter.World.setSeq] at hm
      by_cases hp : process = x.process
      · subst hp
        rw [Function.update_self] at hm
        rcases Slots.update_some hm with ⟨rfl, rfl⟩ | ⟨_, hm⟩
        · exact Nat.le_succ_of_le (hbound rfl)
        · exact h.counters _ m hm
      · rw [Function.update_of_ne hp] at hm
        exact h.counters process m hm
    · intro other y m hy hk hphase
      rcases Slots.update_some hy with ⟨rfl, rfl⟩ | ⟨_, hy⟩
      · cases hphase
      · exact h.seeded other y m hy hk hphase
    · intro other y hy hk hphase
      rcases Slots.update_some hy with ⟨rfl, rfl⟩ | ⟨_, hy⟩
      · exact Nat.lt_succ_of_le (hbound hk)
      · exact h.appends other y hy hk hphase
  | read id ok x slot eq =>
    subst eq
    refine ⟨h.counters, ?_, ?_⟩
    · intro other y m hy hk hphase
      rcases Slots.update_some hy with ⟨rfl, rfl⟩ | ⟨_, hy⟩
      · cases hphase
        exact hread other ok x rfl slot hk
      · exact h.seeded other y m hy hk hphase
    · intro other y hy hk hphase
      rcases Slots.update_some hy with ⟨rfl, rfl⟩ | ⟨_, hy⟩
      · cases hphase
      · exact h.appends other y hy hk hphase
  | idle seqs writes =>
    refine ⟨fun process n hn => h.counters process n (seqs process key n hn), ?_, ?_⟩
    · intro id x n hx hk hphase
      exact h.seeded id x n (writes id x hx (Or.inl ⟨n, hphase⟩)) hk hphase
    · intro id x hx hk hphase
      exact h.appends id x (writes id x hx (Or.inr hphase)) hk hphase

end Counters

/-- What was pruned is behind everything that is yet to be numbered. -/
structure Inv (w : World π) : Prop where
  stored : (w.stored.map FleetEvent.key).Nodup
  log : ∀ e ∈ w.emitter.events, e ∈ w.stored

def Kept (w : World π) : Prop := ∀ e, Pruned w e → Behind w.emitter e.streamKey e.seq

theorem Inv.start {log : List FleetEvent} (h : (log.map FleetEvent.key).Nodup) :
    Inv (World.start log : World π) :=
  ⟨h, by simp [World.start, Emitter.World.start, Emitter.World.events, Function.comp_def]⟩

theorem Kept.start (log : List FleetEvent) : Kept (World.start log : World π) := by
  intro e he
  apply absurd _ he.2
  have hlog : (World.start log : World π).emitter.events = log := by
    simp [World.start, Emitter.World.start, Emitter.World.events, Function.comp_def]
  rw [hlog]
  exact List.mem_map_of_mem he.1

/-- What is behind every number still to come is not written again. -/
theorem Kept.unissued {w : World π} {a : Action π} (h : Kept w) : Unissued w a := by
  cases a with
  | emitter b =>
    cases b with
    | append id reply =>
      intro x hx hphase _ e he hkey
      rw [FleetEvent.key, FleetEvent.key, Prod.mk.injEq] at hkey
      have habove := (h e he).appends id x hx hkey.1.symm hphase
      rw [hkey.2] at habove
      exact absurd habove (Nat.lt_irrefl _)
    | _ => trivial
  | _ => trivial

section Step

variable [DecidableEq π] {w w' : World π} {a : Action π}

/-- What an action does to the log and to the record of it. -/
inductive StoreStep (w w' : World π) : Action π → Prop
  | same {a : Action π} (stored : w'.stored = w.stored)
      (events : w'.emitter.events = w.emitter.events)
      (unissued : Unissued w a) : StoreStep w w' a
  | insert (id : Emitter.WriteId) (reply : Emitter.Reply) (x : Emitter.Write π)
      (slot : w.emitter.writes id = some x) (phase : x.phase = .append)
      (applied : applies reply = true)
      (fresh : x.event.key ∉ w.emitter.events.map FleetEvent.key)
      (stored : w'.stored = w.stored ++ [x.event])
      (events : w'.emitter.events = w.emitter.events ++ [x.event]) :
      StoreStep w w' (.emitter (.append id reply))
  | prune (beforeTs : String) (stored : w'.stored = w.stored)
      (events : w'.emitter.events = w.emitter.events.filter (Store.survives beforeTs)) :
      StoreStep w w' (.prune beforeTs)

theorem store_step (h : w.step a = some w') : StoreStep w w' a := by
  cases a with
  | emitter a =>
    obtain ⟨e, he, rfl⟩ := Option.map_eq_some_iff.mp h
    rcases log_step he with ⟨hlog, htaken⟩ | ⟨id, reply, x, rfl, slot, phase, happ, hfresh, hlog⟩
    · refine .same (by simp [hlog]) (by simp [Emitter.World.events, hlog]) ?_
      cases a with
      | append id reply =>
        intro x hx hphase happ e hpruned he
        exact hpruned.2 (he ▸ htaken id reply rfl x hx happ)
      | _ => trivial
    · exact .insert id reply x slot phase happ hfresh (by simp [hlog])
        (by simp [Emitter.World.events, hlog])
  | prune beforeTs =>
    cases h
    refine .prune beforeTs rfl ?_
    simp only [World.prune, Emitter.World.events, List.filter_map]
    rfl
  | restart process =>
    cases h
    exact .same rfl rfl trivial

theorem Inv.step (h : Inv w) (hok : Unissued w a) (hs : w.step a = some w') : Inv w' := by
  cases store_step hs with
  | same stored events => exact ⟨stored ▸ h.stored, by rw [stored, events]; exact h.log⟩
  | prune beforeTs stored events =>
    refine ⟨stored ▸ h.stored, ?_⟩
    intro e he
    rw [events] at he
    rw [stored]
    exact h.log e (List.mem_filter.mp he).1
  | insert id reply x slot phase applied fresh stored events =>
    constructor
    · rw [stored, List.map_append]
      apply List.Nodup.append h.stored (List.nodup_singleton _)
      rw [List.disjoint_singleton]
      intro hmem
      obtain ⟨e, he, hkey⟩ := List.mem_map.mp hmem
      exact hok x slot phase applied e ⟨he, hkey ▸ fresh⟩ hkey
    · intro e he
      rw [events] at he
      rw [stored]
      rcases List.mem_append.mp he with he | he
      · exact List.mem_append_left _ (h.log e he)
      · exact List.mem_append_right _ he

theorem Pruned.of_emitter {b : Emitter.Action π} {e : FleetEvent} (h : Pruned w' e)
    (hs : w.step (.emitter b) = some w') : Pruned w e := by
  cases store_step hs with
  | same stored events => exact ⟨stored ▸ h.1, events ▸ h.2⟩
  | insert id reply x slot phase applied fresh stored events =>
    have hnot := h.2
    rw [events, List.map_append, List.mem_append, not_or] at hnot
    rcases List.mem_append.mp (stored ▸ h.1) with he | he
    · exact ⟨he, hnot.1⟩
    · exact absurd (List.mem_map_of_mem he) hnot.2

theorem Kept.step (h : Kept w) (hok : Retains w a) (hs : w.step a = some w') : Kept w' := by
  intro e he
  cases a with
  | emitter b =>
    have hold := he.of_emitter hs
    obtain ⟨m, hm, rfl⟩ := Option.map_eq_some_iff.mp hs
    apply (h e hold).count_step (count_step hm)
    intro id ok x hb hx hkey
    subst hb
    exact hok x hx e hold hkey.symm
  | prune beforeTs =>
    cases hs
    have hbehind : Behind w.emitter e.streamKey e.seq := by
      by_cases hlog : e.key ∈ w.emitter.events.map FleetEvent.key
      · obtain ⟨e', he', hkey⟩ := List.mem_map.mp hlog
        have hgone : Store.survives beforeTs e' = false := by
          rw [Bool.eq_false_iff]
          intro hs
          apply he.2
          rw [← hkey]
          apply List.mem_map_of_mem
          simp only [World.prune, Emitter.World.events, List.mem_map, List.mem_filter] at he' ⊢
          obtain ⟨r, hr, rfl⟩ := he'
          exact ⟨r, ⟨hr, hs⟩, rfl⟩
        have hsame := hok e' he' hgone
        rw [FleetEvent.key, FleetEvent.key, Prod.mk.injEq] at hkey
        rwa [hkey.1, hkey.2] at hsame
      · exact h e ⟨he.1, hlog⟩
    exact ⟨hbehind.counters, hbehind.seeded, hbehind.appends⟩
  | restart process =>
    cases hs
    have hbehind := h e he
    constructor
    · intro p n hn
      simp only [World.restart] at hn
      by_cases hp : p = process
      · subst hp
        rw [Function.update_self] at hn
        cases hn
      · rw [Function.update_of_ne hp] at hn
        exact hbehind.counters p n hn
    · intro id x n hx hkey hphase
      obtain ⟨y, hy, hxy⟩ := Option.map_eq_some_iff.mp hx
      split at hxy
      · subst hxy
        cases hphase
      · subst hxy
        exact hbehind.seeded id y n hy hkey hphase
    · intro id x hx hkey hphase
      obtain ⟨y, hy, hxy⟩ := Option.map_eq_some_iff.mp hx
      split at hxy
      · subst hxy
        cases hphase
      · subst hxy
        exact hbehind.appends id y hy hkey hphase

end Step

end Prospero.Proofs.Retention
