import Prospero.Lib.Slots
import Prospero.Proofs.Emitter

namespace Prospero.Proofs.Seeding
open Prospero.Emitter Proofs.Emitter

section HighWater

variable {log : List FleetEvent} {key : StreamKey} {e : FleetEvent}

theorem le_foldl_max {seqs : List Nat} {n m : Nat} (h : n ≤ m ∨ n ∈ seqs) :
    n ≤ seqs.foldl max m := by
  induction seqs generalizing m with
  | nil => simpa using h
  | cons seq seqs ih =>
    apply ih
    rcases h with h | h
    · exact Or.inl (h.trans (Nat.le_max_left ..))
    · rcases List.mem_cons.mp h with rfl | h
      · exact Or.inl (Nat.le_max_right ..)
      · exact Or.inr h

theorem le_highWater (he : e ∈ log) (hkey : e.streamKey = key) :
    e.seq ≤ Store.highWater log key :=
  le_foldl_max (Or.inr (List.mem_map_of_mem (List.mem_filter.mpr ⟨he, by simpa using hkey⟩)))

theorem highWater_other (hkey : e.streamKey ≠ key) :
    Store.highWater (log ++ [e]) key = Store.highWater log key := by
  simp [Store.highWater, hkey]

end HighWater

variable {π : Type}

/-- The process is the only one here that writes to the stream, and its reads of the high
water succeed. -/
def Sole (me : π) (key : StreamKey) (w : World π) : Action π → Prop
  | .emit _ process draft => draft.streamKey = key → process = me
  | .highWater id ok => ∀ x, w.writes id = some x → x.streamKey = key → ok = true
  | _ => True

/-- No append to the stream is told of a conflict. -/
def Accepted (key : StreamKey) (w : World π) : Action π → Prop
  | .append id .ran => ∀ x, w.writes id = some x → x.phase = .append → x.streamKey = key →
    Store.append x.event w.events ≠ .error .seqConflict
  | _ => True

/-- The seq an action that led here has handed out on the stream. -/
def handsOut (key : StreamKey) (w' : World π) : Action π → Option Nat
  | .nextSeq id | .seed id => (w'.writes id).bind fun x =>
    if x.phase = .append ∧ x.streamKey = key then some x.event.seq else none
  | _ => none

/-- All that `next_seq` returns on the stream, in order. -/
def handedOut [DecidableEq π] (key : StreamKey) : World π → List (Action π) → List Nat
  | _, [] => []
  | w, a :: as =>
    match w.step a with
    | none => []
    | some w' => (handsOut key w' a).toList ++ handedOut key w' as

/-- The stream once `n` seqs from `h` on are handed out. -/
structure Seeded (me : π) (key : StreamKey) (h n : Nat) (w : World π) : Prop where
  counter : w.seqs me key = if n = 0 then none else some (h + n)
  owner : ∀ id x, w.writes id = some x → x.streamKey = key → x.process = me
  calm : ∀ id x, w.writes id = some x → x.streamKey = key → x.phase ≠ .reseed
  durable : n = 0 → Store.highWater w.events key = h
  read : n = 0 → ∀ id x s, w.writes id = some x → x.streamKey = key → x.phase = .seeded s → s = h
  rows : ∀ e ∈ w.events, e.streamKey = key → e.seq ≤ h + n
  flight : ∀ id x, w.writes id = some x → x.streamKey = key → x.phase = .append →
    h < x.event.seq ∧ x.event.seq ≤ h + n ∧
      ∀ e ∈ w.events, e.streamKey = key → e.seq ≠ x.event.seq
  distinct : ∀ id x other y, w.writes id = some x → x.streamKey = key → x.phase = .append →
    w.writes other = some y → y.streamKey = key → y.phase = .append →
    x.event.seq = y.event.seq → id = other

theorem Seeded.start (me : π) (key : StreamKey) (log : List FleetEvent) :
    Seeded me key (Store.highWater log key) 0 (World.start log) where
  counter := rfl
  owner := by simp [World.start]
  calm := by simp [World.start]
  durable := by simp [World.start, World.events, Function.comp_def]
  read := by simp [World.start]
  rows := by
    intro e he hkey
    have hmem : e ∈ log := by simpa [World.start, World.events, Function.comp_def] using he
    exact le_highWater hmem hkey
  flight := by simp [World.start]
  distinct := by simp [World.start]

variable {me : π} {key : StreamKey} {h n : Nat} {w w' : World π} {id : WriteId} {x x' : Write π}

/-- A write of the stream that is not about to append. -/
structure Quiet (me : π) (key : StreamKey) (h n : Nat) (x : Write π) : Prop where
  owner : x.process = me
  calm : x.phase ≠ .reseed
  idle : x.phase ≠ .append
  read : n = 0 → ∀ s, x.phase = .seeded s → s = h

/-- A write that is done, or that has still to ask for its seq. -/
theorem Quiet.of_phase (howner : x.process = me)
    (hphase : x.phase = .nextSeq ∨ x.phase = .highWater ∨ x.phase = .done) :
    Quiet me key h n x := by
  rcases hphase with hphase | hphase | hphase
  all_goals exact ⟨howner, by simp [hphase], by simp [hphase], by simp [hphase]⟩

theorem Seeded.set (hs : Seeded me key h n w)
    (hwrites : w'.writes = Function.update w.writes id (some x')) (hlog : w'.log = w.log)
    (hseqs : w'.seqs me key = w.seqs me key)
    (hquiet : x'.streamKey = key → Quiet me key h n x') : Seeded me key h n w' := by
  have hevents : w'.events = w.events := congrArg (List.map Row.event) hlog
  have hslot : ∀ other y, w'.writes other = some y →
      other = id ∧ y = x' ∨ w.writes other = some y := by
    intro other y hy
    rw [hwrites] at hy
    exact (Slots.update_some hy).imp_right And.right
  have hflight : ∀ other y, w'.writes other = some y → y.streamKey = key → y.phase = .append →
      w.writes other = some y := by
    intro other y hy hkey hphase
    rcases hslot other y hy with ⟨-, rfl⟩ | hy
    · exact absurd hphase (hquiet hkey).idle
    · exact hy
  refine ⟨hseqs.trans hs.counter, ?_, ?_, ?_, ?_, ?_, ?_, ?_⟩
  · intro other y hy hkey
    rcases hslot other y hy with ⟨-, rfl⟩ | hy
    · exact (hquiet hkey).owner
    · exact hs.owner other y hy hkey
  · intro other y hy hkey
    rcases hslot other y hy with ⟨-, rfl⟩ | hy
    · exact (hquiet hkey).calm
    · exact hs.calm other y hy hkey
  · rw [hevents]
    exact hs.durable
  · intro hn other y s hy hkey hphase
    rcases hslot other y hy with ⟨-, rfl⟩ | hy
    · exact (hquiet hkey).read hn s hphase
    · exact hs.read hn other y s hy hkey hphase
  · rw [hevents]
    exact hs.rows
  · intro other y hy hkey hphase
    rw [hevents]
    exact hs.flight other y (hflight other y hy hkey hphase) hkey hphase
  · intro other y third z hy hkey hphase hz hkey' hphase'
    exact hs.distinct other y third z (hflight other y hy hkey hphase) hkey hphase
      (hflight third z hz hkey' hphase') hkey' hphase'

section Allocate

variable [DecidableEq π]

theorem setSeq_other {process : π} {other : StreamKey} (v : Option Nat) (hkey : other ≠ key) :
    (w.setSeq process other v).seqs me key = w.seqs me key := by
  simp only [World.setSeq, Function.update_apply]
  split
  · rename_i hprocess
    rw [Function.update_of_ne (Ne.symm hkey), hprocess]
  · rfl

theorem Seeded.allocate (hs : Seeded me key h n w) (hx : w.writes id = some x)
    (hkey : x.streamKey = key) : Seeded me key h (n + 1) (w.allocate id x (h + n + 1)) := by
  have howner := hs.owner id x hx hkey
  have hslot : ∀ other y, (w.allocate id x (h + n + 1)).writes other = some y →
      other = id ∧ y.event.seq = h + n + 1 ∧ y.phase = .append ∧ y.process = me ∨
        other ≠ id ∧ w.writes other = some y := by
    intro other y hy
    rcases Slots.update_some hy with ⟨ho, rfl⟩ | ⟨ho, hy⟩
    · exact Or.inl ⟨ho, rfl, rfl, howner⟩
    · exact Or.inr ⟨ho, hy⟩
  refine ⟨?_, ?_, ?_, fun hn => absurd hn n.succ_ne_zero, fun hn => absurd hn n.succ_ne_zero,
    ?_, ?_, ?_⟩
  · simp [World.allocate, World.setWrite, World.setSeq, howner, hkey, Nat.add_assoc]
  · intro other y hy hykey
    rcases hslot other y hy with ⟨-, -, -, hme⟩ | ⟨-, hy⟩
    · exact hme
    · exact hs.owner other y hy hykey
  · intro other y hy hykey
    rcases hslot other y hy with ⟨-, -, hphase, -⟩ | ⟨-, hy⟩
    · intro hreseed
      cases hphase.symm.trans hreseed
    · exact hs.calm other y hy hykey
  · intro e he hekey
    exact (hs.rows e he hekey).trans (Nat.le_succ _)
  · intro other y hy hykey hphase
    rcases hslot other y hy with ⟨-, hseq, -, -⟩ | ⟨-, hy⟩
    · rw [hseq]
      refine ⟨by omega, by omega, ?_⟩
      intro e he hekey
      have hle := hs.rows e he hekey
      omega
    · obtain ⟨hlow, hhigh, hfresh⟩ := hs.flight other y hy hykey hphase
      exact ⟨hlow, by omega, hfresh⟩
  · intro other y third z hy hykey hyphase hz hzkey hzphase heq
    -- what is in flight already has been handed out before
    rcases hslot other y hy with ⟨ho, hseq, -, -⟩ | ⟨ho, hy⟩
    · rcases hslot third z hz with ⟨ht, -⟩ | ⟨ht, hz⟩
      · rw [ho, ht]
      · have hbound := (hs.flight third z hz hzkey hzphase).2.1
        omega
    · rcases hslot third z hz with ⟨ht, hseq, -, -⟩ | ⟨ht, hz⟩
      · have hbound := (hs.flight other y hy hykey hyphase).2.1
        omega
      · exact hs.distinct other y third z hy hykey hyphase hz hzkey hzphase heq

/-- An allocation for another stream. -/
theorem Seeded.allocate_other (hs : Seeded me key h n w) (hkey : x.streamKey ≠ key) (next : Nat) :
    Seeded me key h n (w.allocate id x next) :=
  hs.set rfl rfl (setSeq_other _ hkey) fun hsame => absurd hsame hkey

theorem handsOut_allocate {a : Action π} (ha : a = .nextSeq id ∨ a = .seed id) (next : Nat) :
    handsOut key (w.allocate id x next) a = if x.streamKey = key then some next else none := by
  have hslot : (w.allocate id x next).writes id =
      some { x with event := { x.event with seq := next }, phase := .append } :=
    Function.update_self ..
  rcases ha with rfl | rfl
  all_goals
    simp only [handsOut, hslot, Option.bind_some, true_and]
    rfl

end Allocate

section Append

theorem appended_process (x : Write π) (result : Except CoreError Unit) :
    (x.appended result).process = x.process := by
  unfold Write.appended
  repeat' first | rfl | split

theorem appended_event (x : Write π) (result : Except CoreError Unit) :
    (x.appended result).event = x.event := by
  unfold Write.appended
  repeat' first | rfl | split

/-- An append that is not told of a conflict is over. -/
theorem appended_phase {result : Except CoreError Unit} (hr : result ≠ .error .seqConflict) :
    ∃ err, (x.appended result).phase = .publish err := by
  unfold Write.appended
  split
  · exact ⟨_, rfl⟩
  · exact absurd rfl hr
  · exact ⟨_, rfl⟩

theorem appended_quiet {result : Except CoreError Unit} (howner : x.process = me)
    (hr : result ≠ .error .seqConflict) : Quiet me key h n (x.appended result) := by
  obtain ⟨err, hphase⟩ := appended_phase (x := x) hr
  refine ⟨(appended_process x result).trans howner, ?_, ?_, ?_⟩
  all_goals
    rw [hphase]
    exact nofun

/-- Rows go into the log that no seq in flight is in the way of. -/
theorem Seeded.grow (hs : Seeded me key h n w) {rows : List Row} (hlog : w'.log = w.log ++ rows)
    (hwrites : w'.writes = w.writes) (hseqs : w'.seqs me key = w.seqs me key)
    (hrows : ∀ r ∈ rows, r.event.streamKey = key → r.event.seq ≤ h + n ∧
      ∀ other y, w.writes other = some y → y.streamKey = key → y.phase = .append →
        r.event.seq ≠ y.event.seq)
    (hkept : n = 0 → Store.highWater w'.events key = Store.highWater w.events key) :
    Seeded me key h n w' := by
  have hevents : ∀ e ∈ w'.events, e ∈ w.events ∨ ∃ r ∈ rows, r.event = e := by
    intro e he
    rw [World.events, hlog, List.map_append] at he
    rcases List.mem_append.mp he with he | he
    · exact Or.inl he
    · exact Or.inr (List.mem_map.mp he)
  refine ⟨hseqs.trans hs.counter, ?_, ?_, ?_, ?_, ?_, ?_, ?_⟩
  · rw [hwrites]
    exact hs.owner
  · rw [hwrites]
    exact hs.calm
  · intro hn
    rw [hkept hn]
    exact hs.durable hn
  · rw [hwrites]
    exact hs.read
  · intro e he hkey
    rcases hevents e he with he | ⟨r, hr, rfl⟩
    · exact hs.rows e he hkey
    · exact (hrows r hr hkey).1
  · intro other y hy hkey hphase
    rw [hwrites] at hy
    obtain ⟨hlow, hhigh, hfresh⟩ := hs.flight other y hy hkey hphase
    refine ⟨hlow, hhigh, ?_⟩
    intro e he hekey
    rcases hevents e he with he | ⟨r, hr, rfl⟩
    · exact hfresh e he hekey
    · exact (hrows r hr hekey).2 other y hy hkey hphase
  · rw [hwrites]
    exact hs.distinct

/-- Only a reply of the store tells of a conflict. -/
theorem append_spec (w : World π) (id : WriteId) (x : Write π) (reply : Reply) :
    ∃ (result : Except CoreError Unit) (rows : List Row),
      (w.append id x reply).writes = Function.update w.writes id (some (x.appended result)) ∧
      (w.append id x reply).log = w.log ++ rows ∧ (w.append id x reply).seqs = w.seqs ∧
      (rows = [] ∨ rows = [⟨x.event, some id⟩]) ∧
      (result = .error .seqConflict →
        reply = .ran ∧ Store.append x.event w.events = .error .seqConflict) := by
  cases reply with
  | ran =>
    cases hstore : Store.append x.event w.events with
    | ok log =>
      refine ⟨.ok (), [⟨x.event, some id⟩], ?_, ?_, ?_, Or.inr rfl,
        fun he => by cases he⟩
      all_goals simp [World.append, hstore, World.setWrite, World.insert]
    | error e =>
      refine ⟨.error e, [], ?_, ?_, ?_, Or.inl rfl, ?_⟩
      · simp [World.append, hstore, World.setWrite]
      · simp [World.append, hstore, World.setWrite]
      · simp [World.append, hstore, World.setWrite]
      · intro he
        cases he
        exact ⟨rfl, rfl⟩
  | failed message applied =>
    simp only [World.append]
    split
    · exact ⟨.error (Store.mapAppendError (.other message)), [⟨x.event, some id⟩], rfl, rfl, rfl,
        Or.inr rfl, fun he => by cases he⟩
    · exact ⟨.error (Store.mapAppendError (.other message)), [], rfl, (List.append_nil _).symm, rfl,
        Or.inl rfl, fun he => by cases he⟩

/-- What is in flight on the stream is accepted. -/
theorem Seeded.accepted (hs : Seeded me key h n w) (hx : w.writes id = some x)
    (hphase : x.phase = .append) (hkey : x.streamKey = key) :
    Store.append x.event w.events ≠ .error .seqConflict := by
  obtain ⟨-, -, hfresh⟩ := hs.flight id x hx hkey hphase
  have hout : x.event.key ∉ w.events.map FleetEvent.key := by
    intro hmem
    obtain ⟨e, he, hkeys⟩ := List.mem_map.mp hmem
    exact hfresh e he ((congrArg Prod.fst hkeys).trans hkey) (congrArg Prod.snd hkeys)
  have hok : Store.append x.event w.events = .ok (w.events ++ [x.event]) :=
    Store.append_eq_ok.mpr ⟨hout, rfl⟩
  rw [hok]
  exact nofun

theorem Seeded.append (hs : Seeded me key h n w) (hx : w.writes id = some x)
    (hphase : x.phase = .append) (reply : Reply) :
    Seeded me key h n (w.append id x reply) := by
  obtain ⟨result, rows, hwrites, hlog, hseqs, hrows, hconflict⟩ := append_spec w id x reply
  have hquiet : (x.appended result).streamKey = key → Quiet me key h n (x.appended result) := by
    rw [Write.streamKey, appended_event]
    intro hkey
    apply appended_quiet (hs.owner id x hx hkey)
    intro he
    exact hs.accepted hx hphase hkey (hconflict he).2
  have hset : Seeded me key h n (w.setWrite id (x.appended result)) :=
    hs.set rfl rfl rfl hquiet
  apply hset.grow hlog hwrites (congrFun (congrFun hseqs me) key)
  · intro r hr hkey
    rcases hrows with rfl | rfl
    · cases hr
    · obtain rfl := List.mem_singleton.mp hr
      refine ⟨(hs.flight id x hx hkey hphase).2.1, ?_⟩
      intro other y hy hykey hyphase heq
      rcases Slots.update_some hy with ⟨-, rfl⟩ | ⟨ho, hy⟩
      · exact (hquiet hykey).idle hyphase
      · exact ho (hs.distinct id x other y hx hkey hphase hy hykey hyphase heq).symm
  · intro hn
    rcases hrows with rfl | rfl
    · rw [World.events, hlog, List.append_nil]
      rfl
    · have hkey : x.event.streamKey ≠ key := by
        intro hkey
        have hbound := hs.flight id x hx hkey hphase
        omega
      rw [World.events, hlog, List.map_append, List.map_singleton, highWater_other hkey]
      rfl

end Append

section Run

theorem Seeded.publish (hs : Seeded me key h n w) (hx : w.writes id = some x)
    (err : Option CoreError) (markerTs : String) :
    Seeded me key h n (w.publish id x err markerTs) := by
  have hdone : Seeded me key h n { w.setWrite id { x with phase := .done } with
      published := w.published ++ [⟨id, x.process, x.event, err⟩] } :=
    hs.set rfl rfl rfl fun hkey =>
      Quiet.of_phase (hs.owner id x hx hkey) (Or.inr (Or.inr rfl))
  unfold World.publish
  split
  · exact hdone.set rfl rfl rfl fun hkey => Quiet.of_phase (hs.owner _ x hx hkey) (Or.inl rfl)
  · exact hdone

theorem Seeded.accepts (hs : Seeded me key h n w) (a : Action π) : Accepted key w a := by
  cases a with
  | append id reply =>
    cases reply with
    | ran => exact fun x hx hphase hkey => hs.accepted hx hphase hkey
    | failed message applied => trivial
  | _ => trivial

variable [DecidableEq π]

/-- A step hands out the next seq of the stream, or none. -/
theorem Seeded.step {a : Action π} (hs : Seeded me key h n w) (hsole : Sole me key w a)
    (hstep : w.step a = some w') :
    handsOut key w' a = none ∧ Seeded me key h n w' ∨
      handsOut key w' a = some (h + n + 1) ∧ Seeded me key h (n + 1) w' := by
  cases step_performs hstep with
  | emit task process draft idle =>
    exact Or.inl ⟨rfl, hs.set rfl rfl rfl fun hkey => Quiet.of_phase (hsole hkey) (Or.inl rfl)⟩
  | next id x m slot phase known =>
    rw [handsOut_allocate (Or.inl rfl)]
    by_cases hkey : x.streamKey = key
    · rw [if_pos hkey]
      rw [hs.owner id x slot hkey, hkey, hs.counter] at known
      split at known
      · cases known
      · cases known
        exact Or.inr ⟨rfl, hs.allocate slot hkey⟩
    · rw [if_neg hkey]
      exact Or.inl ⟨rfl, hs.allocate_other hkey _⟩
  | unseeded id x slot phase =>
    refine Or.inl ⟨?_, hs.set rfl rfl rfl fun hkey =>
      Quiet.of_phase (hs.owner id x slot hkey) (Or.inr (Or.inl rfl))⟩
    simp [handsOut, World.setWrite]
  | highWater id ok x slot phase =>
    refine Or.inl ⟨rfl, hs.set rfl rfl rfl fun hkey =>
      ⟨hs.owner id x slot hkey, by simp, by simp, ?_⟩⟩
    intro hn s hread
    cases hread
    rw [if_pos (hsole x slot hkey), ← hs.durable hn]
    exact congrArg _ hkey
  | seed id x seeded slot phase =>
    rw [handsOut_allocate (Or.inr rfl)]
    by_cases hkey : x.streamKey = key
    · rw [if_pos hkey, hs.owner id x slot hkey, hkey, hs.counter]
      have hnext : (if n = 0 then none else some (h + n)).getD seeded = h + n := by
        split
        · rename_i hn
          rw [hn, Option.getD_none, hs.read hn id x seeded slot hkey phase, Nat.add_zero]
        · rfl
      rw [hnext]
      exact Or.inr ⟨rfl, hs.allocate slot hkey⟩
    · rw [if_neg hkey]
      exact Or.inl ⟨rfl, hs.allocate_other hkey _⟩
  | append id reply x slot phase => exact Or.inl ⟨rfl, hs.append slot phase reply⟩
  | reseed id x slot phase =>
    have hkey : x.streamKey ≠ key := fun hkey => hs.calm id x slot hkey phase
    exact Or.inl ⟨rfl, hs.set rfl rfl (setSeq_other none hkey) fun hsame => absurd hsame hkey⟩
  | publish id markerTs x err slot phase => exact Or.inl ⟨rfl, hs.publish slot err markerTs⟩

theorem Seeded.run {as : List (Action π)} (hs : Seeded me key h n w)
    (hsole : Machine.Steps World.step (Sole me key) w as) :
    (∃ m, handedOut key w as = List.range' (h + n + 1) m) ∧
      Machine.Steps World.step (Accepted key) w as := by
  induction as generalizing w n with
  | nil => exact ⟨⟨0, rfl⟩, trivial⟩
  | cons a as ih =>
    cases hstep : w.step a with
    | none =>
      refine ⟨⟨0, ?_⟩, hs.accepts a, ?_⟩
      · simp [handedOut, hstep]
      · intro w' hw'
        cases hstep.symm.trans hw'
    | some w' =>
      have hrest := hsole.2 w' hstep
      have hsteps : Machine.Steps World.step (Accepted key) w' as →
          Machine.Steps World.step (Accepted key) w (a :: as) :=
        Machine.steps_cons (hs.accepts a) hstep
      simp only [handedOut, hstep]
      rcases hs.step hsole.1 hstep with ⟨hnone, hs'⟩ | ⟨hsome, hs'⟩
      · obtain ⟨⟨m, hm⟩, haccepted⟩ := ih hs' hrest
        rw [hnone, hm]
        exact ⟨⟨m, rfl⟩, hsteps haccepted⟩
      · obtain ⟨⟨m, hm⟩, haccepted⟩ := ih hs' hrest
        rw [hsome, hm]
        exact ⟨⟨m + 1, rfl⟩, hsteps haccepted⟩

end Run

/-- A process that alone writes to a stream hands out its seqs one after the other from the
high water on, however its tasks interleave, and none of its appends conflicts. -/
theorem seeding_race_free [DecidableEq π] (me : π) (key : StreamKey) (log : List FleetEvent)
    (as : List (Action π))
    (h : Machine.Steps World.step (Sole me key) (World.start log) as) :
    (∃ m, handedOut key (World.start log) as =
      List.range' (Store.highWater log key + 1) m) ∧
      Machine.Steps World.step (Accepted key) (World.start log) as :=
  (Seeded.start me key log).run h

section Sample

def draft : FleetEvent := ⟨0, "t", "r", "a", .agentSpawned, none, none⟩

/-- Two tasks find the stream unseeded; the second reads the high water after the first has
already appended. -/
def seedingTasks : List (Action Unit) :=
  [.emit 0 () draft, .emit 1 () draft, .nextSeq (.event 0), .nextSeq (.event 1),
    .highWater (.event 0) true, .seed (.event 0), .append (.event 0) .ran,
    .highWater (.event 1) true, .seed (.event 1), .append (.event 1) .ran]

theorem seedingTasks_sole :
    Machine.Steps World.step (Sole () draft.streamKey) (World.start []) seedingTasks := by
  iterate 2 refine Machine.steps_cons (fun _ => rfl) rfl ?_
  iterate 2 refine Machine.steps_cons trivial rfl ?_
  refine Machine.steps_cons (fun _ _ _ => rfl) rfl ?_
  iterate 2 refine Machine.steps_cons trivial rfl ?_
  refine Machine.steps_cons (fun _ _ _ => rfl) rfl ?_
  iterate 2 refine Machine.steps_cons trivial rfl ?_
  trivial

theorem seeding_race_free_two :
    handedOut draft.streamKey (World.start []) seedingTasks = [1, 2] ∧
      Machine.Steps World.step (Accepted draft.streamKey) (World.start []) seedingTasks :=
  ⟨rfl, (seeding_race_free () draft.streamKey [] seedingTasks seedingTasks_sole).2⟩

end Sample

end Prospero.Proofs.Seeding
