import Mathlib.Data.List.TakeWhile
import Prospero.AgentStream
import Prospero.Lib.Sift
import Prospero.Proofs.Emitter

namespace Prospero.Proofs.AgentStream
open Prospero.AgentStream
open Prospero.Proofs.Emitter (Effect step_effect rowsOf publish_published)
open Prospero.Proofs.Store (mem_replay replay_sorted eq_of_seq)

/-- The events among some bus messages that the subscription yields. -/
def onStream (agent : String) (ps : List (Emitter.Publication Unit)) : List FleetEvent :=
  (ps.map Emitter.Publication.event).filter fun e => e.streamKey = agent

/-- What the bus carries for the client from its subscription on. -/
def heard (w : World) : List FleetEvent :=
  onStream w.agent (w.emitter.published.drop w.joined)

/-- Events of the stream at or above `from` and below its first `AgentFinished`. -/
def Due (w : World) (e : FleetEvent) : Prop :=
  e ∈ w.emitter.events ∧ e.streamKey = w.agent ∧ w.fromSeq ≤ e.seq ∧
  ∀ f ∈ w.emitter.events, f.streamKey = w.agent → f.kind.isAgentFinished = true → e.seq < f.seq

def delivered (w : World) : List FleetEvent := w.forwarded.filterMap Frame.event?

def Delivered (w : World) : Prop :=
  (delivered w).Pairwise (fun a b => a.seq < b.seq) ∧ ∀ e, Due w e → e ∈ delivered w

/-- All emits have published, and the client has closed or drained the bus. -/
def Settled (w : World) : Prop :=
  (∀ id x, w.emitter.writes id = some x → x.phase = .done) ∧
  match w.client with
  | .tailing pos _ => pos = w.emitter.published.length
  | .closed => True
  | _ => False

/-- No due event that the replay did not read is overtaken: nothing read or
heard before it has a higher seq. -/
def InOrder (w : World) : Prop :=
  ∀ e, Due w e → e ∉ w.history → (∀ h ∈ w.history, h.seq < e.seq) ∧
    ∀ b ∈ (heard w).takeWhile (fun b => b.seq ≠ e.seq), b.seq < e.seq

/-- What holds of the emitters when every append commits. -/
structure Committed (agent : String) (w : Emitter.World Unit) : Prop where
  clean : ∀ p ∈ w.published, p.err = none
  sound : ∀ id x err, w.writes id = some x → x.phase = .publish err → err = none
  ids : ∀ id x, w.writes id = some x → x.event.streamKey = agent → x.event.agentId = agent
  said : ∀ p ∈ w.published, p.event.streamKey = agent → p.event.agentId = agent

theorem Committed.slot {agent : String} {w w' : Emitter.World Unit} {id : Emitter.WriteId}
    {x' : Emitter.Write Unit} (h : Committed agent w)
    (hwrites : w'.writes = Function.update w.writes id (some x'))
    (hpublished : w'.published = w.published) (hsound : ∀ err, x'.phase = .publish err → err = none)
    (hids : x'.event.streamKey = agent → x'.event.agentId = agent) : Committed agent w' := by
  refine ⟨hpublished ▸ h.clean, ?_, ?_, hpublished ▸ h.said⟩
  · intro other y err hy hp
    rw [hwrites] at hy
    by_cases ho : other = id
    · subst ho
      rw [Function.update_self, Option.some.injEq] at hy
      exact hsound err (hy ▸ hp)
    · exact h.sound other y err (by rwa [Function.update_of_ne ho] at hy) hp
  · intro other y hy
    rw [hwrites] at hy
    by_cases ho : other = id
    · subst ho
      rw [Function.update_self, Option.some.injEq] at hy
      exact hy ▸ hids
    · exact h.ids other y (by rwa [Function.update_of_ne ho] at hy)

theorem Committed.effect {w : World} {e : Emitter.World Unit} {a : Emitter.Action Unit}
    (h : Committed w.agent w.emitter) (hadm : w.admits a = true) (he : Effect w.emitter e a) :
    Committed w.agent e := by
  cases he with
  | begin task process draft idle writes log published =>
    apply h.slot writes published (by simp [Emitter.Write.begin])
    intro hk
    simp only [World.admits, Bool.decide_or, Bool.or_eq_true, decide_eq_true_eq] at hadm
    exact hadm.resolve_left fun hn => hn hk
  | advance id x seq phase slot pending pending' numbered writes log published =>
    refine h.slot writes published ?_ (h.ids id x slot)
    intro err he
    subst he
    exact pending'.elim
  | append id reply x result rows slot phase ran stored rejected fresh writes log published =>
    have hok : result = .ok () := by
      cases reply with
      | failed message applied => simp [World.admits] at hadm
      | ran =>
        simp only [World.admits, slot] at hadm
        rw [ran rfl]
        cases hs : Store.append x.event w.emitter.events with
        | ok log' => rfl
        | error e => simp [hs, Except.toOption] at hadm
    subst hok
    exact h.slot writes published (by simp [Emitter.Write.appended]) (h.ids id x slot)
  | publish id markerTs x err slot phase eq =>
    obtain rfl := h.sound id x err slot phase
    have hset : Committed w.agent (w.emitter.setWrite id { x with phase := .done }) :=
      h.slot rfl rfl (by simp) (h.ids id x slot)
    rw [eq]
    refine ⟨?_, ?_, ?_, ?_⟩
    · intro p hp
      rw [publish_published] at hp
      rcases List.mem_append.mp hp with hp | hp
      · exact h.clean p hp
      · rw [List.mem_singleton.mp hp]
    · cases id <;> exact hset.sound
    · cases id <;> exact hset.ids
    · intro p hp
      rw [publish_published] at hp
      rcases List.mem_append.mp hp with hp | hp
      · exact h.said p hp
      · rw [List.mem_singleton.mp hp]
        exact h.ids id x slot

/-- The tailer's mark and output, as a sieve over what it hears. -/
def sieve (mark : Nat) (es : List FleetEvent) : Sift.State FleetEvent Nat :=
  Sift.run FleetEvent.seq (fun e => e.kind.isAgentFinished) mark es

/-- `last_delivered` once the given history has been replayed. -/
def endMark (fromSeq : Nat) (history : List FleetEvent) : Nat :=
  (history.getLast?.map FleetEvent.seq).getD (fromSeq - 1)

inductive ClientOk (w : World) : Client → Prop
  | connecting (forwarded : w.forwarded = []) : ClientOk w .connecting
  | subscribed (forwarded : w.forwarded = []) : ClientOk w (.subscribed w.joined)
  | replaying (last : Nat) (sent rest : List FleetEvent) (history : w.history = sent ++ rest)
      (mark : last = endMark w.fromSeq sent) (forwarded : w.forwarded = sent.map .event) :
      ClientOk w (.replaying w.joined last rest)
  | finished (sent : List FleetEvent) (last : FleetEvent) (rest : List FleetEvent)
      (history : w.history = sent ++ last :: rest) (terminal : last.kind.isAgentFinished = true)
      (forwarded : w.forwarded = (sent ++ [last]).map .event) : ClientOk w .closed
  | tailing (pos mark : Nat) (passed : List FleetEvent)
      (seen later : List (Emitter.Publication Unit)) (place : pos = w.joined + seen.length)
      (bus : w.emitter.published.drop w.joined = seen ++ later)
      (sieved : sieve (endMark w.fromSeq w.history) (onStream w.agent seen) = ⟨mark, passed, false⟩)
      (forwarded : w.forwarded = (w.history ++ passed).map .event) :
      ClientOk w (.tailing pos ⟨w.agent, mark⟩)
  | stopped (mark : Nat) (passed : List FleetEvent)
      (seen later : List (Emitter.Publication Unit))
      (bus : w.emitter.published.drop w.joined = seen ++ later)
      (sieved : sieve (endMark w.fromSeq w.history) (onStream w.agent seen) = ⟨mark, passed, true⟩)
      (forwarded : w.forwarded = (w.history ++ passed).map .event) : ClientOk w .closed

/-- `later` messages do not disturb what the client has done so far. -/
theorem ClientOk.grow {w : World} {e : Emitter.World Unit} {c : Client}
    {said : List (Emitter.Publication Unit)} (h : ClientOk w c)
    (hjoined : w.joined ≤ w.emitter.published.length)
    (hsaid : e.published = w.emitter.published ++ said) : ClientOk { w with emitter := e } c := by
  have hdrop : e.published.drop w.joined = w.emitter.published.drop w.joined ++ said := by
    rw [hsaid, List.drop_append_of_le_length hjoined]
  cases h with
  | connecting forwarded => exact .connecting forwarded
  | subscribed forwarded => exact .subscribed forwarded
  | replaying last sent rest history mark forwarded =>
    exact .replaying last sent rest history mark forwarded
  | finished sent last rest history terminal forwarded =>
    exact .finished sent last rest history terminal forwarded
  | tailing pos mark passed seen later place bus sieved forwarded =>
    exact .tailing pos mark passed seen (later ++ said) place (by simp [hdrop, bus]) sieved
      forwarded
  | stopped mark passed seen later bus sieved forwarded =>
    exact .stopped mark passed seen (later ++ said) (by simp [hdrop, bus]) sieved forwarded

def Replayed : Client → Prop
  | .connecting | .subscribed _ => False
  | _ => True

/-- The replay read part of the stream, and everything in it that a later
publication cannot announce. -/
structure Read (w : World) : Prop where
  stream : ∀ e ∈ w.history, e ∈ w.emitter.events ∧ e.streamKey = w.agent ∧ w.fromSeq ≤ e.seq
  sorted : w.history.Pairwise fun a b => a.seq < b.seq
  old : ∀ r ∈ w.emitter.log, r.writer = none → r.event.streamKey = w.agent →
    w.fromSeq ≤ r.event.seq → r.event ∈ w.history
  missed : ∀ p ∈ w.emitter.published.take w.joined, p.event.streamKey = w.agent →
    w.fromSeq ≤ p.event.seq → p.event ∈ w.history

structure Inv (w : World) : Prop where
  emitter : Emitter.Inv w.emitter
  committed : Committed w.agent w.emitter
  client : ClientOk w w.client
  joined : w.joined ≤ w.emitter.published.length
  read : Replayed w.client → Read w

/-- A publication that went through is in the log. -/
theorem Inv.published_mem {w : World} (h : Inv w) {p : Emitter.Publication Unit}
    (hp : p ∈ w.emitter.published) : p.event ∈ w.emitter.events := by
  have hr := (h.emitter.past p hp).2.2 (h.committed.clean p hp)
  have hm : (⟨p.event, some p.writer⟩ : Emitter.Row) ∈ w.emitter.log :=
    (List.mem_filter.mp (hr ▸ List.mem_singleton_self _ : _ ∈ rowsOf w.emitter.log p.writer)).1
  exact List.mem_map.mpr ⟨_, hm, rfl⟩

theorem Inv.start {log : List FleetEvent} (h : (log.map FleetEvent.key).Nodup) (agent : String)
    (fromSeq : Nat) : Inv (World.start log agent fromSeq) where
  emitter := .start h
  committed := ⟨by simp [World.start, Emitter.World.start], by simp [World.start, Emitter.World.start],
    by simp [World.start, Emitter.World.start], by simp [World.start, Emitter.World.start]⟩
  client := .connecting rfl
  joined := Nat.zero_le _
  read := False.elim

theorem Inv.emit {w : World} {e : Emitter.World Unit} {a : Emitter.Action Unit} (h : Inv w)
    (hadm : w.admits a = true) (hs : w.emitter.step a = some e) : Inv { w with emitter := e } := by
  have he := step_effect hs
  obtain ⟨rows, hlog, hnew⟩ := he.log_grows
  obtain ⟨said, hsaid⟩ := he.bus_grows
  refine ⟨h.emitter.effect he, h.committed.effect hadm he, h.client.grow h.joined hsaid, ?_, ?_⟩
  · simp only [hsaid, List.length_append]
    exact Nat.le_add_right_of_le h.joined
  · intro hr
    obtain ⟨stream, sorted, old, missed⟩ := h.read hr
    refine ⟨fun x hx => ?_, sorted, fun r hm hw => ?_, fun p hp => missed p ?_⟩
    · obtain ⟨hm, hk⟩ := stream x hx
      refine ⟨?_, hk⟩
      simp only [Emitter.World.events, hlog, List.map_append] at hm ⊢
      exact List.mem_append_left _ hm
    · simp only [hlog] at hm
      rcases List.mem_append.mp hm with hm | hm
      · exact old r hm hw
      · exact absurd hw (hnew r hm)
    · simpa only [hsaid, List.take_append_of_le_length h.joined] using hp

theorem endMark_snoc (fromSeq : Nat) (sent : List FleetEvent) (e : FleetEvent) :
    endMark fromSeq (sent ++ [e]) = e.seq := by
  simp [endMark]

/-- One message on the client's stream, as the tailer sees it. -/
theorem tail_event {w : World} {pos mark : Nat} {e : FleetEvent} (hagent : e.agentId = w.agent) :
    w.tail pos ⟨w.agent, mark⟩ (some (.event e)) =
      if mark < e.seq then
        { w with
          client := if e.kind.isAgentFinished then .closed else .tailing pos ⟨w.agent, e.seq⟩
          forwarded := w.forwarded ++ [.event e] }
      else { w with client := .tailing pos ⟨w.agent, mark⟩ } := by
  by_cases hlt : mark < e.seq
  · cases hf : e.kind.isAgentFinished <;> simp [World.tail, Tailer.onRecv, hagent, hlt, hf]
  · simp [World.tail, Tailer.onRecv, hlt]

/-- The same message, as the sieve sees it. -/
theorem sieve_snoc {start mark : Nat} {es passed : List FleetEvent}
    (h : sieve start es = ⟨mark, passed, false⟩) (e : FleetEvent) :
    sieve start (es ++ [e]) =
      if mark < e.seq then ⟨e.seq, passed ++ [e], e.kind.isAgentFinished⟩
      else ⟨mark, passed, false⟩ := by
  unfold sieve at h ⊢
  rw [Sift.run_snoc, h, Sift.step]
  simp

theorem onStream_snoc (agent : String) (ps : List (Emitter.Publication Unit))
    (p : Emitter.Publication Unit) : onStream agent (ps ++ [p]) =
      onStream agent ps ++ if p.event.streamKey = agent then [p.event] else [] := by
  by_cases h : p.event.streamKey = agent <;> simp [onStream, h]

/-- The client's next message is the one after those it has seen. -/
theorem next_message {w : World} {seen later : List (Emitter.Publication Unit)}
    {p : Emitter.Publication Unit}
    (hbus : w.emitter.published.drop w.joined = seen ++ later)
    (hp : w.emitter.published[w.joined + seen.length]? = some p) :
    ∃ rest, w.emitter.published.drop w.joined = (seen ++ [p]) ++ rest := by
  rw [← List.getElem?_drop, hbus, List.getElem?_append_right (Nat.le_refl _), Nat.sub_self] at hp
  cases later with
  | nil => simp at hp
  | cons q rest =>
    obtain rfl : q = p := by simpa using hp
    exact ⟨rest, by simp [hbus]⟩

theorem Inv.recv {w w' : World} (h : Inv w) (hs : w.step .recv = some w') : Inv w' := by
  obtain ⟨emitter, committed, client, joined, read⟩ := h
  simp only [World.step] at hs
  split at hs
  · rename_i hc
    have hread := read (by rw [hc]; trivial)
    rw [hc] at client
    cases client with
    | tailing pos mark passed seen later place bus sieved forwarded =>
    subst place
    split at hs
    · rename_i p hp
      obtain ⟨rest, hbus⟩ := next_message bus hp
      have hpos : w.joined + seen.length + 1 = w.joined + (seen ++ [p]).length := by
        simp [Nat.add_assoc]
      split at hs
      · rename_i hkey
        rw [tail_event (committed.said p (List.mem_of_getElem? hp) hkey)] at hs
        have hsnoc := sieve_snoc sieved p.event
        rw [show onStream w.agent seen ++ [p.event] = onStream w.agent (seen ++ [p]) by
          rw [onStream_snoc, if_pos hkey]] at hsnoc
        split at hs <;> cases hs
        · rename_i hlt
          rw [if_pos hlt] at hsnoc
          refine ⟨emitter, committed, ?_, joined,
            fun _ => ⟨hread.stream, hread.sorted, hread.old, hread.missed⟩⟩
          cases hf : p.event.kind.isAgentFinished with
          | true =>
            exact .stopped p.event.seq _ (seen ++ [p]) rest hbus (hsnoc.trans (by rw [hf]))
              (by simp [forwarded])
          | false =>
            exact .tailing _ p.event.seq _ (seen ++ [p]) rest hpos hbus (hsnoc.trans (by rw [hf]))
              (by simp [forwarded])
        · rename_i hle
          rw [if_neg hle] at hsnoc
          refine ⟨emitter, committed, ?_, joined,
            fun _ => ⟨hread.stream, hread.sorted, hread.old, hread.missed⟩⟩
          exact .tailing _ mark passed (seen ++ [p]) rest hpos hbus hsnoc forwarded
      · rename_i hkey
        cases hs
        refine ⟨emitter, committed, ?_, joined,
          fun _ => ⟨hread.stream, hread.sorted, hread.old, hread.missed⟩⟩
        refine .tailing _ mark passed (seen ++ [p]) rest hpos hbus ?_ forwarded
        simpa [onStream_snoc, hkey] using sieved
    · cases hs
  · cases hs

theorem Inv.step {w w' : World} {a : Action} (h : Inv w) (hs : w.step a = some w') : Inv w' := by
  cases a with
  | recv => exact h.recv hs
  | emitter a =>
    simp only [World.step] at hs
    split at hs
    · obtain ⟨e, he, rfl⟩ := Option.map_eq_some_iff.mp hs
      exact h.emit ‹_› he
    · cases hs
  | subscribe =>
    obtain ⟨emitter, committed, client, joined, read⟩ := h
    simp only [World.step] at hs
    split at hs <;> cases hs
    rename_i hc
    rw [hc] at client
    cases client with
    | connecting forwarded =>
      exact ⟨emitter, committed, .subscribed forwarded, Nat.le_refl _, False.elim⟩
  | replay =>
    have hpub := fun p => h.published_mem (p := p)
    obtain ⟨emitter, committed, client, joined, read⟩ := h
    simp only [World.step] at hs
    split at hs <;> cases hs
    rename_i hc
    rw [hc] at client
    cases client with
    | subscribed forwarded =>
      refine ⟨emitter, committed, .replaying _ [] _ rfl rfl (by simp [forwarded]), joined,
        fun _ => ⟨fun e => mem_replay.mp, replay_sorted emitter.unique _ _, ?_, ?_⟩⟩
      · exact fun r hr _ hk hf => mem_replay.mpr ⟨List.mem_map_of_mem hr, hk, hf⟩
      · exact fun p hp hk hf => mem_replay.mpr ⟨hpub p (List.mem_of_mem_take hp), hk, hf⟩
  | yieldHistory =>
    obtain ⟨emitter, committed, client, joined, read⟩ := h
    simp only [World.step] at hs
    split at hs
    · rename_i pos last e rest hc
      have hread := read (by rw [hc]; trivial)
      rw [hc] at client
      cases hs
      cases client with
      | replaying last sent rest' history mark forwarded =>
      refine ⟨emitter, committed, ?_, joined,
        fun _ => ⟨hread.stream, hread.sorted, hread.old, hread.missed⟩⟩
      cases hf : e.kind.isAgentFinished with
      | true => exact .finished sent e rest history hf (by simp [forwarded])
      | false =>
        exact .replaying e.seq (sent ++ [e]) rest (by simp [history]) (endMark_snoc ..).symm
          (by simp [forwarded])
    · rename_i pos last hc
      have hread := read (by rw [hc]; trivial)
      rw [hc] at client
      cases hs
      cases client with
      | replaying last sent rest' history mark forwarded =>
      refine ⟨emitter, committed, ?_, joined,
        fun _ => ⟨hread.stream, hread.sorted, hread.old, hread.missed⟩⟩
      rw [List.append_nil] at history
      exact .tailing _ _ [] [] _ (by simp) rfl (by simp [history, mark, onStream, sieve, Sift.run])
        (by simp [forwarded, history])
    · cases hs

/-- An event appended since the replay is announced to the client. -/
theorem Inv.heard_of_due {w : World} (h : Inv w) (hread : Read w)
    (hall : ∀ id x, w.emitter.writes id = some x → x.phase = .done) {e : FleetEvent} (he : Due w e)
    (hnew : e ∉ w.history) : e ∈ heard w := by
  obtain ⟨hm, hkey, hfrom, -⟩ := he
  obtain ⟨r, hr, rfl⟩ := List.mem_map.mp hm
  cases hw : r.writer with
  | none => exact absurd (hread.old r hr hw hkey hfrom) hnew
  | some id =>
    have hown : r ∈ rowsOf w.emitter.log id := List.mem_filter.mpr ⟨hr, by simp [hw]⟩
    obtain ⟨x, hx⟩ : ∃ x, w.emitter.writes id = some x := by
      rw [← Option.ne_none_iff_exists']
      intro hnone
      rw [h.emitter.idle id hnone] at hown
      cases hown
    obtain ⟨p, hp, rfl⟩ := h.emitter.announced id x hx (hall id x hx)
    rw [(h.emitter.past p hp).2.2 (h.committed.clean p hp), List.mem_singleton] at hown
    subst hown
    have hlate : p ∈ w.emitter.published.drop w.joined := by
      rw [← List.take_append_drop w.joined w.emitter.published] at hp
      apply (List.mem_append.mp hp).resolve_left
      intro ht
      exact hnew (hread.missed p ht hkey hfrom)
    exact List.mem_filter.mpr ⟨List.mem_map_of_mem hlate, by simpa using hkey⟩

theorem Inv.heard_mem {w : World} (h : Inv w) {e : FleetEvent} (he : e ∈ heard w) :
    e ∈ w.emitter.events ∧ e.streamKey = w.agent ∧ 0 < e.seq := by
  obtain ⟨hm, hkey⟩ := List.mem_filter.mp he
  obtain ⟨p, hp, rfl⟩ := List.mem_map.mp hm
  have hp' := List.mem_of_mem_drop hp
  exact ⟨h.published_mem hp', by simpa using hkey, (h.emitter.past p hp').2.1⟩

/-- The messages before a heard event are those up to its seq. -/
theorem Inv.heard_split {w : World} (h : Inv w) {e : FleetEvent} (he : e ∈ heard w) :
    ∃ after, heard w = (heard w).takeWhile (fun b => b.seq ≠ e.seq) ++ e :: after := by
  obtain ⟨x, after, hx, hsplit⟩ :=
    Sift.takeWhile_split (p := fun b : FleetEvent => b.seq ≠ e.seq) he (by simp)
  have hxm : x ∈ heard w := by
    rw [hsplit]
    simp
  obtain ⟨hxe, hxk, -⟩ := h.heard_mem hxm
  obtain ⟨hee, hek, -⟩ := h.heard_mem he
  obtain rfl := eq_of_seq h.emitter.unique hxe hee (hxk.trans hek.symm) (by simpa using hx)
  exact ⟨after, hsplit⟩

/-- What a settled client has been forwarded. -/
theorem Inv.delivered_cases {w : World} (h : Inv w) (hs : Settled w) : Read w ∧
    ((∃ sent last rest, w.history = sent ++ last :: rest ∧ last.kind.isAgentFinished = true ∧
        delivered w = sent ++ [last]) ∨
      delivered w = w.history ++ (sieve (endMark w.fromSeq w.history) (heard w)).passed) := by
  have hclient := h.client
  have hmap : ∀ es : List FleetEvent, (es.map Frame.event).filterMap Frame.event? = es := by
    intro es
    induction es with
    | nil => rfl
    | cons e es ih => simpa [Frame.event?] using ih
  have hend := hs.2
  cases hc : w.client with
  | connecting | subscribed pos | replaying pos last rest => simp [hc] at hend
  | tailing pos tailer =>
    refine ⟨h.read (by rw [hc]; trivial), .inr ?_⟩
    rw [hc] at hclient
    simp only [hc] at hend
    cases hclient with
    | tailing pos mark passed seen later place bus sieved forwarded =>
    have hlater : later = [] := by
      have := congrArg List.length bus
      simp only [List.length_drop, List.length_append] at this
      exact List.length_eq_zero_iff.mp (by omega)
    rw [delivered, forwarded, hmap, heard, bus, hlater, List.append_nil, sieved]
  | closed =>
    refine ⟨h.read (by rw [hc]; trivial), ?_⟩
    rw [hc] at hclient
    cases hclient with
    | finished sent last rest history terminal forwarded =>
      exact .inl ⟨sent, last, rest, history, terminal, by rw [delivered, forwarded, hmap]⟩
    | stopped mark passed seen later bus sieved forwarded =>
      right
      have hstop : (sieve (endMark w.fromSeq w.history) (onStream w.agent seen)).stopped = true := by
        rw [sieved]
      have hall : heard w = onStream w.agent seen ++ onStream w.agent later := by
        simp [heard, bus, onStream]
      rw [delivered, forwarded, hmap, hall, sieve, Sift.run_append_stopped hstop]
      exact congrArg (fun s => w.history ++ Sift.State.passed s) sieved.symm

theorem Read.le_endMark {w : World} (h : Read w) {e : FleetEvent} (he : e ∈ w.history) :
    e.seq ≤ endMark w.fromSeq w.history := by
  obtain ⟨init, last, hl⟩ := List.eq_nil_or_concat' w.history |>.resolve_left (List.ne_nil_of_mem he)
  have hsorted := h.sorted
  rw [hl] at he hsorted ⊢
  rw [endMark_snoc]
  rcases List.mem_append.mp he with hi | hi
  · exact ((List.pairwise_append.mp hsorted).2.2 e hi last (List.mem_singleton_self _)).le
  · rw [List.mem_singleton.mp hi]

theorem Read.endMark_lt {w : World} (h : Read w) {e : FleetEvent} (hpos : 0 < e.seq)
    (hfrom : w.fromSeq ≤ e.seq) :
    endMark w.fromSeq w.history < e.seq ↔ ∀ x ∈ w.history, x.seq < e.seq := by
  constructor
  · exact fun hlt x hx => (h.le_endMark hx).trans_lt hlt
  · intro hall
    rcases List.eq_nil_or_concat' w.history with hl | ⟨init, last, hl⟩
    · simp only [hl, endMark, List.getLast?_nil, Option.map_none, Option.getD_none]
      omega
    · rw [hl, endMark_snoc]
      exact hall last (by simp [hl])

theorem Inv.delivered_sorted {w : World} (h : Inv w) (hs : Settled w) :
    (delivered w).Pairwise fun a b => a.seq < b.seq := by
  obtain ⟨hread, ⟨sent, last, rest, hist, -, hd⟩ | hd⟩ := h.delivered_cases hs
  · have hsorted := hread.sorted
    rw [hist, show sent ++ last :: rest = (sent ++ [last]) ++ rest by simp] at hsorted
    exact hd ▸ (List.pairwise_append.mp hsorted).1
  · have hf := Sift.run_facts FleetEvent.seq (fun e => e.kind.isAgentFinished)
      (endMark w.fromSeq w.history) (heard w)
    rw [hd]
    refine List.pairwise_append.mpr ⟨hread.sorted, hf.sorted, fun a ha b hb => ?_⟩
    exact (hread.le_endMark ha).trans_lt (hf.range b hb).1

theorem Inv.due_delivered {w : World} (h : Inv w) (hs : Settled w) {e : FleetEvent} (he : Due w e) :
    e ∈ delivered w ↔ (e ∉ w.history → (∀ x ∈ w.history, x.seq < e.seq) ∧
      ∀ b ∈ (heard w).takeWhile (fun b => b.seq ≠ e.seq), b.seq < e.seq) := by
  obtain ⟨hread, ⟨sent, last, rest, hist, hfin, hd⟩ | hd⟩ := h.delivered_cases hs
  · have hlast := hread.stream last (by simp [hist])
    have hlt : e.seq < last.seq := he.2.2.2 last hlast.1 hlast.2.1 hfin
    have hsorted := hread.sorted
    rw [hist] at hsorted
    rw [hd]
    constructor
    · intro hm hnew
      refine absurd ?_ hnew
      rw [hist, show sent ++ last :: rest = (sent ++ [last]) ++ rest by simp]
      exact List.mem_append_left _ hm
    · intro hcond
      by_cases hm : e ∈ w.history
      · rw [hist] at hm
        rcases List.mem_append.mp hm with hm | hm
        · exact List.mem_append_left _ hm
        · rcases List.mem_cons.mp hm with rfl | hm
          · exact absurd hlt (lt_irrefl _)
          · have hafter := (List.pairwise_cons.mp (List.pairwise_append.mp hsorted).2.1).1 e hm
            exact absurd hlt hafter.asymm
      · exact absurd ((hcond hm).1 last (by simp [hist])) hlt.asymm
  · by_cases hm : e ∈ w.history
    · simp [hd, hm]
    · have hheard := h.heard_of_due hread hs.1 he hm
      obtain ⟨after, hsplit⟩ := h.heard_split hheard
      have hbelow : ∀ b ∈ (heard w).takeWhile (fun b => b.seq ≠ e.seq),
          b.kind.isAgentFinished = true → e.seq < b.seq := by
        intro b hb hf
        obtain ⟨hbe, hbk, -⟩ := h.heard_mem ((List.takeWhile_sublist _).subset hb)
        exact he.2.2.2 b hbe hbk hf
      have hother : ∀ b ∈ (heard w).takeWhile (fun b => b.seq ≠ e.seq), b.seq ≠ e.seq := by
        intro b hb
        simpa using List.mem_takeWhile_imp hb
      have hpassed := Sift.mem_passed_iff (endMark w.fromSeq w.history) after hother hbelow
      rw [← hsplit, hread.endMark_lt (h.heard_mem hheard).2.2 he.2.2.1] at hpassed
      rw [hd, List.mem_append, or_iff_right hm]
      exact hpassed.trans ⟨fun hc _ => hc, fun hc => hc hm⟩

/-- The live tail is complete exactly when no due event is overtaken on its way
from the store to the bus. -/
theorem tail_delivers_iff (log : List FleetEvent) (agent : String) (fromSeq : Nat)
    (as : List Action) (w : World) (hlog : (log.map FleetEvent.key).Nodup)
    (h : Machine.run World.step (World.start log agent fromSeq) as = some w) (hs : Settled w) :
    Delivered w ↔ InOrder w := by
  have hinv : Inv w := Machine.run_invariant (fun _ _ _ => Inv.step) (.start hlog agent fromSeq) h
  constructor
  · exact fun hd e he => (hinv.due_delivered hs he).mp (hd.2 e he)
  · exact fun ho => ⟨hinv.delivered_sorted hs, fun e he => (hinv.due_delivered hs he).mpr (ho e he)⟩

/-- Two emits on one stream, the first to number its event the last to publish
it, and a client that had joined before either. -/
def overtakenTail (first second : Nat) : List Action :=
  [.subscribe, .replay, .yieldHistory,
    .emitter (.emit 0 () ⟨0, "t", "r", "a", .agentSpawned, none, none⟩),
    .emitter (.emit 1 () ⟨0, "t", "r", "a", .agentGone, none, none⟩),
    .emitter (.nextSeq (.event 0)), .emitter (.highWater (.event 0) true),
    .emitter (.seed (.event 0)), .emitter (.nextSeq (.event 1)),
    .emitter (.append (.event 0) .ran), .emitter (.append (.event 1) .ran),
    .emitter (.publish (.event first) "t"), .emitter (.publish (.event second) "t"), .recv, .recv]

theorem tail_delivers_in_order :
    ∃ w, Machine.run World.step (World.start [] "a" 0) (overtakenTail 0 1) = some w ∧
      (Delivered w ↔ InOrder w) := by
  refine ⟨_, rfl, tail_delivers_iff [] "a" 0 (overtakenTail 0 1) _ (by decide) rfl ⟨?_, rfl⟩⟩
  rintro ((_ | _ | n) | n) x hx
  all_goals cases hx
  all_goals rfl

/-- Event 2 reaches the client first, and event 1 is then taken for a
duplicate. -/
theorem tail_drops_overtaken :
    ¬∀ (log : List FleetEvent) (agent : String) (fromSeq : Nat) (as : List Action) (w : World),
      (log.map FleetEvent.key).Nodup →
      Machine.run World.step (World.start log agent fromSeq) as = some w → Settled w →
      Delivered w := by
  intro h
  have hd := h [] "a" 0 (overtakenTail 1 0) _ (by decide) rfl ⟨by
    rintro ((_ | _ | n) | n) x hx
    all_goals cases hx
    all_goals rfl, rfl⟩
  have hdue := hd.2 ⟨1, "t", "r", "a", .agentSpawned, none, none⟩ ⟨.head _, rfl, Nat.zero_le _, by
    intro f hf _ hfin
    rcases List.mem_cons.mp hf with rfl | hf
    · cases hfin
    · obtain rfl := List.mem_singleton.mp hf
      cases hfin⟩
  have hseq := congrArg FleetEvent.seq (List.mem_singleton.mp hdue)
  cases hseq

end Prospero.Proofs.AgentStream
