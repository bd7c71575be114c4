import Prospero.Lib.Machine
import Prospero.Dashboard
import Prospero.Proofs.Store

namespace Prospero.Proofs.Dashboard
open Prospero.Dashboard

section Session

def Entry.event? : Entry → Option FleetEvent
  | .event e => some e
  | _ => none

/-- The events the client has been delivered. -/
def rendered (s : StreamSession) : List FleetEvent := s.entries.filterMap Entry.event?

variable {s : StreamSession} {e : FleetEvent}

@[simp] theorem rendered_disconnected : rendered s.disconnected = rendered s := by
  unfold StreamSession.disconnected
  split <;> rfl

@[simp] theorem resumeFrom_disconnected : s.disconnected.resumeFrom = s.resumeFrom := by
  unfold StreamSession.disconnected
  split <;> rfl

@[simp] theorem shouldRetry_disconnected : s.disconnected.shouldRetry = s.shouldRetry := by
  unfold StreamSession.disconnected StreamSession.shouldRetry
  split
  · rfl
  · rename_i h
    simp [h]

/-- An event at or past the place to resume from is rendered. -/
theorem push_new (h : s.resumeFrom ≤ e.seq) :
    rendered (s.push e) = rendered s ++ [e] ∧ (s.push e).resumeFrom = e.seq + 1 ∧
      (s.push e).shouldRetry = !e.kind.isAgentFinished := by
  have hnew : s.lastSeq.any (e.seq ≤ ·) = false := by
    cases hlast : s.lastSeq with
    | none => rfl
    | some last =>
      simp only [StreamSession.resumeFrom, hlast] at h
      simp only [Option.any_some, decide_eq_false_iff_not, not_le]
      omega
  unfold StreamSession.push
  rw [if_neg (by simp [hnew])]
  refine ⟨?_, rfl, ?_⟩
  · simp [rendered, Entry.event?]
  · cases hf : e.kind.isAgentFinished <;> simp [StreamSession.shouldRetry]

end Session

/-- The client's connections and nothing else: reads may fail and connections drop, but
the log stays as it is, the bus is silent and frames can be read. -/
def quiet (w : World) : Action → Option World
  | .connect readOk => w.step (.connect readOk)
  | .yieldHistory true => w.step (.yieldHistory true)
  | .drop => w.step .drop
  | _ => none

/-- The client's connection, if it has one, has ended. -/
def left (w : World) : World :=
  match w.conn with
  | some _ => w.hangUp
  | none => w

/-- However the client's further connections go, more of them bring it the event. -/
def Delivers (w : World) (e : FleetEvent) : Prop :=
  Machine.Assured quiet (fun w' => e ∈ rendered w'.session) (left w)

/-- The event stands in the log, recorded since the agent was restarted after an
earlier `AgentFinished`. -/
def Latest (w : World) (e : FleetEvent) : Prop :=
  e ∈ w.log ∧ e.streamKey = w.agent ∧ ∃ es, w.latest = some es ∧ e ∈ es

/-- The client still retries, at or before the event, and the log holds no
`AgentFinished` of the stream between its place and the event. -/
def Ahead (w : World) (e : FleetEvent) : Prop :=
  w.session.shouldRetry = true ∧ w.session.resumeFrom ≤ e.seq ∧
    ∀ f ∈ w.log, f.streamKey = w.agent → f.kind.isAgentFinished = true →
      w.session.resumeFrom ≤ f.seq → e.seq ≤ f.seq

def Wants (w : World) (e : FleetEvent) : Prop := e ∈ rendered w.session ∨ Ahead w e

section Quiet

variable {w w' : World} {e : FleetEvent}

/-- The history that a client reads which connects in the given state. -/
def history (w : World) : List FleetEvent := Store.replay w.log w.agent w.session.resumeFrom

theorem mem_history {x : FleetEvent} :
    x ∈ history w ↔ x ∈ w.log ∧ x.streamKey = w.agent ∧ w.session.resumeFrom ≤ x.seq :=
  Store.mem_replay

/-- Past its first event, a history is the history from there on. -/
theorem replay_tail {log : List FleetEvent} {key : StreamKey} {fromSeq : Nat} {x : FleetEvent}
    {xs : List FleetEvent} (hlog : (log.map FleetEvent.key).Nodup)
    (h : Store.replay log key fromSeq = x :: xs) : Store.replay log key (x.seq + 1) = xs := by
  have hsorted := Store.replay_sorted hlog key fromSeq
  rw [h] at hsorted
  obtain ⟨hx, hxs⟩ := List.pairwise_cons.mp hsorted
  have hmem : ∀ y, y ∈ Store.replay log key fromSeq ↔ y = x ∨ y ∈ xs := by
    intro y
    rw [h, List.mem_cons]
  have hperm : (Store.replay log key (x.seq + 1)).Perm xs := by
    apply (List.perm_ext_iff_of_nodup
      ((Store.replay_sorted hlog key _).imp fun h heq => by simp [heq] at h)
      (hxs.imp fun h heq => by simp [heq] at h)).mpr
    intro y
    rw [Store.mem_replay]
    constructor
    · rintro ⟨hlogy, hkey, hseq⟩
      have hfrom : fromSeq ≤ x.seq := (Store.mem_replay.mp ((hmem x).mpr (Or.inl rfl))).2.2
      rcases (hmem y).mp (Store.mem_replay.mpr ⟨hlogy, hkey, by omega⟩) with rfl | hy
      · omega
      · exact hy
    · intro hy
      obtain ⟨hlogy, hkey, -⟩ := Store.mem_replay.mp ((hmem y).mpr (Or.inr hy))
      exact ⟨hlogy, hkey, hx y hy⟩
  exact hperm.eq_of_pairwise (fun a b _ _ hab hba => absurd hab (by omega))
    (Store.replay_sorted hlog key _) hxs

/-- A connection on its own: it replays what the client has yet to read, or nothing
when the read failed. -/
structure Connected (w : World) : Prop where
  unique : (w.log.map FleetEvent.key).Nodup
  replaying : ∀ last rest, w.conn = some (.replaying last rest) →
    w.session.shouldRetry = true ∧ (rest = [] ∨ rest = history w)

/-- What a step of the client's connections does to its session. -/
inductive Heard (w w' : World) : Prop
  | nothing (rendered : rendered w'.session = rendered w.session)
      (resume : w'.session.resumeFrom = w.session.resumeFrom)
      (retry : w'.session.shouldRetry = w.session.shouldRetry) : Heard w w'
  | event (x : FleetEvent) (rest : List FleetEvent) (eq : history w = x :: rest)
      (retry : w.session.shouldRetry = true)
      (rendered : rendered w'.session = rendered w.session ++ [x])
      (resume : w'.session.resumeFrom = x.seq + 1)
      (retry' : w'.session.shouldRetry = !x.kind.isAgentFinished) : Heard w w'

/-- One step of a connection: what it does to the session, with the log left alone. -/
theorem quiet_step {a : Action} (h : Connected w) (hs : quiet w a = some w') :
    Connected w' ∧ w'.log = w.log ∧ w'.agent = w.agent ∧ Heard w w' := by
  have hung (v : World) (hv : (v.log.map FleetEvent.key).Nodup) : Connected v.hangUp :=
    ⟨hv, fun _ _ hc => (nomatch hc)⟩
  cases a with
  | connect readOk =>
    simp only [quiet, World.step] at hs
    split at hs
    · split at hs
      · rename_i hretry
        cases hs
        refine ⟨⟨h.unique, ?_⟩, rfl, rfl, .nothing rfl rfl rfl⟩
        intro last rest hc
        obtain ⟨-, rfl⟩ := Conn.replaying.inj (Option.some.inj hc)
        refine ⟨hretry, ?_⟩
        cases readOk with
        | false => exact Or.inl rfl
        | true => exact Or.inr rfl
      · cases hs
    · cases hs
  | yieldHistory decoded =>
    cases decoded with
    | false => cases hs
    | true =>
      simp only [quiet, World.step] at hs
      split at hs
      · rename_i last x rest hconn
        obtain ⟨hretry, hrest⟩ := h.replaying _ _ hconn
        have heq : history w = x :: rest := (hrest.resolve_left (by simp)).symm
        have hx : x ∈ history w := heq ▸ List.mem_cons_self
        obtain ⟨hr, hf, hretry'⟩ := push_new (mem_history.mp hx).2.2
        split at hs
        · cases hs
          refine ⟨hung _ h.unique, rfl, rfl, .event x rest heq hretry ?_ ?_ ?_⟩
          · exact rendered_disconnected.trans hr
          · exact resumeFrom_disconnected.trans hf
          · exact shouldRetry_disconnected.trans hretry'
        · rename_i hfin
          cases hs
          refine ⟨⟨h.unique, ?_⟩, rfl, rfl, .event x rest heq hretry hr hf hretry'⟩
          intro last' rest' hc
          obtain ⟨-, rfl⟩ := Conn.replaying.inj (Option.some.inj hc)
          refine ⟨hretry'.trans (by simp [hfin]), Or.inr ?_⟩
          exact ((congrArg _ hf).trans (replay_tail h.unique heq)).symm
      · cases hs
        exact ⟨⟨h.unique, by simp⟩, rfl, rfl, .nothing rfl rfl rfl⟩
      · cases hs
  | drop =>
    simp only [quiet, World.step] at hs
    split at hs
    · cases hs
      exact ⟨hung _ h.unique, rfl, rfl,
        .nothing rendered_disconnected resumeFrom_disconnected shouldRetry_disconnected⟩
    · cases hs
  | append _ | prune _ | restart | recv _ _ | send _ => cases hs

/-- What the client wants it goes on wanting until it has it, and it never comes to
want anything else. -/
theorem wants_step {a : Action} (h : Connected w) (hs : quiet w a = some w')
    (he : e ∈ w.log) (hkey : e.streamKey = w.agent) : Wants w' e ↔ Wants w e := by
  obtain ⟨-, hlog, hagent, heard⟩ := quiet_step h hs
  cases heard with
  | nothing hr hf hretry => simp only [Wants, Ahead, hlog, hagent, hr, hf, hretry]
  | event x rest heq hretry hr hf hretry' =>
    have hsorted := Store.replay_sorted h.unique w.agent w.session.resumeFrom
    rw [show Store.replay w.log w.agent w.session.resumeFrom = x :: rest from heq] at hsorted
    have hfirst : ∀ y ∈ w.log, y.streamKey = w.agent → w.session.resumeFrom ≤ y.seq →
        y = x ∨ x.seq < y.seq := by
      intro y hy hyk hys
      rcases List.mem_cons.mp (heq ▸ mem_history.mpr ⟨hy, hyk, hys⟩) with rfl | hy
      · exact Or.inl rfl
      · exact Or.inr (List.rel_of_pairwise_cons hsorted hy)
    obtain ⟨-, -, hxs⟩ := mem_history.mp (heq ▸ List.mem_cons_self : x ∈ history w)
    unfold Wants Ahead
    rw [hlog, hagent, hr, hf, hretry', List.mem_append, List.mem_singleton]
    constructor
    · rintro ((he | rfl) | ⟨hopen, hseq, hbefore⟩)
      · exact Or.inl he
      · refine Or.inr ⟨hretry, hxs, ?_⟩
        intro f hf' hfk _ hfs
        rcases hfirst f hf' hfk hfs with rfl | hlt
        · exact le_rfl
        · exact hlt.le
      · refine Or.inr ⟨hretry, by omega, ?_⟩
        intro f hf' hfk hfin hfs
        rcases hfirst f hf' hfk hfs with rfl | hlt
        · simp [hfin] at hopen
        · exact hbefore f hf' hfk hfin hlt
    · rintro (hin | ⟨-, hseq, hbefore⟩)
      · exact Or.inl (Or.inl hin)
      · rcases hfirst e he hkey hseq with rfl | hlt
        · exact Or.inl (Or.inr rfl)
        · refine Or.inr ⟨?_, hlt, fun f hf' hfk hfin hfs => hbefore f hf' hfk hfin (by omega)⟩
          rw [Bool.not_eq_true']
          by_contra hfin
          have hx : x ∈ w.log ∧ x.streamKey = w.agent ∧ _ :=
            mem_history.mp (heq ▸ List.mem_cons_self)
          have := hbefore x hx.1 hx.2.1 (by simpa using hfin) hxs
          omega

/-- The rest of a replay brings what the client wants. -/
theorem replay_brings {rest : List FleetEvent} {last : Nat} (h : Connected w)
    (he : e ∈ w.log) (hkey : e.streamKey = w.agent) (hw : Ahead w e)
    (hconn : w.conn = some (.replaying last rest)) (hrest : history w = rest) :
    ∃ bs u, Machine.run quiet w bs = some u ∧ e ∈ rendered u.session := by
  induction rest generalizing w last with
  | nil => exact absurd (mem_history.mpr ⟨he, hkey, hw.2.1⟩) (hrest ▸ List.not_mem_nil)
  | cons x rest ih =>
    have hstep : ∃ w', quiet w (.yieldHistory true) = some w' ∧
        (w'.session.shouldRetry = true →
          w'.conn = some (.replaying x.seq rest) ∧ history w' = rest) := by
      obtain ⟨-, hf, hretry⟩ := push_new
        (mem_history.mp (hrest ▸ List.mem_cons_self : x ∈ history w)).2.2
      simp only [quiet, World.step, hconn]
      split
      · rename_i hfin
        refine ⟨_, rfl, fun hopen => ?_⟩
        have hclosed := shouldRetry_disconnected.symm.trans hopen
        simp [StreamSession.apply, incoming, hretry, hfin] at hclosed
      · exact ⟨_, rfl, fun _ => ⟨rfl, (congrArg _ hf).trans (replay_tail h.unique hrest)⟩⟩
    obtain ⟨w', hs, hnext⟩ := hstep
    obtain ⟨h', hlog, hagent, -⟩ := quiet_step h hs
    rcases (wants_step h hs he hkey).mpr (Or.inr hw) with hin | hw'
    · exact ⟨[.yieldHistory true], w', by simp [Machine.run, hs], hin⟩
    · obtain ⟨hconn', hrest'⟩ := hnext hw'.1
      obtain ⟨bs, u, hu, hin⟩ := ih h' (hlog ▸ he) (hagent ▸ hkey) hw' hconn' hrest'
      exact ⟨.yieldHistory true :: bs, u, by simpa [Machine.run, hs] using hu, hin⟩

/-- A client that wants an event can be brought it: its connection drops, and the
next reads the history. -/
theorem wants_brings (h : Connected w) (he : e ∈ w.log) (hkey : e.streamKey = w.agent)
    (hw : Wants w e) : ∃ bs u, Machine.run quiet w bs = some u ∧ e ∈ rendered u.session := by
  rcases hw with hin | hw
  · exact ⟨[], w, rfl, hin⟩
  have fresh {v : World} (hv : Connected v) (hlog : v.log = w.log) (hagent : v.agent = w.agent)
      (hwant : Ahead v e) (hconn : v.conn = none) :
      ∃ bs u, Machine.run quiet v bs = some u ∧ e ∈ rendered u.session := by
    have hs : quiet v (.connect true) =
        some { v with conn := some (.replaying (v.session.resumeFrom - 1) (history v)) } := by
      simp only [quiet, World.step, hconn, hwant.1, if_true]
      rfl
    have h' := (quiet_step hv hs).1
    obtain ⟨bs, u, hu, hin⟩ := replay_brings h' (hlog ▸ he) (hagent ▸ hkey) hwant rfl rfl
    exact ⟨.connect true :: bs, u, by simpa [Machine.run, hs] using hu, hin⟩
  cases hconn : w.conn with
  | none => exact fresh h rfl rfl hw hconn
  | some conn =>
    have hs : quiet w .drop = some w.hangUp := by simp only [quiet, World.step, hconn]
    obtain ⟨h', -, -, -⟩ := quiet_step h hs
    rcases (wants_step h hs he hkey).mpr (Or.inr hw) with hin | hw'
    · exact ⟨[.drop], w.hangUp, by simp [Machine.run, hs], hin⟩
    · obtain ⟨bs, u, hu, hin⟩ := fresh h' rfl rfl hw' rfl
      exact ⟨.drop :: bs, u, by simpa [Machine.run, hs] using hu, hin⟩

end Quiet

section Delivery

variable {w : World} {e : FleetEvent}

theorem left_connected (h : (w.log.map FleetEvent.key).Nodup) : Connected (left w) := by
  have hnone : (left w).conn = none := by
    unfold left
    split
    · rfl
    · assumption
  refine ⟨?_, by simp [hnone]⟩
  unfold left
  split <;> exact h

theorem wants_left : Wants (left w) e ↔ Wants w e := by
  unfold left
  split
  · simp [Wants, Ahead, World.hangUp, StreamSession.apply]
  · rfl

/-- The client is on connections of its own, the event stands in the log, and whether
the client wants it is settled. -/
structure Settled (e : FleetEvent) (wanted : Prop) (v : World) : Prop where
  connected : Connected v
  recorded : e ∈ v.log
  stream : e.streamKey = v.agent
  wants : Wants v e ↔ wanted

theorem settled_step {wanted : Prop} {v v' : World} {a : Action} (h : Settled e wanted v)
    (hs : quiet v a = some v') : Settled e wanted v' := by
  obtain ⟨hc, hlog, hagent, -⟩ := quiet_step h.connected hs
  exact ⟨hc, hlog ▸ h.recorded, hagent ▸ h.stream,
    (wants_step h.connected hs h.recorded h.stream).trans h.wants⟩

/-- An event of the log is delivered if and only if the client has it or still
wants it. -/
theorem delivers_iff (h : (w.log.map FleetEvent.key).Nodup) (he : e ∈ w.log)
    (hkey : e.streamKey = w.agent) : Delivers w e ↔ Wants w e := by
  have hstart : Settled e (Wants w e) (left w) := by
    refine ⟨left_connected h, ?_, ?_, wants_left⟩
    · unfold left
      split <;> exact he
    · unfold left
      split <;> exact hkey
  constructor
  · intro hd
    obtain ⟨u, hu, hin⟩ := hd.exists (fun _ _ _ => settled_step) hstart
    exact hu.wants.mp (Or.inl hin)
  · intro hw
    apply Machine.assured_of_invariant (fun _ _ _ => settled_step) _ hstart
    intro v hv
    exact wants_brings hv.connected hv.recorded hv.stream (hv.wants.mpr hw)

end Delivery

section Restart

/-- The connection and the session are no part of the log. -/
theorem step_log {s s' : World} {a : Action} (hs : s.step a = some s') : s'.log = s.log ∨
    (∃ e, a = .append e ∧ Store.append e s.log = .ok s'.log) ∨
    ∃ beforeTs, a = .prune beforeTs ∧ s'.log = s.log.filter (Store.survives beforeTs) := by
  cases a with
  | append e =>
    cases hlog : Store.append e s.log with
    | error why => simp [World.step, hlog, Except.toOption] at hs
    | ok log' =>
      simp only [World.step, hlog, Except.toOption, Option.map_some, Option.some.injEq] at hs
      subst hs
      exact Or.inr (Or.inl ⟨e, rfl, hlog⟩)
  | prune beforeTs =>
    cases hs
    exact Or.inr (Or.inr ⟨beforeTs, rfl, rfl⟩)
  | restart =>
    cases hs
    exact Or.inl rfl
  | recv message readOk =>
    simp only [World.step] at hs
    split at hs
    · obtain ⟨item, -, rfl⟩ := Option.map_eq_some_iff.mp hs
      unfold World.recv
      split <;> exact Or.inl rfl
    · cases hs
  | connect readOk | yieldHistory decoded | send decoded | drop =>
    simp only [World.step] at hs
    split at hs <;> try split at hs
    all_goals first | (cases hs; exact Or.inl rfl) | cases hs

/-- The log's index holds throughout. -/
theorem step_unique {s s' : World} {a : Action} (h : (s.log.map FleetEvent.key).Nodup)
    (hs : s.step a = some s') : (s'.log.map FleetEvent.key).Nodup := by
  rcases step_log hs with heq | ⟨e, -, hlog⟩ | ⟨beforeTs, -, heq⟩
  · exact heq ▸ h
  · exact Store.append_nodup h hlog
  · exact heq ▸ h.sublist (List.filter_sublist.map _)

/-- The events of an agent restarted after an earlier `AgentFinished` are delivered
where the client has been carried past every earlier one, and nowhere else. -/
theorem restarted_events_delivered_iff (log : List FleetEvent) (agent : String)
    (as : List Action) (w : World) (hlog : (log.map FleetEvent.key).Nodup)
    (hr : Machine.run World.step (World.start log agent) as = some w) :
    (∀ e, Latest w e → Delivers w e) ↔
      ∀ e, Latest w e → e ∉ rendered w.session → Ahead w e := by
  have hunique : (w.log.map FleetEvent.key).Nodup :=
    Machine.run_invariant (P := fun w => (w.log.map FleetEvent.key).Nodup)
      (fun _ _ _ => step_unique) hlog hr
  apply forall_congr'
  intro e
  apply forall_congr'
  intro he
  rw [delivers_iff hunique he.1 he.2.1, Wants, or_iff_not_imp_left]

/-- The first two events of agent `a`, which finishes, and those of its restart. -/
def firstRun : List FleetEvent :=
  [⟨1, "1", "r", "a", .output .stdout "one", none, none⟩,
    ⟨2, "2", "r", "a", .agentFinished "done" 0 1, none, none⟩]

def third : FleetEvent := ⟨3, "3", "r", "a", .output .stdout "two", none, none⟩
def fourth : FleetEvent := ⟨4, "4", "r", "a", .output .stdout "three", none, none⟩

/-- A client whose read failed has heard the restarted agent live, and is dropped. -/
def carriedPast : List Action :=
  [.restart, .connect false, .yieldHistory true, .append third, .recv (.durable 2) true,
    .send true, .drop, .append fourth]

theorem carried_past_delivered :
    ∃ w, Machine.run World.step (World.start firstRun "a") carriedPast = some w ∧
      Latest w fourth ∧ Delivers w fourth := by
  have hfourth : fourth ∈ [third, fourth] := List.mem_cons_of_mem _ List.mem_cons_self
  have hold : ∀ f ∈ firstRun ++ [third, fourth], f.kind.isAgentFinished = true → f.seq < 4 := by
    decide
  have hunique : (firstRun.map FleetEvent.key).Nodup := by decide
  refine ⟨_, rfl, ⟨List.mem_append_right firstRun hfourth, rfl, _, rfl, hfourth⟩, ?_⟩
  refine (restarted_events_delivered_iff firstRun "a" carriedPast _ hunique rfl).mpr ?_ fourth
    ⟨List.mem_append_right firstRun hfourth, rfl, _, rfl, hfourth⟩
  rintro e ⟨-, -, es, hes, hin⟩ hnew
  obtain rfl : [third, fourth] = es := Option.some.inj hes
  rcases List.mem_pair.mp hin with rfl | rfl
  · exact absurd List.mem_cons_self hnew
  · exact ⟨rfl, le_refl 4, fun f hf _ hfin hseq => absurd (hold f hf hfin) (not_lt.mpr hseq)⟩

/-- A client that opens the stream of a restarted agent is replayed its first run. -/
theorem restarted_events_unreachable :
    ¬∀ (log : List FleetEvent) (agent : String) (as : List Action) (w : World),
      (log.map FleetEvent.key).Nodup →
      Machine.run World.step (World.start log agent) as = some w →
      ∀ e, Latest w e → Delivers w e := by
  intro h
  have hin : third ∈ firstRun ++ [third] := List.mem_append_right _ List.mem_cons_self
  have hunique : ((firstRun ++ [third]).map FleetEvent.key).Nodup := by decide
  have hlatest := h firstRun "a" [.restart, .append third] _ (by decide) rfl third
    ⟨hin, rfl, _, rfl, List.mem_cons_self⟩
  rcases (delivers_iff hunique hin rfl).mp hlatest with hr | ⟨-, -, hbefore⟩
  · cases hr
  · have hfirst := hbefore _ (List.mem_cons_of_mem _ List.mem_cons_self) rfl rfl (Nat.zero_le _)
    exact absurd hfirst (by decide)

end Restart

end Prospero.Proofs.Dashboard
