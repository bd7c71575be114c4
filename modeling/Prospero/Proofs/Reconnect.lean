import Prospero.Lib.Relay
import Prospero.Proofs.Dashboard
import Prospero.Reconnect

namespace Prospero.Proofs.Reconnect
open Prospero.AgentStream (Tailer)
open Prospero.Dashboard (StreamSession incoming)
open Prospero.Proofs.Dashboard (push_new rendered rendered_disconnected resumeFrom_disconnected
  shouldRetry_disconnected)
open Prospero.Proofs.Store (append_eq_ok append_nodup eq_of_seq mem_replay replay_sorted)
open Prospero.Reconnect

def Terminal (e : FleetEvent) : Prop := e.kind.isAgentFinished = true

/-- The client has rendered the events of the stream that are durable up to its
`last_seq`, in order, none of them past the first `AgentFinished`, and with that one
it has stopped retrying. -/
structure Exact (w : World) : Prop where
  seqs : ∀ n, n ∈ (rendered w.session).map FleetEvent.seq ↔
    (∃ e ∈ w.log, e.streamKey = w.agent ∧ e.seq = n) ∧
      ∃ last, w.session.lastSeq = some last ∧ n ≤ last
  increasing : (rendered w.session).Pairwise fun a b => a.seq < b.seq
  first : ∀ f ∈ w.log, f.streamKey = w.agent → Terminal f → ∀ e ∈ rendered w.session,
    e.seq ≤ f.seq
  closed : ∀ f ∈ rendered w.session, Terminal f → w.session.shouldRetry = false

/-- No event becomes durable behind the client, nor is it overtaken by one that the
connection got hold of before and now brings the client. -/
def InTime (w : World) : Action → Prop
  | .append e => e.streamKey = w.agent → w.session.resumeFrom ≤ e.seq
  | .deliver => ∀ conn, w.conn = some conn → ∀ e taken wire,
      conn.wire = (.event e, taken) :: wire → ∀ f ∈ w.log.drop taken, f.streamKey = w.agent →
      w.session.resumeFrom ≤ f.seq → e.seq ≤ f.seq
  | _ => True

section Session

variable {s : StreamSession}

/-- The last seq rendered. Seqs start at 1. -/
def mark (s : StreamSession) : Nat := s.lastSeq.getD 0

theorem resumeFrom_mark : s.resumeFrom - 1 = mark s ∧ s.resumeFrom ≤ mark s + 1 := by
  unfold mark StreamSession.resumeFrom
  cases s.lastSeq <;> simp

theorem mark_eq {s' : StreamSession} {n : Nat} (h : s'.resumeFrom = n + 1) : mark s' = n := by
  have hmark := (resumeFrom_mark (s := s')).1
  omega

theorem mark_lt {e : FleetEvent} (hpos : 0 < e.seq) : s.resumeFrom ≤ e.seq ↔ mark s < e.seq := by
  have h := resumeFrom_mark (s := s)
  omega

/-- A gap is noted, and nothing else. -/
theorem pushGap_eq (skipped : Nat) : rendered (s.pushGap skipped) = rendered s ∧
    mark (s.pushGap skipped) = mark s ∧ (s.pushGap skipped).shouldRetry = s.shouldRetry := by
  unfold StreamSession.pushGap
  split
  · exact ⟨rfl, rfl, rfl⟩
  · exact ⟨by simp [rendered, Dashboard.Entry.event?], rfl, rfl⟩

end Session

section Heal

/-- The events up to the first terminal one, and that one. -/
def through : List FleetEvent → List FleetEvent
  | [] => []
  | e :: es => if e.kind.isAgentFinished then [e] else e :: through es

theorem through_prefix (es : List FleetEvent) : through es <+: es := by
  induction es with
  | nil => exact List.prefix_rfl
  | cons e es ih =>
    unfold through
    split
    · exact ⟨es, rfl⟩
    · exact (List.prefix_cons_inj e).mpr ih

theorem through_cases (es : List FleetEvent) :
    (∃ pre x, through es = pre ++ [x] ∧ Terminal x ∧ ∀ y ∈ pre, ¬Terminal y) ∨
      through es = es ∧ ∀ y ∈ es, ¬Terminal y := by
  induction es with
  | nil => exact Or.inr ⟨rfl, by simp⟩
  | cons e es ih =>
    unfold through
    split
    · exact Or.inl ⟨[], e, rfl, ‹_›, by simp⟩
    · rename_i hopen
      rcases ih with ⟨pre, x, heq, hx, hpre⟩ | ⟨heq, hes⟩
      · exact Or.inl ⟨e :: pre, x, by rw [heq]; rfl, hx, List.forall_mem_cons.mpr ⟨hopen, hpre⟩⟩
      · exact Or.inr ⟨by rw [heq], List.forall_mem_cons.mpr ⟨hopen, hes⟩⟩

/-- The self-heal brings the events that were read, up to a terminal one. -/
theorem heal_eq {log : List FleetEvent} {on : FleetEvent → Prop} {last : Nat}
    {es : List FleetEvent} (h : Relay.Reads FleetEvent.seq on log last es) (n : Nat) :
    Tailer.heal last es =
      (Relay.endMark FleetEvent.seq last ((through es).map fun e => (e, n)),
        (through es).map .event, (through es).any fun e => e.kind.isAgentFinished) := by
  induction es generalizing last with
  | nil => rfl
  | cons e es ih =>
    have habove : ¬e.seq ≤ last := by
      have hlt := ((h.mem e).mp List.mem_cons_self).2.2
      omega
    unfold Tailer.heal through
    rw [if_neg habove]
    split
    · rename_i hfin
      simp [Relay.endMark, hfin]
    · rename_i hopen
      rw [ih h.tail]
      simp [Relay.endMark, hopen]

/-- What a replay yields is a read of the log as it is. -/
theorem replay_reads {log : List FleetEvent} (agent : String) {fromSeq m : Nat}
    (hunique : (log.map FleetEvent.key).Nodup) (hpos : ∀ e ∈ log, 0 < e.seq)
    (hfloor : fromSeq - 1 = m) (hbelow : fromSeq ≤ m + 1) :
    Relay.Reads FleetEvent.seq (fun e => e.streamKey = agent) log m
      (Store.replay log agent fromSeq) := by
  refine ⟨?_, replay_sorted hunique agent fromSeq⟩
  intro e
  rw [mem_replay]
  constructor
  · intro h
    obtain ⟨hlog, hkey, hseq⟩ := h
    have := hpos e hlog
    exact ⟨hlog, hkey, by omega⟩
  · intro h
    obtain ⟨hlog, hkey, hseq⟩ := h
    exact ⟨hlog, hkey, by omega⟩

end Heal

section Connection

/-- The events among some frames. -/
def events (wire : List (Frame × Nat)) : List (FleetEvent × Nat) :=
  wire.filterMap fun f => f.1.event?.map fun e => (e, f.2)

@[simp] theorem events_append (xs ys : List (Frame × Nat)) :
    events (xs ++ ys) = events xs ++ events ys :=
  List.filterMap_append

@[simp] theorem events_gap (skipped lastSeq n : Nat) (wire : List (Frame × Nat)) :
    events ((.gap skipped lastSeq, n) :: wire) = events wire := rfl

@[simp] theorem events_event (e : FleetEvent) (n : Nat) (wire : List (Frame × Nat)) :
    events ((.event e, n) :: wire) = (e, n) :: events wire := rfl

@[simp] theorem events_nil : events [] = [] := rfl

theorem events_map (es : List FleetEvent) (n : Nat) :
    events ((es.map Frame.event).map fun f => (f, n)) = es.map fun e => (e, n) := by
  induction es with
  | nil => rfl
  | cons e es ih => exact congrArg ((e, n) :: ·) ih

variable (log : List FleetEvent) (agent : String)

abbrev Chain (m : Nat) (xs : List (FleetEvent × Nat)) : Prop :=
  Relay.Chain FleetEvent.seq (fun e => e.streamKey = agent) log m xs

abbrev endMark (m : Nat) (xs : List (FleetEvent × Nat)) : Nat :=
  Relay.endMark FleetEvent.seq m xs

/-- Where the server's side stands, with `out` on its way to a client that has rendered
up to a mark. -/
inductive ServerOk (m : Nat) (out inbox handed : List (FleetEvent × Nat)) (since : Nat) :
    Server → Prop
  | subscribed (fromSeq : Nat) (floor : fromSeq - 1 = m) (below : fromSeq ≤ m + 1)
      (silent : out = []) (fresh : handed = inbox) :
      ServerOk m out inbox handed since (.subscribed fromSeq)
  | replaying (last : Nat) (rest : List FleetEvent) (readAt : Nat)
      (chain : Chain log agent m out) (place : endMark m out = last)
      (reads : Relay.Reads FleetEvent.seq (fun e => e.streamKey = agent) (log.take readAt) last rest)
      (unfinished : ∀ x ∈ out, ¬Terminal x.1) (within : readAt ≤ log.length)
      (after : since ≤ readAt) (fresh : handed = inbox) :
      ServerOk m out inbox handed since (.replaying last rest readAt)
  | tailing (tailer : Tailer) (own : tailer.agentId = agent) (chain : Chain log agent m out)
      (place : endMark m out = tailer.lastDelivered) (unfinished : ∀ x ∈ out, ¬Terminal x.1)
      (old : ∀ f ∈ log.take since, f.streamKey = agent → f.seq ≤ tailer.lastDelivered)
      (gone : List (FleetEvent × Nat)) (taken : handed = gone ++ inbox)
      (passed : ∀ b ∈ gone, b.1.seq ≤ tailer.lastDelivered) :
      ServerOk m out inbox handed since (.tailing tailer)
  | ended (chain : Chain log agent m out) (finished : ∀ x ∈ out.dropLast, ¬Terminal x.1) :
      ServerOk m out inbox handed since .ended

/-- What the bus has handed over: durable events of the stream, in order and with
none left out that became durable on the way. -/
structure BusOk (handed : List (FleetEvent × Nat)) (since : Nat) : Prop where
  sorted : handed.Pairwise fun a b => a.1.seq < b.1.seq
  within : ∀ b ∈ handed, b.2 ≤ log.length
  durable : ∀ b ∈ handed, b.1 ∈ log.take b.2 ∧ b.1.streamKey = agent
  complete : ∀ b ∈ handed, ∀ f ∈ log.take b.2, f.streamKey = agent → f.seq < b.1.seq →
    f ∈ log.take since ∨ ∃ other ∈ handed, other.1 = f
  since : since ≤ log.length

structure ConnOk (m : Nat) (retry : Bool) (conn : Conn) : Prop where
  server : ServerOk log agent m (events conn.wire) conn.inbox conn.handed conn.since conn.server
  bus : BusOk log agent conn.handed conn.since
  done : retry = false → events conn.wire = [] ∧ conn.server = .ended

end Connection

structure Inv (w : World) : Prop where
  unique : (w.log.map FleetEvent.key).Nodup
  positive : ∀ e ∈ w.log, 0 < e.seq
  own : ∀ e ∈ w.log, e.streamKey = w.agent → e.agentId = w.agent
  shown : ∀ e, e ∈ rendered w.session ↔
    e ∈ w.log ∧ e.streamKey = w.agent ∧ e.seq ≤ mark w.session
  increasing : (rendered w.session).Pairwise fun a b => a.seq < b.seq
  finished : ∀ e ∈ rendered w.session, Terminal e →
    e.seq = mark w.session ∧ w.session.shouldRetry = false
  conn : ∀ conn, w.conn = some conn →
    ConnOk w.log w.agent (mark w.session) w.session.shouldRetry conn

theorem Inv.exact {w : World} (h : Inv w) : Exact w := by
  refine ⟨?_, h.increasing, ?_, fun f hf hfin => (h.finished f hf hfin).2⟩
  · intro n
    rw [List.mem_map]
    constructor
    · intro hn
      obtain ⟨e, he, rfl⟩ := hn
      obtain ⟨hlog, hkey, hle⟩ := (h.shown e).mp he
      refine ⟨⟨e, hlog, hkey, rfl⟩, ?_⟩
      have hpos := h.positive e hlog
      unfold mark at hle
      cases hlast : w.session.lastSeq with
      | none =>
        rw [hlast] at hle
        simp only [Option.getD_none] at hle
        omega
      | some last =>
        rw [hlast] at hle
        exact ⟨last, rfl, hle⟩
    · intro hn
      obtain ⟨⟨e, hlog, hkey, rfl⟩, last, hlast, hle⟩ := hn
      refine ⟨e, (h.shown e).mpr ⟨hlog, hkey, ?_⟩, rfl⟩
      rw [mark, hlast]
      exact hle
  · intro f hlog hkey hfin e he
    by_contra hlt
    have hle := ((h.shown e).mp he).2.2
    have hf := (h.shown f).mpr ⟨hlog, hkey, by omega⟩
    have hmark := (h.finished f hf hfin).1
    omega

theorem Inv.start (agent : String) : Inv (World.start agent) := by
  constructor <;> simp [World.start, Dashboard.rendered, StreamSession.new]

section Grow

variable {log : List FleetEvent} {agent : String} {m since : Nat} {conn : Conn} {retry : Bool}
  {out inbox handed : List (FleetEvent × Nat)} {server : Server}

theorem ServerOk.grow (h : ServerOk log agent m out inbox handed since server)
    (hsince : since ≤ log.length) (more : List FleetEvent) :
    ServerOk (log ++ more) agent m out inbox handed since server := by
  cases h with
  | subscribed fromSeq floor below silent fresh =>
    exact .subscribed fromSeq floor below silent fresh
  | replaying last rest readAt chain place reads unfinished within after fresh =>
    have htake : (log ++ more).take readAt = log.take readAt :=
      List.take_append_of_le_length within
    refine .replaying last rest readAt (chain.grow more) place (htake ▸ reads) unfinished ?_
      after fresh
    rw [List.length_append]
    omega
  | tailing tailer own chain place unfinished old gone taken passed =>
    have htake : (log ++ more).take since = log.take since :=
      List.take_append_of_le_length hsince
    exact .tailing tailer own (chain.grow more) place unfinished (htake ▸ old) gone taken passed
  | ended chain finished => exact .ended (chain.grow more) finished

theorem BusOk.grow (h : BusOk log agent handed since) (more : List FleetEvent) :
    BusOk (log ++ more) agent handed since := by
  have htake : ∀ n ≤ log.length, (log ++ more).take n = log.take n :=
    fun n hn => List.take_append_of_le_length hn
  refine ⟨h.sorted, ?_, ?_, ?_, ?_⟩
  · intro b hb
    have := h.within b hb
    rw [List.length_append]
    omega
  · intro b hb
    rw [htake _ (h.within b hb)]
    exact h.durable b hb
  · intro b hb
    rw [htake _ (h.within b hb), htake _ h.since]
    exact h.complete b hb
  · have := h.since
    rw [List.length_append]
    omega

theorem ConnOk.grow (h : ConnOk log agent m retry conn) (more : List FleetEvent) :
    ConnOk (log ++ more) agent m retry conn :=
  ⟨h.server.grow h.bus.since more, h.bus.grow more, h.done⟩

end Grow

section Step

variable {w w' : World} {conn : Conn} {e : FleetEvent}

/-- An event has become durable, not behind the client. -/
theorem Inv.append {log : List FleetEvent} (h : Inv w) (hform : w.wellFormed e = true)
    (hok : InTime w (.append e)) (hlog : Store.append e w.log = .ok log) :
    Inv { w with log := log } := by
  obtain ⟨-, rfl⟩ := append_eq_ok.mp hlog
  simp only [World.wellFormed, Bool.and_eq_true, Bool.or_eq_true, decide_eq_true_eq] at hform
  obtain ⟨hpos, hown⟩ := hform
  refine ⟨append_nodup h.unique hlog, ?_, ?_, ?_, h.increasing, h.finished,
    fun conn hconn => (h.conn conn hconn).grow [e]⟩
  · intro x hx
    rcases List.mem_append.mp hx with hx | hx
    · exact h.positive x hx
    · rw [List.mem_singleton.mp hx]
      exact hpos
  · intro x hx hkey
    rcases List.mem_append.mp hx with hx | hx
    · exact h.own x hx hkey
    · rw [List.mem_singleton.mp hx] at hkey ⊢
      exact hown.resolve_left fun hne => hne hkey
  · intro x
    rw [h.shown, List.mem_append, List.mem_singleton]
    constructor
    · intro hx
      exact ⟨Or.inl hx.1, hx.2⟩
    · intro hx
      obtain ⟨hx | rfl, hkey, hle⟩ := hx
      · exact ⟨hx, hkey, hle⟩
      · have hlt := (mark_lt hpos).mp (hok hkey)
        exact absurd hle (not_le.mpr hlt)

theorem Inv.hangUp (h : Inv w) : Inv w.hangUp := by
  have hmark : mark w.session.disconnected = mark w.session := by
    unfold StreamSession.disconnected
    split <;> rfl
  refine ⟨h.unique, h.positive, h.own, ?_, ?_, ?_, nofun⟩
  · simp only [World.hangUp, StreamSession.apply, rendered_disconnected, hmark]
    exact h.shown
  · simp only [World.hangUp, StreamSession.apply, rendered_disconnected]
    exact h.increasing
  · simp only [World.hangUp, StreamSession.apply, rendered_disconnected, hmark,
      shouldRetry_disconnected]
    exact h.finished

/-- Only the connection is another. -/
theorem Inv.reconnected (h : Inv w)
    (hconn : ConnOk w.log w.agent (mark w.session) w.session.shouldRetry conn) :
    Inv { w with conn := some conn } := by
  refine ⟨h.unique, h.positive, h.own, h.shown, h.increasing, h.finished, ?_⟩
  intro other heq
  cases heq
  exact hconn

theorem Inv.connect (h : Inv w) (hretry : w.session.shouldRetry = true) :
    Inv { w with conn := some (⟨.subscribed w.session.resumeFrom, [], [], [], w.log.length⟩) } := by
  obtain ⟨hfloor, hbelow⟩ := resumeFrom_mark (s := w.session)
  refine h.reconnected ⟨.subscribed _ hfloor hbelow rfl rfl, ?_, ?_⟩
  · exact ⟨List.Pairwise.nil, by simp, by simp, by simp, le_rfl⟩
  · simp [hretry]

/-- The bus hands over an event of the stream that is durable. -/
theorem BusOk.hand (h : BusOk w.log w.agent conn.handed conn.since)
    (hunique : (w.log.map FleetEvent.key).Nodup) (he : e ∈ w.log)
    (horder : w.inOrder conn e = true) :
    BusOk w.log w.agent (conn.handed ++ [(e, w.log.length)]) conn.since := by
  simp only [World.inOrder, Bool.and_eq_true, List.all_eq_true, decide_eq_true_eq,
    Bool.or_eq_true, List.any_eq_true] at horder
  obtain ⟨⟨hkey, habove⟩, hcomplete⟩ := horder
  have hdurable : ∀ b ∈ conn.handed, b.1 ∈ w.log ∧ b.1.streamKey = w.agent := by
    intro b hb
    exact ⟨List.mem_of_mem_take (h.durable b hb).1, (h.durable b hb).2⟩
  refine ⟨?_, ?_, ?_, ?_, h.since⟩
  · refine List.pairwise_append.mpr ⟨h.sorted, List.pairwise_singleton _ _, ?_⟩
    intro a ha b hb
    rw [List.mem_singleton.mp hb]
    exact habove a ha
  · intro b hb
    rcases List.mem_append.mp hb with hb | hb
    · exact h.within b hb
    · rw [List.mem_singleton.mp hb]
  · intro b hb
    rcases List.mem_append.mp hb with hb | hb
    · exact h.durable b hb
    · rw [List.mem_singleton.mp hb, List.take_length]
      exact ⟨he, hkey⟩
  · intro b hb f hf hfkey hlt
    rcases List.mem_append.mp hb with hb | hb
    · exact (h.complete b hb f hf hfkey hlt).imp_right fun ⟨other, hother, heq⟩ =>
        ⟨other, List.mem_append_left _ hother, heq⟩
    · rw [List.mem_singleton.mp hb] at hf hlt
      rw [List.take_length, ← List.take_append_drop conn.since w.log] at hf
      rcases List.mem_append.mp hf with hold | hnew
      · exact Or.inl hold
      · rcases hcomplete f hnew with (hne | hle) | ⟨other, hother, hseq⟩
        · exact absurd hfkey hne
        · exact absurd hle (not_le.mpr hlt)
        · refine Or.inr ⟨other, List.mem_append_left _ hother, ?_⟩
          obtain ⟨hlog, hother⟩ := hdurable other hother
          exact eq_of_seq hunique hlog (List.mem_of_mem_drop hnew) (hother.trans hfkey.symm) hseq

theorem ServerOk.hand {log : List FleetEvent} {agent : String} {m since : Nat}
    {out inbox handed : List (FleetEvent × Nat)} {server : Server}
    (h : ServerOk log agent m out inbox handed since server) (b : FleetEvent × Nat) :
    ServerOk log agent m out (inbox ++ [b]) (handed ++ [b]) since server := by
  cases h with
  | subscribed fromSeq floor below silent fresh =>
    exact .subscribed fromSeq floor below silent (by rw [fresh])
  | replaying last rest readAt chain place reads unfinished within after fresh =>
    exact .replaying last rest readAt chain place reads unfinished within after (by rw [fresh])
  | tailing tailer own chain place unfinished old gone taken passed =>
    exact .tailing tailer own chain place unfinished old gone
      (by rw [taken, List.append_assoc]) passed
  | ended chain finished => exact .ended chain finished

theorem Inv.hand (h : Inv w) (hconn : w.conn = some conn) (he : e ∈ w.log)
    (horder : w.inOrder conn e = true) :
    Inv { w with conn := some { conn with
      inbox := conn.inbox ++ [(e, w.log.length)]
      handed := conn.handed ++ [(e, w.log.length)] } } := by
  have hok := h.conn conn hconn
  exact h.reconnected ⟨hok.server.hand _, hok.bus.hand h.unique he horder, hok.done⟩

variable {wire : List (Frame × Nat)} {inbox handed : List (FleetEvent × Nat)} {since : Nat}

/-- The server's side goes on while the client still retries. -/
theorem Inv.advanced {server server' : Server} {wire' : List (Frame × Nat)}
    {inbox' : List (FleetEvent × Nat)} (h : Inv w)
    (hconn : w.conn = some ⟨server, inbox, wire, handed, since⟩) (hopen : server ≠ .ended)
    (hserver : ServerOk w.log w.agent (mark w.session) (events wire') inbox' handed since server') :
    Inv { w with conn := some ⟨server', inbox', wire', handed, since⟩ } := by
  have hok := h.conn _ hconn
  exact h.reconnected ⟨hserver, hok.bus, fun hretry => absurd (hok.done hretry).2 hopen⟩

theorem Inv.readHistory {fromSeq : Nat} (h : Inv w)
    (hconn : w.conn = some ⟨.subscribed fromSeq, inbox, wire, handed, since⟩) :
    Inv { w with conn := some (⟨.replaying (fromSeq - 1)
      (Store.replay w.log w.agent fromSeq) w.log.length, inbox, wire, handed, since⟩) } := by
  apply h.advanced hconn (by simp)
  have hbus := (h.conn _ hconn).bus
  cases (h.conn _ hconn).server with
  | subscribed fromSeq floor below silent fresh =>
    have hreads := replay_reads w.agent h.unique h.positive floor below
    rw [show events wire = [] from silent]
    refine .replaying _ _ _ trivial floor.symm ?_ (by simp) le_rfl hbus.since fresh
    rw [List.take_length, floor]
    exact hreads

/-- What was read is gapless in the log as it has become. -/
theorem next_of_reads {log : List FleetEvent} {on : FleetEvent → Prop} {last readAt : Nat}
    {rest : List FleetEvent} (hwithin : readAt ≤ log.length)
    (h : Relay.Reads FleetEvent.seq on (log.take readAt) last (e :: rest)) :
    Relay.Next FleetEvent.seq on log last e readAt := by
  have hnext := h.next.grow (log.drop readAt)
  rwa [List.take_append_drop, List.length_take, min_eq_left hwithin] at hnext

theorem Inv.yieldHistory {last readAt : Nat} {rest : List FleetEvent} (h : Inv w)
    (hconn : w.conn = some ⟨.replaying last (e :: rest) readAt, inbox, wire, handed, since⟩) :
    Inv { w with conn := some (⟨if e.kind.isAgentFinished then .ended
      else .replaying e.seq rest readAt, inbox, wire ++ [(.event e, readAt)], handed, since⟩) } := by
  apply h.advanced hconn (by simp)
  cases (h.conn _ hconn).server with
  | replaying last rest readAt chain place reads unfinished within after fresh =>
    have hnext := next_of_reads within reads
    rw [← place] at hnext
    have hchain := Relay.chain_snoc chain hnext
    rw [events_append]
    split
    · refine .ended hchain ?_
      rw [events_event, events_nil, List.dropLast_concat]
      exact unfinished
    · rename_i hopen
      refine .replaying _ _ _ hchain (by simp [Relay.endMark]) reads.tail ?_ within after fresh
      intro x hx
      rcases List.mem_append.mp hx with hx | hx
      · exact unfinished x hx
      · rw [List.mem_singleton.mp hx]
        exact hopen

theorem Inv.tailFrom {last readAt : Nat} (h : Inv w)
    (hconn : w.conn = some ⟨.replaying last [] readAt, inbox, wire, handed, since⟩) :
    Inv { w with conn := some (⟨.tailing ⟨w.agent, last⟩, inbox, wire, handed, since⟩) } := by
  apply h.advanced hconn (by simp)
  cases (h.conn _ hconn).server with
  | replaying last rest readAt chain place reads unfinished within after fresh =>
    refine .tailing _ rfl chain place unfinished ?_ [] fresh (by simp)
    intro f hf hkey
    by_contra hlt
    have hread : f ∈ w.log.take readAt := List.take_subset_take_left _ after hf
    exact absurd ((reads.mem f).mpr ⟨hread, hkey, not_le.mp hlt⟩) (by simp)

/-- The next event that the bus hands over, past the mark, leaves out none. -/
theorem next_handed {tailer : Tailer} {n : Nat} {gone : List (FleetEvent × Nat)}
    (hbus : BusOk w.log w.agent handed since) (htaken : handed = gone ++ (e, n) :: inbox)
    (hold : ∀ f ∈ w.log.take since, f.streamKey = w.agent → f.seq ≤ tailer.lastDelivered)
    (hpassed : ∀ b ∈ gone, b.1.seq ≤ tailer.lastDelivered) (hlt : tailer.lastDelivered < e.seq) :
    Relay.Next FleetEvent.seq (fun f => f.streamKey = w.agent) w.log tailer.lastDelivered e n := by
  have he : (e, n) ∈ handed := by simp [htaken]
  obtain ⟨hlog, hkey⟩ := hbus.durable _ he
  refine ⟨hlt, hlog, hkey, hbus.within _ he, ?_⟩
  intro f hf hfkey hfe
  rcases hbus.complete _ he f hf hfkey hfe with hold' | ⟨other, hother, rfl⟩
  · exact hold f hold' hfkey
  · rw [htaken] at hother
    rcases List.mem_append.mp hother with hgone | hlater
    · exact hpassed other hgone
    · have hsorted := hbus.sorted
      rw [htaken] at hsorted
      have hafter := (List.pairwise_append.mp hsorted).2.1
      rcases List.mem_cons.mp hlater with rfl | hlater
      · exact absurd hfe (lt_irrefl _)
      · exact absurd ((List.pairwise_cons.mp hafter).1 other hlater) (lt_asymm hfe)

theorem Inv.recv {tailer : Tailer} {n : Nat} (h : Inv w)
    (hconn : w.conn = some ⟨.tailing tailer, (e, n) :: inbox, wire, handed, since⟩) :
    Inv (w.tail ⟨.tailing tailer, inbox, wire, handed, since⟩ tailer (some (.event e)) n) := by
  have hbus := (h.conn _ hconn).bus
  cases (h.conn _ hconn).server with
  | tailing tailer own chain place unfinished old gone taken passed =>
    have he : (e, n) ∈ handed := by simp [show handed = gone ++ (e, n) :: inbox from taken]
    obtain ⟨hlog, hkey⟩ := hbus.durable _ he
    have hid : e.agentId = tailer.agentId := by
      rw [own]
      exact h.own e (List.mem_of_mem_take hlog) hkey
    have htaken : handed = (gone ++ [(e, n)]) ++ inbox := by
      rw [List.append_assoc]
      exact taken
    by_cases hlt : tailer.lastDelivered < e.seq
    · have hnext := next_handed hbus taken old passed hlt
      rw [← place] at hnext
      have hchain := Relay.chain_snoc chain hnext
      cases hfin : e.kind.isAgentFinished with
      | true =>
        simp only [World.tail, Tailer.onRecv, hid, hlt, hfin, and_self, if_true]
        refine h.advanced hconn (by simp) ?_
        rw [events_append]
        refine .ended hchain ?_
        rw [List.map_cons, List.map_nil, events_event, events_nil, List.dropLast_concat]
        exact unfinished
      | false =>
        simp only [World.tail, Tailer.onRecv, hid, hlt, hfin, and_self, if_true]
        refine h.advanced hconn (by simp) ?_
        rw [events_append]
        refine .tailing _ own hchain (by simp [Relay.endMark]) ?_ ?_ _ htaken ?_
        · intro x hx
          rcases List.mem_append.mp hx with hx | hx
          · exact unfinished x hx
          · rw [List.mem_singleton.mp hx]
            simp [Terminal, hfin]
        · exact fun f hf hfkey => (old f hf hfkey).trans hlt.le
        · intro b hb
          rcases List.mem_append.mp hb with hb | hb
          · exact (passed b hb).trans hlt.le
          · rw [List.mem_singleton.mp hb]
    · simp only [World.tail, Tailer.onRecv, hid, hlt, and_false, if_false]
      refine h.advanced hconn (by simp) (.tailing _ own chain place unfinished old _ htaken ?_)
      intro b hb
      rcases List.mem_append.mp hb with hb | hb
      · exact passed b hb
      · rw [List.mem_singleton.mp hb]
        exact not_lt.mp hlt

theorem Inv.lag {tailer : Tailer} {skipped dropped : Nat} (h : Inv w)
    (hconn : w.conn = some ⟨.tailing tailer, inbox, wire, handed, since⟩) :
    Inv (w.tail ⟨.tailing tailer, inbox.drop dropped, wire, handed, since⟩ tailer
      (some (.lagged skipped)) w.log.length) := by
  have hbus := (h.conn _ hconn).bus
  cases (h.conn _ hconn).server with
  | tailing tailer own chain place unfinished old gone taken passed =>
    have hreads := replay_reads w.agent h.unique h.positive
      (Nat.add_sub_cancel tailer.lastDelivered 1) le_rfl
    have hchain := hreads.chain
    generalize hes : Store.replay w.log w.agent (tailer.lastDelivered + 1) = es at hreads hchain
    obtain ⟨later, hlater⟩ := through_prefix es
    have hplace : Relay.endMark FleetEvent.seq (mark w.session) (events wire) =
        tailer.lastDelivered := place
    have hpass : Chain w.log w.agent (mark w.session)
        (events wire ++ (through es).map fun x => (x, w.log.length)) := by
      rw [← hlater, List.map_append, ← hplace] at hchain
      exact Relay.chain_append.mpr ⟨chain, (Relay.chain_append.mp hchain).1⟩
    simp only [World.tail, Tailer.onRecv, own, hes, heal_eq hreads w.log.length]
    rcases through_cases es with ⟨pre, x, heq, hx, hpre⟩ | ⟨heq, hopen⟩
    · have hfin : ((through es).any fun e => e.kind.isAgentFinished) = true := by
        rw [heq, List.any_append]
        simp [show x.kind.isAgentFinished = true from hx]
      simp only [hfin, if_true]
      refine h.advanced hconn (by simp) ?_
      rw [events_append, List.map_cons, events_gap, events_map]
      refine .ended hpass ?_
      rw [heq, List.map_append, List.map_singleton, ← List.append_assoc, List.dropLast_concat]
      intro y hy
      rcases List.mem_append.mp hy with hy | hy
      · exact unfinished y hy
      · obtain ⟨z, hz, rfl⟩ := List.mem_map.mp hy
        exact hpre z hz
    · have hfin : ((through es).any fun e => e.kind.isAgentFinished) = false := by
        rw [heq]
        simpa [Terminal] using hopen
      simp only [hfin, Bool.false_eq_true, if_false]
      refine h.advanced hconn (by simp) ?_
      rw [events_append, List.map_cons, events_gap, events_map]
      rw [heq] at hpass ⊢
      have hcover := hreads.cover (n := w.log.length)
      refine .tailing _ rfl hpass (by rw [endMark, Relay.endMark_append, hplace]) ?_ ?_
        (gone ++ inbox.take dropped) ?_ ?_
      · intro y hy
        rcases List.mem_append.mp hy with hy | hy
        · exact unfinished y hy
        · obtain ⟨z, hz, rfl⟩ := List.mem_map.mp hy
          exact hopen z hz
      · exact fun f hf hfkey => hcover f (List.mem_of_mem_take hf) hfkey
      · rw [List.append_assoc, List.take_append_drop]
        exact taken
      · intro b hb
        have hb' : b ∈ handed := by
          rw [show handed = gone ++ inbox from taken]
          rcases List.mem_append.mp hb with hb | hb
          · exact List.mem_append_left _ hb
          · exact List.mem_append_right _ (List.mem_of_mem_take hb)
        obtain ⟨hlog, hkey⟩ := hbus.durable b hb'
        exact hcover b.1 (List.mem_of_mem_take hlog) hkey

theorem Inv.busClosed {tailer : Tailer} (h : Inv w)
    (hconn : w.conn = some ⟨.tailing tailer, [], wire, handed, since⟩) :
    Inv (w.tail ⟨.tailing tailer, [], wire, handed, since⟩ tailer none w.log.length) := by
  refine h.advanced hconn (by simp) ?_
  cases (h.conn _ hconn).server with
  | tailing tailer own chain place unfinished old gone taken passed =>
    exact .ended chain fun x hx => unfinished x (List.dropLast_subset _ hx)

/-- A gap reaches the client. -/
theorem Inv.deliverGap {server : Server} {skipped lastSeq n : Nat} (h : Inv w)
    (hconn : w.conn = some ⟨server, inbox, (.gap skipped lastSeq, n) :: wire, handed, since⟩) :
    Inv { w with
      session := w.session.apply (incoming (.gap skipped lastSeq) true)
      conn := some ⟨server, inbox, wire, handed, since⟩ } := by
  have hok := h.conn _ hconn
  obtain ⟨hr, hm, hretry⟩ := pushGap_eq (s := w.session) skipped
  simp only [incoming, StreamSession.apply]
  refine ⟨h.unique, h.positive, h.own, ?_, ?_, ?_, ?_⟩
  · simp only [hr, hm]
    exact h.shown
  · simp only [hr]
    exact h.increasing
  · simp only [hr, hm, hretry]
    exact h.finished
  · intro conn heq
    cases heq
    simp only [hm, hretry]
    exact ⟨hok.server, hok.bus, hok.done⟩

/-- The event at the head of the wire is past the client's mark, and what it follows. -/
theorem ServerOk.head {log : List FleetEvent} {agent : String} {m n : Nat} {server : Server}
    {out : List (FleetEvent × Nat)}
    (h : ServerOk log agent m ((e, n) :: out) inbox handed since server) :
    Relay.Next FleetEvent.seq (fun f => f.streamKey = agent) log m e n ∧
      (Terminal e → out = [] ∧ server = .ended) ∧
      ServerOk log agent e.seq out inbox handed since server := by
  cases h with
  | subscribed fromSeq floor below silent fresh => cases silent
  | replaying last rest readAt chain place reads unfinished within after fresh =>
    obtain ⟨hopen, hrest⟩ := List.forall_mem_cons.mp unfinished
    exact ⟨chain.1, fun hfin => absurd hfin hopen,
      .replaying last rest readAt chain.2 place reads hrest within after fresh⟩
  | tailing tailer own chain place unfinished old gone taken passed =>
    obtain ⟨hopen, hrest⟩ := List.forall_mem_cons.mp unfinished
    exact ⟨chain.1, fun hfin => absurd hfin hopen,
      .tailing tailer own chain.2 place hrest old gone taken passed⟩
  | ended chain finished =>
    cases out with
    | nil => exact ⟨chain.1, fun _ => ⟨rfl, rfl⟩, .ended chain.2 (by simp)⟩
    | cons x out =>
      rw [List.dropLast_cons_of_ne_nil (List.cons_ne_nil x out)] at finished
      obtain ⟨hopen, hrest⟩ := List.forall_mem_cons.mp finished
      exact ⟨chain.1, fun hfin => absurd hfin hopen, .ended chain.2 hrest⟩

/-- An event reaches the client, and none has become durable before it meanwhile. -/
theorem Inv.deliverEvent {server : Server} {n : Nat} (h : Inv w)
    (hconn : w.conn = some ⟨server, inbox, (.event e, n) :: wire, handed, since⟩)
    (hok : InTime w .deliver) :
    Inv { w with
      session := w.session.apply (incoming (.event e) true)
      conn := some ⟨server, inbox, wire, handed, since⟩ } := by
  obtain ⟨hserver, hbus, hdone⟩ := h.conn _ hconn
  obtain ⟨hnext, hlast, hserver'⟩ := hserver.head
  have hlog : e ∈ w.log := List.mem_of_mem_take hnext.taken
  have hretry : w.session.shouldRetry = true := by
    by_contra hclosed
    cases (hdone (by simpa using hclosed)).1
  obtain ⟨hr, hf, hretry'⟩ := push_new ((mark_lt (h.positive e hlog)).mpr hnext.above)
  have hm := mark_eq hf
  simp only [incoming, StreamSession.apply]
  refine ⟨h.unique, h.positive, h.own, ?_, ?_, ?_, ?_⟩
  · intro x
    simp only [hr, hm, List.mem_append, List.mem_singleton]
    constructor
    · intro hx
      rcases hx with hx | rfl
      · obtain ⟨hx, hkey, hle⟩ := (h.shown x).mp hx
        exact ⟨hx, hkey, hle.trans hnext.above.le⟩
      · exact ⟨hlog, hnext.stream, le_rfl⟩
    · intro hx
      obtain ⟨hx, hkey, hle⟩ := hx
      rcases Nat.lt_or_eq_of_le hle with hlt | heq
      · refine Or.inl ((h.shown x).mpr ⟨hx, hkey, ?_⟩)
        by_contra hpast
        rw [← List.take_append_drop n w.log] at hx
        -- an event between was durable when the connection got hold of this one, or is late
        rcases List.mem_append.mp hx with hbefore | hlate
        · exact hpast (hnext.gapless x hbefore hkey hlt)
        · have hpos := h.positive x (List.mem_of_mem_drop hlate)
          have hbehind := hok _ hconn e n wire rfl x hlate hkey
            ((mark_lt hpos).mpr (not_le.mp hpast))
          exact absurd hbehind (not_le.mpr hlt)
      · exact Or.inr (eq_of_seq h.unique hx hlog (hkey.trans hnext.stream.symm) heq)
  · simp only [hr]
    refine List.pairwise_append.mpr ⟨h.increasing, List.pairwise_singleton _ _, ?_⟩
    intro a ha b hb
    rw [List.mem_singleton.mp hb]
    exact lt_of_le_of_lt ((h.shown a).mp ha).2.2 hnext.above
  · intro x hx hfin
    simp only [hr, hm, hretry'] at hx ⊢
    rcases List.mem_append.mp hx with hx | hx
    · rw [(h.finished x hx hfin).2] at hretry
      cases hretry
    · cases List.mem_singleton.mp hx
      exact ⟨rfl, by rw [hfin]; rfl⟩
  · intro conn heq
    cases heq
    simp only [hm, hretry']
    refine ⟨hserver', hbus, ?_⟩
    intro hfin
    exact hlast (by simpa [Terminal] using hfin)

theorem Inv.step {a : Action} (h : Inv w) (hok : InTime w a) (hs : w.step a = some w') :
    Inv w' := by
  cases a with
  | append e =>
    simp only [World.step] at hs
    split at hs
    · rename_i hform
      cases hlog : Store.append e w.log with
      | error why => simp [hlog, Except.toOption] at hs
      | ok log =>
        simp only [hlog, Except.toOption, Option.map_some, Option.some.injEq] at hs
        subst hs
        exact h.append hform hok hlog
    · cases hs
  | hand place =>
    simp only [World.step] at hs
    split at hs
    · rename_i conn e hconn he
      split at hs <;> cases hs
      exact h.hand hconn (List.mem_of_getElem? he) ‹_›
    · cases hs
  | lag skipped dropped =>
    simp only [World.step] at hs
    split at hs
    · split at hs <;> cases hs
      exact h.lag ‹_›
    · cases hs
  | connect =>
    simp only [World.step] at hs
    split at hs
    · split at hs <;> cases hs
      exact h.connect ‹_›
    · cases hs
  | readHistory =>
    simp only [World.step] at hs
    split at hs <;> cases hs
    exact h.readHistory ‹_›
  | yieldHistory =>
    simp only [World.step] at hs
    split at hs
    · cases hs
      exact h.yieldHistory ‹_›
    · cases hs
      exact h.tailFrom ‹_›
    · cases hs
  | recv =>
    simp only [World.step] at hs
    split at hs <;> cases hs
    exact h.recv ‹_›
  | busClosed =>
    simp only [World.step] at hs
    split at hs <;> cases hs
    exact h.busClosed ‹_›
  | deliver =>
    simp only [World.step] at hs
    split at hs
    · rename_i server inbox frame n wire handed since hconn
      cases hs
      cases frame with
      | event e => exact h.deliverEvent hconn hok
      | gap skipped lastSeq => exact h.deliverGap hconn
    · cases hs
      exact h.hangUp
    · cases hs
  | drop =>
    simp only [World.step] at hs
    split at hs <;> cases hs
    exact h.hangUp

/-- An event that is late is one that the client has gone past without it. -/
theorem Inv.leave {a : Action} (h : Inv w) (hlate : ¬InTime w a) (hs : w.step a = some w') :
    ¬Exact w' := by
  intro hexact
  cases a with
  | append e =>
    simp only [InTime, Classical.not_imp, not_le] at hlate
    obtain ⟨hkey, hlt⟩ := hlate
    simp only [World.step] at hs
    split at hs
    · cases hlog : Store.append e w.log with
      | error why => simp [hlog, Except.toOption] at hs
      | ok log =>
        simp only [hlog, Except.toOption, Option.map_some, Option.some.injEq] at hs
        subst hs
        obtain ⟨hfresh, rfl⟩ := append_eq_ok.mp hlog
        cases hlast : w.session.lastSeq with
        | none => simp [StreamSession.resumeFrom, hlast] at hlt
        | some last =>
          simp only [StreamSession.resumeFrom, hlast] at hlt
          have hin := (hexact.seqs e.seq).mpr
            ⟨⟨e, List.mem_append_right _ List.mem_cons_self, hkey, rfl⟩, last, hlast, by omega⟩
          obtain ⟨x, hx, hseq⟩ := List.mem_map.mp hin
          obtain ⟨hxlog, hxkey, -⟩ := (h.shown x).mp hx
          exact hfresh (List.mem_map.mpr ⟨x, hxlog, Prod.ext (hxkey.trans hkey.symm) hseq⟩)
    · cases hs
  | deliver =>
    simp only [InTime, not_forall, not_le] at hlate
    obtain ⟨conn, hconn, e, n, wire, hwire, f, hf, hkey, hpast, hlt⟩ := hlate
    obtain ⟨server, inbox, wire', handed, since⟩ := conn
    cases hwire
    obtain ⟨hnext, -, -⟩ := (h.conn _ hconn).server.head
    have hlog : e ∈ w.log := List.mem_of_mem_take hnext.taken
    have hflog : f ∈ w.log := List.mem_of_mem_drop hf
    obtain ⟨hr, hresume, -⟩ := push_new ((mark_lt (h.positive e hlog)).mpr hnext.above)
    simp only [World.step, hconn, Option.some.injEq] at hs
    subst hs
    have hin := (hexact.seqs f.seq).mpr ⟨⟨f, hflog, hkey, rfl⟩, e.seq, ?_, hlt.le⟩
    · obtain ⟨x, hx, hseq⟩ := List.mem_map.mp hin
      simp only [incoming, StreamSession.apply, hr] at hx
      have hmark := (mark_lt (h.positive f hflog)).mp hpast
      rcases List.mem_append.mp hx with hx | hx
      · have hle := ((h.shown x).mp hx).2.2
        omega
      · rw [List.mem_singleton.mp hx] at hseq
        omega
    · simp only [incoming, StreamSession.apply]
      cases hlast : (w.session.push e).lastSeq with
      | none => simp [StreamSession.resumeFrom, hlast] at hresume
      | some last =>
        simp only [StreamSession.resumeFrom, hlast] at hresume
        exact congrArg some (by omega)
  | hand | lag | connect | readHistory | yieldHistory | recv | busClosed | drop =>
    exact hlate trivial

end Step

/-- A reconnecting client shows exactly the log up to its `last_seq` throughout a run
if and only if no event becomes durable late: behind the client, or behind one that a
connection already had and brings it. -/
theorem reconnecting_client_iff (agent : String) (as : List Action) (w : World)
    (hr : Machine.run World.step (World.start agent) as = some w) :
    Machine.Always World.step Exact (World.start agent) as ↔
      Machine.Steps World.step InTime (World.start agent) as :=
  Machine.always_iff_steps (fun _ => Inv.exact) (fun _ _ _ h hok hs => h.step hok hs)
    (fun _ _ _ h hlate hs => h.leave hlate hs) (Inv.start agent) hr

/-- An output of agent `a`. -/
def output (seq : Nat) : FleetEvent := ⟨seq, "1", "r", "a", .output .stdout "x", none, none⟩

/-- The client is replayed an event, its connection drops, and the next brings another. -/
def droppedOnce : List Action :=
  [.append (output 1), .connect, .readHistory, .yieldHistory, .deliver, .drop, .append (output 2),
    .connect, .readHistory, .yieldHistory, .deliver]

theorem dropped_client_exact : Machine.Always World.step Exact (World.start "a") droppedOnce := by
  have hread : ∀ {w : World} {conn : Conn} {e : FleetEvent} {n : Nat} {wire : List (Frame × Nat)},
      w.conn = some conn → conn.wire = (.event e, n) :: wire → w.log.drop n = [] →
      InTime w .deliver := by
    intro w conn e n wire hconn hwire hlate conn' hconn' e' n' wire' hwire' f hf
    cases hconn.symm.trans hconn'
    cases hwire.symm.trans hwire'
    rw [hlate] at hf
    cases hf
  refine (reconnecting_client_iff "a" droppedOnce _ rfl).mpr ?_
  refine Machine.steps_cons (fun _ => Nat.zero_le _) rfl ?_
  iterate 3 refine Machine.steps_cons trivial rfl ?_
  refine Machine.steps_cons (hread rfl rfl rfl) rfl ?_
  refine Machine.steps_cons trivial rfl ?_
  refine Machine.steps_cons (fun _ => le_rfl) rfl ?_
  iterate 3 refine Machine.steps_cons trivial rfl ?_
  exact Machine.steps_cons (hread rfl rfl rfl) rfl trivial

/-- Of two events that are written at a time, the second is durable first and read by a
client that connects. The bus then hands over both in order. -/
def overtaken : List Action :=
  [.append (output 1), .append (output 3), .connect, .readHistory, .yieldHistory, .yieldHistory,
    .yieldHistory, .deliver, .deliver, .append (output 2), .hand 2, .recv, .hand 1, .recv]

theorem overtaken_event_missed : ¬∀ (agent : String) (as : List Action) (w : World),
    Machine.run World.step (World.start agent) as = some w →
    Machine.Always World.step Exact (World.start agent) as := by
  intro h
  have hexact := Machine.always_end (h "a" overtaken _ rfl) rfl
  have hin := (hexact.seqs 2).mpr ⟨⟨output 2, List.mem_cons_of_mem _ (List.mem_cons_of_mem _
    List.mem_cons_self), rfl, rfl⟩, 3, rfl, by decide⟩
  exact absurd (show 2 ∈ [1, 3] from hin) (by decide)

end Prospero.Proofs.Reconnect
