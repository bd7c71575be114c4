import Mathlib.Data.List.DropRight
import Prospero.ControlWire
import Prospero.Lib.Machine
import Prospero.Proofs.Routing
import Prospero.Proofs.TokensFile

namespace Prospero.Proofs.ControlWire
open Prospero.ControlWire
open Prospero.Attach (trimEnd)

section Bytes

variable {buf line later p : List UInt8} {text s : String}

theorem readLine_line (h : 10 ∉ line) (later : List UInt8) :
    readLine (line ++ 10 :: later) = some (line ++ [10]) := by
  rw [readLine, Lines.split_line h]

theorem readLine_eq_none (h : 10 ∉ buf) : readLine buf = none := by
  rw [readLine, Lines.split_of_not_mem h]

theorem plain_of_readLine (h : readLine buf = none) : 10 ∉ buf := by
  intro hmem
  obtain ⟨first, rest, rfl, hfirst⟩ := List.eq_append_cons_of_mem hmem
  rw [readLine_line hfirst] at h
  cases h

/-- What has come of a text that begins with a line is a part of the line, or has it whole. -/
theorem part_or_whole (h : buf <+: line ++ 10 :: later) :
    buf <+: line ∨ ∃ more, buf = line ++ 10 :: more := by
  have hwhole : line ++ [10] <+: line ++ 10 :: later := ⟨later, by simp⟩
  rcases List.prefix_or_prefix_of_prefix h hwhole with hpart | ⟨more, rfl⟩
  · rcases List.prefix_concat_iff.mp hpart with rfl | hpart
    · exact Or.inr ⟨[], rfl⟩
    · exact Or.inl hpart
  · exact Or.inr ⟨more, by simp⟩

theorem readLine_part (hplain : 10 ∉ line) (h : buf <+: line ++ 10 :: later)
    {l : List UInt8} (hl : readLine buf = some l) : l = line ++ [10] := by
  rcases part_or_whole h with hpart | ⟨more, rfl⟩
  · rw [readLine_eq_none fun hmem => hplain (hpart.subset hmem)] at hl
    cases hl
  · rw [readLine_line hplain] at hl
    exact (Option.some.inj hl).symm

theorem oneLine_plain (h : OneLine text) : 10 ∉ Lines.encode text := by
  obtain ⟨fields, rfl, hfields⟩ := h
  intro hmem
  obtain ⟨c, hc, hcode⟩ := Lines.mem_encode (by decide) hmem
  have hnewline : c = '\n' := Char.toNat_inj.mp hcode
  rw [hnewline] at hc
  simp [hfields] at hc

theorem oneLine_last (h : OneLine text) : ∃ front, text.toList = front ++ ['\x7d'] := by
  obtain ⟨fields, rfl, -⟩ := h
  exact ⟨'\x7b' :: fields.toList, by simp⟩

theorem trimEnd_oneLine (h : OneLine text) :
    trimEnd text = text ∧ trimEnd (text ++ "\n") = text := by
  obtain ⟨front, hlast⟩ := oneLine_last h
  have hself : trimEnd text = text := by
    rw [trimEnd, hlast, List.rdropWhile_concat_neg _ _ _ (by decide), ← hlast,
      String.ofList_toList]
  refine ⟨hself, ?_⟩
  have hnl : ("\n" : String).toList = ['\n'] := rfl
  rw [trimEnd, String.toList_append, hnl, List.rdropWhile_concat_pos _ _ _ (by decide)]
  exact hself

theorem lineText_frame (h : OneLine text) : lineText (frame text) = some text := by
  have hframe : frame text = Lines.encode (text ++ "\n") := by
    rw [Lines.encode_append]
    rfl
  rw [lineText, hframe, Lines.decode_eq_some.mpr rfl, Option.map_some, (trimEnd_oneLine h).2]

/-- What is left of a text that was cut is not read as another. -/
theorem lineText_part (h : OneLine text) (hwhole : JsonText.Whole text.toList)
    (hp : p <+: Lines.encode text) (hs : lineText p = some s) (hread : JsonText.Whole s.toList) :
    s = text := by
  obtain ⟨u, hu, rfl⟩ := Option.map_eq_some_iff.mp hs
  obtain ⟨q, hq⟩ := hp
  have hsub : u.toList <+: text.toList :=
    Lines.decode_prefix hu (by rw [hq]; exact Lines.decode_eq_some.mpr rfl)
  have htrim : (trimEnd u).toList <+: text.toList := by
    rw [trimEnd, String.toList_ofList]
    exact (List.rdropWhile_prefix _ _).trans hsub
  obtain ⟨more, hmore⟩ := htrim
  rw [← hmore] at hwhole
  by_cases hne : more = []
  · rw [hne, List.append_nil] at hmore
    exact String.toList_inj.mp hmore
  · obtain ⟨front, hlast⟩ := oneLine_last h
    have hend := congrArg List.getLast? (hmore.trans hlast)
    rw [List.getLast?_append_of_ne_nil _ hne, List.getLast?_concat] at hend
    exact absurd hread
      (JsonText.not_whole_of_append hwhole ⟨'\x7d', List.mem_of_getLast? hend, by decide⟩)

end Bytes

section Call

variable {α β : Type} (serde : SerdeJson α β) (call : Call α β)

/-- The preamble that the client sends, the request and the reply, as they are to go over the
wire; empty where there is none. -/
def preamble : List UInt8 :=
  match call.tcp, call.token with
  | true, some token => frame (serde.writeToken token)
  | _, _ => []

def requestLine : List UInt8 :=
  match serde.writeRequest call.request with
  | .ok text => frame text
  | .error _ => []

def replyLine : List UInt8 :=
  match serde.writeReply (call.answer call.request) with
  | .ok text => frame text
  | .error _ => []

/-- On TCP both ends have the same token, or none, and its preamble is short enough. -/
def Authorised : Prop :=
  call.tcp = true → call.token = call.expected ∧
    ∀ token ∈ call.token, (Lines.encode (serde.writeToken token)).length ≤ 4096

/-- There is no reply to be had. -/
def Refused : Prop :=
  ¬Authorised serde call ∨ (∃ e, serde.writeRequest call.request = .error e) ∨
    ∃ e, serde.writeReply (call.answer call.request) = .error e

/-- What a call comes to if the connection fails it. -/
inductive LinkError : ControlWire.CoreError → Prop
  | unreachable (why : String) : LinkError (.calibandUnreachable why)
  | closed : LinkError (.protocol closedEarly)
  | io (why : String) : LinkError (.io why)
  | json (why : String) : LinkError (.json why)

variable {serde call}
variable (hs : serde.Documented)
include hs

theorem checkToken_iff {t : String} :
    checkToken serde call (Lines.encode (serde.writeToken t)) = true ↔ call.expected = some t := by
  have hbytes : ∀ expected, (Auth.constantTimeEq (Automations.utf8 t)
      (Automations.utf8 expected) = true) ↔ t = expected := by
    intro expected
    rw [Auth.constantTimeEq_eq, decide_eq_true_iff]
    exact Auth.utf8_injective.eq_iff
  rw [checkToken, Lines.decode_eq_some.mpr rfl]
  dsimp only
  rw [(hs.token t).2]
  cases hexp : call.expected with
  | none => simp
  | some expected =>
    dsimp only
    rw [hbytes expected, Option.some.injEq, eq_comm]

/-- No request passes for a token. -/
theorem checkToken_request {text : String} (h : serde.writeRequest call.request = .ok text) :
    checkToken serde call (Lines.encode text) = false := by
  rw [checkToken, Lines.decode_eq_some.mpr rfl]
  dsimp only
  cases hread : serde.readToken text with
  | error e => rfl
  | ok bearer => exact absurd hread (hs.noBearer _ _ bearer h)

/-- The daemon's part in a line: it is the request, or nothing comes of it. -/
theorem serveLine_request {text : String} (h : serde.writeRequest call.request = .ok text)
    {line : List UInt8} (hline : line = frame text ∨ line <+: Lines.encode text) :
    serveLine serde call line = (.closed, []) ∨
      serveLine serde call line = (.closed, [call.request]) ∧
        (∃ e, serde.writeReply (call.answer call.request) = .error e) ∨
      ∃ reply, serde.writeReply (call.answer call.request) = .ok reply ∧
        serveLine serde call line = (.reply (frame reply), [call.request]) := by
  obtain ⟨hone, hread⟩ := hs.request _ _ h
  cases hl : lineText line with
  | none =>
    left
    rw [serveLine, hl]
  | some s =>
    cases hs' : serde.readRequest s with
    | error e =>
      left
      rw [serveLine, hl]
      dsimp only
      rw [hs']
    | ok request =>
      right
      have hsame : s = text := by
        rcases hline with rfl | hpart
        · rw [lineText_frame hone] at hl
          exact (Option.some.inj hl).symm
        · exact lineText_part hone (hs.wholeRequest _ _ hread) hpart hl
            (hs.wholeRequest _ _ hs')
      rw [hsame, hread] at hs'
      cases hs'
      rw [serveLine, hl]
      dsimp only
      rw [hsame, hread]
      dsimp only
      cases hreply : serde.writeReply (call.answer call.request) with
      | error e => exact Or.inl ⟨rfl, e, rfl⟩
      | ok reply => exact Or.inr ⟨reply, rfl, rfl⟩

/-- The whole request is served. -/
theorem serveLine_whole {text : String} (h : serde.writeRequest call.request = .ok text) :
    (serveLine serde call (frame text)).2 = [call.request] := by
  obtain ⟨hone, hread⟩ := hs.request _ _ h
  rw [serveLine, lineText_frame hone]
  dsimp only
  rw [hread]
  dsimp only
  cases serde.writeReply (call.answer call.request) <;> rfl

/-- A preamble that the daemon does not look for is no request. -/
theorem serveLine_token {t : String} {line : List UInt8}
    (hline : line = frame (serde.writeToken t) ∨ line <+: Lines.encode (serde.writeToken t)) :
    serveLine serde call line = (.closed, []) := by
  cases hl : lineText line with
  | none => rw [serveLine, hl]
  | some s =>
    cases hs' : serde.readRequest s with
    | error e =>
      rw [serveLine, hl]
      dsimp only
      rw [hs']
    | ok request =>
      have hsame : s = serde.writeToken t := by
        rcases hline with rfl | hpart
        · rw [lineText_frame (hs.token t).1] at hl
          exact (Option.some.inj hl).symm
        · exact lineText_part (hs.token t).1 (hs.wholeToken _ _ (hs.token t).2) hpart hl
            (hs.wholeRequest _ _ hs')
      exact absurd (hsame ▸ hs') (hs.noKind t request)

/-- A whole reply is taken as it was given. -/
theorem finish_frame {text : String}
    (h : serde.writeReply (call.answer call.request) = .ok text) :
    finish serde (frame text) = fromReply (call.answer call.request) := by
  obtain ⟨hone, hread⟩ := hs.reply _ _ h
  have hne : frame text ≠ [] := List.append_ne_nil_of_right_ne_nil _ (by simp)
  rw [finish, if_neg hne, lineText_frame hone]
  dsimp only
  rw [hread]

/-- A part of one is taken for nothing else. -/
theorem finish_part {text : String}
    (h : serde.writeReply (call.answer call.request) = .ok text)
    {line : List UInt8} (hline : line <+: Lines.encode text) :
    finish serde line = fromReply (call.answer call.request) ∨
      ∃ e, finish serde line = .error e ∧ LinkError e := by
  obtain ⟨hone, hread⟩ := hs.reply _ _ h
  unfold finish
  split
  · exact Or.inr ⟨_, rfl, .closed⟩
  · cases hl : lineText line with
    | none => exact Or.inr ⟨_, rfl, .io _⟩
    | some s =>
      dsimp only
      cases hr : serde.readReply s with
      | error e => exact Or.inr ⟨_, rfl, .json _⟩
      | ok reply =>
        left
        have hsame := lineText_part hone (hs.wholeReply _ _ hread) hline hl (hs.wholeReply _ _ hr)
        rw [hsame, hread] at hr
        cases hr
        rfl

end Call

section Runs

variable {α β : Type} (serde : SerdeJson α β) (call : Call α β)

/-- What the client has still to write. -/
def unsent : Client β → List UInt8
  | .token rest => rest ++ requestLine serde call
  | .request rest => rest
  | .reply _ | .done _ => []

def ClientOk (w : World α β) : Prop :=
  match w.client with
  | .token rest => rest ≠ []
  | .request rest => rest ≠ [] ∧ ∃ text, serde.writeRequest call.request = .ok text
  | .reply got => 10 ∉ got ∧ ∃ text, serde.writeRequest call.request = .ok text
  | .done result =>
    (result = fromReply (call.answer call.request) ∧ w.served = [call.request]) ∨
      ∃ e, result = .error e ∧ LinkError e ∧ (w.cut = true ∨ Refused serde call)

/-- Nothing has been served, and nothing replied. -/
structure Quiet (w : World α β) : Prop where
  served : w.served = []
  down : w.down = []
  got : ∀ got, w.client = .reply got → got = []

/-- The daemon has read so much, and the bytes of a line besides. What was lost is in it too. -/
structure Reading (w : World α β) (front buf : List UInt8) : Prop where
  quiet : Quiet w
  plain : 10 ∉ buf
  stream : ∃ lost, front ++ buf ++ w.up ++ lost ++ unsent serde call w.client =
    preamble serde call ++ requestLine serde call
  whole : w.cut = false → front ++ buf ++ w.up ++ unsent serde call w.client =
    preamble serde call ++ requestLine serde call

/-- The preamble has been read and was right, or it is taken for the request. -/
def Front (front : List UInt8) : Prop :=
  (front = preamble serde call ∧ Authorised serde call) ∨
    (front = [] ∧ ¬Authorised serde call ∧
      ∃ token, preamble serde call = frame (serde.writeToken token))

/-- The request has been served, and so much of the reply is not yet written. -/
structure Served (w : World α β) (rest : List UInt8) : Prop where
  served : w.served = [call.request]
  authorised : Authorised serde call
  heard : w.cut = false → w.up = [] ∧ (w.client.isDone = true ∨ ∃ got, w.client = .reply got)
  stream : ∀ got, w.client = .reply got →
    ∃ lost, got ++ w.down ++ lost ++ rest = replyLine serde call
  whole : w.cut = false → ∀ got, w.client = .reply got →
    got ++ w.down ++ rest = replyLine serde call

def ServerOk (w : World α β) : Prop :=
  match w.server with
  | .token buf => (call.tcp = true ∧ call.expected.isSome = true) ∧ buf.length ≤ 4096 ∧
      Reading serde call w [] buf
  | .request buf => ∃ front, Front serde call front ∧ Reading serde call w front buf
  | .reply rest => rest ≠ [] ∧ Served serde call w rest
  | .closed => Served serde call w [] ∨
      (Quiet w ∧ (w.cut = true ∨ w.client.isDone = true ∨ ¬Authorised serde call))

structure Inv (w : World α β) : Prop where
  client : ClientOk serde call w
  server : ServerOk serde call w

variable {serde call}

theorem frame_ne_nil (text : String) : frame text ≠ [] :=
  List.append_ne_nil_of_right_ne_nil _ (by simp)

theorem unsent_connected :
    unsent serde call (Client.connected serde call) = requestLine serde call := by
  unfold Client.connected requestLine
  cases serde.writeRequest call.request <;> rfl

theorem unsent_start : unsent serde call (Client.start serde call) =
    preamble serde call ++ requestLine serde call := by
  unfold Client.start preamble
  cases call.tcp with
  | false => exact unsent_connected
  | true =>
    cases call.token with
    | none => exact unsent_connected
    | some token => rfl

theorem connected_reply {got : List UInt8} : Client.connected serde call ≠ .reply got := by
  unfold Client.connected
  cases serde.writeRequest call.request <;> simp

theorem clientOk_token {w : World α β} {rest : List UInt8} (h : w.client = .token rest) :
    ClientOk serde call w ↔ rest ≠ [] := by
  rw [ClientOk, h]

theorem clientOk_connected {w : World α β} (h : w.client = .connected serde call) :
    ClientOk serde call w := by
  unfold ClientOk
  rw [h]
  unfold Client.connected
  cases hw : serde.writeRequest call.request with
  | ok text => exact ⟨frame_ne_nil text, text, rfl⟩
  | error e => exact Or.inr ⟨_, rfl, .json e, Or.inr (Or.inr (Or.inl ⟨e, hw⟩))⟩

theorem serverOk_token {w : World α β} {buf : List UInt8} (h : w.server = .token buf) :
    ServerOk serde call w ↔ (call.tcp = true ∧ call.expected.isSome = true) ∧ buf.length ≤ 4096 ∧
      Reading serde call w [] buf := by
  rw [ServerOk, h]

theorem serverOk_request {w : World α β} {buf : List UInt8} (h : w.server = .request buf) :
    ServerOk serde call w ↔ ∃ front, Front serde call front ∧ Reading serde call w front buf := by
  rw [ServerOk, h]

/-- Where no preamble is looked for, one that comes is taken for the request. -/
theorem front_start (h : call.tcp = true → call.expected = none) : Front serde call [] := by
  unfold Front Authorised preamble
  cases htcp : call.tcp with
  | false => exact Or.inl ⟨rfl, nofun⟩
  | true =>
    cases htoken : call.token with
    | none => exact Or.inl ⟨rfl, fun _ => ⟨(h htcp).symm, nofun⟩⟩
    | some token =>
      refine Or.inr ⟨rfl, fun hauth => ?_, token, rfl⟩
      rw [h htcp] at hauth
      cases (hauth rfl).1

theorem Inv.start : Inv serde call (World.start serde call) := by
  have hreading : Reading serde call (World.start serde call) [] [] := by
    refine ⟨⟨rfl, rfl, ?_⟩, List.not_mem_nil, ⟨[], ?_⟩, fun _ => unsent_start⟩
    · intro got hgot
      have hclient : Client.start serde call = .reply got := hgot
      unfold Client.start at hclient
      split at hclient
      · cases hclient
      · exact absurd hclient connected_reply
    · exact unsent_start
  constructor
  · by_cases hpre : ∃ token, call.tcp = true ∧ call.token = some token
    · obtain ⟨token, htcp, htoken⟩ := hpre
      rw [@clientOk_token _ _ _ _ _ (frame (serde.writeToken token))
        (by simp only [World.start, Client.start, htcp, htoken])]
      exact frame_ne_nil _
    · apply clientOk_connected
      change Client.start serde call = _
      unfold Client.start
      split
      · rename_i token htcp htoken
        exact absurd ⟨token, htcp, htoken⟩ hpre
      · rfl
  · by_cases hchecks : ∃ expected, call.tcp = true ∧ call.expected = some expected
    · obtain ⟨expected, htcp, hexp⟩ := hchecks
      rw [@serverOk_token _ _ _ _ _ [] (by simp only [World.start, Server.start, htcp, hexp])]
      exact ⟨⟨htcp, by rw [hexp]; rfl⟩, Nat.zero_le _, hreading⟩
    · have hserver : Server.start call = .request [] := by
        unfold Server.start
        split
        · rename_i expected htcp hexp
          exact absurd ⟨expected, htcp, hexp⟩ hchecks
        · rfl
      rw [serverOk_request hserver]
      refine ⟨[], front_start fun htcp => ?_, hreading⟩
      cases hexp : call.expected with
      | none => rfl
      | some expected => exact absurd ⟨expected, htcp, hexp⟩ hchecks

variable {w w' : World α β}

/-- What the client writes goes on its way; as long as the daemon reads, it gets there. -/
theorem serverOk_write (h : ServerOk serde call w) (hcut : w.cut = false)
    (hopen : w.client.isDone = false) (hwriting : ∀ got, w.client ≠ .reply got)
    {client : Client β} {up : List UInt8}
    (hstream : w.up ++ unsent serde call w.client = up ++ unsent serde call client)
    (hgot : ∀ got, client = .reply got → got = []) :
    ServerOk serde call { w with client := client, up := up } := by
  have hread {front buf : List UInt8} (hr : Reading serde call w front buf) :
      Reading serde call { w with client := client, up := up } front buf := by
    have hall := hr.whole hcut
    rw [List.append_assoc, hstream, ← List.append_assoc] at hall
    exact ⟨⟨hr.quiet.served, hr.quiet.down, hgot⟩, hr.plain, ⟨[], by simpa using hall⟩,
      fun _ => hall⟩
  have hunserved {rest : List UInt8} (hserved : Served serde call w rest) : False := by
    rcases (hserved.heard hcut).2 with hdone | ⟨got, hreply⟩
    · rw [hopen] at hdone
      cases hdone
    · exact hwriting got hreply
  obtain ⟨client', up', server, down, cut, served⟩ := w
  cases server with
  | token buf => exact ⟨h.1, h.2.1, hread h.2.2⟩
  | request buf =>
    obtain ⟨front, hfront, hr⟩ := h
    exact ⟨front, hfront, hread hr⟩
  | reply rest => exact (hunserved h.2).elim
  | closed =>
    rcases h with hserved | ⟨hquiet, hwhy⟩
    · exact (hunserved hserved).elim
    · refine Or.inr ⟨⟨hquiet.served, hquiet.down, hgot⟩, ?_⟩
      rcases hwhy with hwhy | hwhy | hwhy
      · exact Or.inl hwhy
      · have hdone : client'.isDone = true := hwhy
        have hno : client'.isDone = false := hopen
        rw [hno] at hdone
        cases hdone
      · exact Or.inr (Or.inr hwhy)

theorem Inv.clientWrite {n : Nat} (h : Inv serde call w)
    (ha : w.step serde call (.clientWrite n) = some w') : Inv serde call w' := by
  simp only [World.step] at ha
  split at ha
  · rename_i rest hclient
    split at ha
    · rename_i hn
      cases ha
      have hopen : w.client.isDone = false := by
        rw [hclient]
        rfl
      have hwriting : ∀ got, w.client ≠ .reply got := by
        rw [hclient]
        nofun
      have hunsent : unsent serde call w.client = rest ++ requestLine serde call := by
        rw [hclient]
        rfl
      split
      · rename_i hall
        refine ⟨clientOk_connected rfl, serverOk_write h.server hn.1 hopen hwriting ?_ ?_⟩
        · rw [hunsent, unsent_connected, hall, List.take_length, List.append_assoc]
        · exact fun got hgot => absurd hgot connected_reply
      · rename_i hpart
        refine ⟨?_, serverOk_write h.server hn.1 hopen hwriting ?_ nofun⟩
        · have hlt : n < rest.length := by omega
          exact fun hnil => absurd (List.drop_eq_nil_iff.mp hnil) (Nat.not_le.mpr hlt)
        · change w.up ++ _ = w.up ++ rest.take n ++ (rest.drop n ++ requestLine serde call)
          rw [hunsent, List.append_assoc, ← List.append_assoc (rest.take n), List.take_append_drop]
    · cases ha
  · rename_i rest hclient
    split at ha
    · rename_i hn
      cases ha
      have hopen : w.client.isDone = false := by
        rw [hclient]
        rfl
      have hwriting : ∀ got, w.client ≠ .reply got := by
        rw [hclient]
        nofun
      have hunsent : unsent serde call w.client = rest := by
        rw [hclient]
        rfl
      have hwritten : ∃ text, serde.writeRequest call.request = .ok text := by
        have hc := h.client
        rw [ClientOk, hclient] at hc
        exact hc.2
      split
      · rename_i hall
        refine ⟨⟨List.not_mem_nil, hwritten⟩, serverOk_write h.server hn.1 hopen hwriting ?_ ?_⟩
        · change _ = w.up ++ rest.take n ++ []
          rw [hunsent, hall, List.take_length, List.append_nil]
        · intro got hgot
          cases hgot
          rfl
      · rename_i hpart
        refine ⟨⟨?_, hwritten⟩, serverOk_write h.server hn.1 hopen hwriting ?_ nofun⟩
        · have hlt : n < rest.length := by omega
          exact fun hnil => absurd (List.drop_eq_nil_iff.mp hnil) (Nat.not_le.mpr hlt)
        · change w.up ++ _ = w.up ++ rest.take n ++ rest.drop n
          rw [hunsent, List.append_assoc, List.take_append_drop]
    · cases ha
  · cases ha

theorem replyLine_cases : (∃ text, serde.writeReply (call.answer call.request) = .ok text ∧
      replyLine serde call = frame text) ∨
    ((∃ e, serde.writeReply (call.answer call.request) = .error e) ∧
      replyLine serde call = []) := by
  unfold replyLine
  cases serde.writeReply (call.answer call.request) with
  | ok text => exact Or.inl ⟨text, rfl, rfl⟩
  | error e => exact Or.inr ⟨⟨e, rfl⟩, rfl⟩

/-- Where the daemon stands when so much of the reply is left. -/
def Standing (server : Server) (rest : List UInt8) : Prop :=
  (server = .reply rest ∧ rest ≠ []) ∨ (server = .closed ∧ rest = [])

theorem serverOk_served {rest : List UInt8} (h : Served serde call w rest)
    (hserver : Standing w.server rest) : ServerOk serde call w := by
  rcases hserver with ⟨hserver, hne⟩ | ⟨hserver, rfl⟩
  · rw [ServerOk, hserver]
    exact ⟨hne, h⟩
  · rw [ServerOk, hserver]
    exact Or.inl h

theorem served_or_quiet (h : ServerOk serde call w) :
    (∃ rest, Served serde call w rest ∧ Standing w.server rest) ∨ (Quiet w ∧
      (w.server = .closed → w.cut = true ∨ w.client.isDone = true ∨ ¬Authorised serde call)) := by
  obtain ⟨client, up, server, down, cut, served⟩ := w
  cases server with
  | token buf => exact Or.inr ⟨h.2.2.quiet, nofun⟩
  | request buf =>
    obtain ⟨front, -, hr⟩ := h
    exact Or.inr ⟨hr.quiet, nofun⟩
  | reply rest => exact Or.inl ⟨rest, h.2, Or.inl ⟨rfl, h.1⟩⟩
  | closed =>
    rcases h with hserved | ⟨hquiet, hwhy⟩
    · exact Or.inl ⟨[], hserved, Or.inr ⟨rfl, rfl⟩⟩
    · exact Or.inr ⟨hquiet, fun _ => hwhy⟩

theorem served_done {rest : List UInt8} (h : Served serde call w rest) {client : Client β}
    (hclient : client.isDone = true) (down : List UInt8) :
    Served serde call { w with client := client, down := down } rest := by
  have hno : ∀ got, client ≠ .reply got := by
    rintro got rfl
    cases hclient
  exact ⟨h.served, h.authorised, fun hcut => ⟨(h.heard hcut).1, Or.inl hclient⟩,
    fun got hgot => absurd hgot (hno got), fun _ got hgot => absurd hgot (hno got)⟩

/-- The client is done, and nothing that it had still to write was awaited. -/
theorem serverOk_done (h : ServerOk serde call w) {client : Client β}
    (hclient : client.isDone = true)
    (hunsent : unsent serde call w.client = [] ∨ w.cut = true ∨ w.server = .closed) :
    ServerOk serde call { w with client := client } := by
  have hno : ∀ got, client ≠ .reply got := by
    rintro got rfl
    cases hclient
  have hnone : unsent serde call client = [] := by
    cases client with
    | done result => rfl
    | token rest | request rest | reply got => cases hclient
  obtain ⟨client', up, server, down, cut, served⟩ := w
  have hread {front buf : List UInt8} (hopen : server ≠ .closed)
      (hr : Reading serde call ⟨client', up, server, down, cut, served⟩ front buf) :
      Reading serde call ⟨client, up, server, down, cut, served⟩ front buf := by
    obtain ⟨lost, hstream⟩ := hr.stream
    refine ⟨⟨hr.quiet.served, hr.quiet.down, fun got hgot => absurd hgot (hno got)⟩, hr.plain,
      ⟨lost ++ unsent serde call client', ?_⟩, ?_⟩
    · rw [← hstream]
      change _ ++ unsent serde call client = _
      rw [hnone, List.append_nil, ← List.append_assoc]
    · intro hcut
      have hall := hr.whole hcut
      rcases hunsent with hunsent | hbroke | hclosed
      · rw [hunsent] at hall
        change _ ++ unsent serde call client = _
        rw [hnone]
        exact hall
      · exact absurd (hcut.symm.trans hbroke) Bool.false_ne_true
      · exact absurd hclosed hopen
  cases server with
  | token buf => exact ⟨h.1, h.2.1, hread nofun h.2.2⟩
  | request buf =>
    obtain ⟨front, hfront, hr⟩ := h
    exact ⟨front, hfront, hread nofun hr⟩
  | reply rest => exact ⟨h.1, served_done h.2 hclient down⟩
  | closed =>
    rcases h with hserved | ⟨hquiet, -⟩
    · exact Or.inl (served_done hserved hclient down)
    · exact Or.inr ⟨⟨hquiet.served, hquiet.down, fun got hgot => absurd hgot (hno got)⟩,
        Or.inr (Or.inl hclient)⟩

section Client

variable (hs : serde.Documented)
include hs

theorem Inv.clientRead {n : Nat} (h : Inv serde call w)
    (ha : w.step serde call (.clientRead n) = some w') : Inv serde call w' := by
  simp only [World.step] at ha
  split at ha
  · rename_i got hclient
    split at ha
    · rename_i hn
      cases ha
      have hdown : w.down ≠ [] := by
        intro hnil
        rw [hnil] at hn
        exact absurd hn.2 (Nat.not_le.mpr hn.1)
      rcases served_or_quiet h.server with ⟨rest, hserved, hserver⟩ | ⟨hquiet, hwhy⟩
      · have hc := h.client
        rw [ClientOk, hclient] at hc
        obtain ⟨lost, hstream⟩ := hserved.stream got hclient
        rw [← List.take_append_drop n w.down] at hstream
        split
        · rename_i line hline
          refine ⟨Or.inl ⟨?_, hserved.served⟩, serverOk_served (served_done hserved rfl _) hserver⟩
          rcases replyLine_cases with ⟨text, hwritten, htext⟩ | ⟨-, hnil⟩
          · rw [htext] at hstream
            have hsub : got ++ w.down.take n <+: Lines.encode text ++ 10 :: [] :=
              ⟨w.down.drop n ++ lost ++ rest, by
                rw [← frame, ← hstream]
                simp only [List.append_assoc]⟩
            rw [readLine_part (oneLine_plain (hs.reply _ _ hwritten).1) hsub hline, ← frame,
              finish_frame hs hwritten]
          · rw [hnil] at hstream
            simp only [List.append_eq_nil_iff] at hstream
            rw [hstream.1.1.1, hstream.1.1.2.1] at hline
            cases hline
        · rename_i hnone
          refine ⟨⟨plain_of_readLine hnone, hc.2⟩, serverOk_served ?_ hserver⟩
          refine ⟨hserved.served, hserved.authorised,
            fun hcut => ⟨(hserved.heard hcut).1, Or.inr ⟨_, rfl⟩⟩, ?_, ?_⟩
          · intro got' hgot'
            cases hgot'
            exact ⟨lost, by rw [← hstream]; simp⟩
          · intro hcut got' hgot'
            cases hgot'
            rw [← hserved.whole hcut got hclient]
            simp
      · exact absurd hquiet.down hdown
    · cases ha
  · cases ha

theorem Inv.clientEof (h : Inv serde call w)
    (ha : w.step serde call .clientEof = some w') : Inv serde call w' := by
  simp only [World.step] at ha
  split at ha
  · rename_i got hclient
    split at ha
    · rename_i hend
      cases ha
      have hc := h.client
      rw [ClientOk, hclient] at hc
      have hclosed : finish serde [] = .error (.protocol closedEarly) := rfl
      refine ⟨?_, serverOk_done h.server rfl (Or.inl (by rw [hclient]; rfl))⟩
      rcases served_or_quiet h.server with ⟨rest, hserved, hserver⟩ | ⟨hquiet, hwhy⟩
      · obtain ⟨lost, hstream⟩ := hserved.stream got hclient
        rw [hend.1, List.append_nil] at hstream
        have hwhole : w.cut = false → got = replyLine serde call := by
          intro hcut
          have hall := hserved.whole hcut got hclient
          have hrest : rest = [] := by
            rcases hserver with ⟨hserver, -⟩ | ⟨-, hrest⟩
            · rcases hend.2 with hbroke | hbroke
              · rw [hcut] at hbroke
                cases hbroke
              · rw [hserver] at hbroke
                cases hbroke
            · exact hrest
          rw [hend.1, hrest, List.append_nil, List.append_nil] at hall
          exact hall
        rcases replyLine_cases with ⟨text, hwritten, htext⟩ | ⟨hunwritten, hnil⟩
        · have hcut : w.cut = true := by
            by_contra hno
            rw [hwhole (Bool.eq_false_iff.mpr hno), htext] at hc
            exact hc.1 (List.mem_append_right _ (List.mem_singleton_self _))
          rw [htext] at hstream
          have hsub : got <+: Lines.encode text ++ 10 :: [] :=
            ⟨lost ++ rest, by rw [← frame, ← hstream]; simp⟩
          rcases part_or_whole hsub with hpart | ⟨more, rfl⟩
          · rcases finish_part hs hwritten hpart with hreply | ⟨e, he, hlink⟩
            · exact Or.inl ⟨hreply, hserved.served⟩
            · exact Or.inr ⟨e, he, hlink, Or.inl hcut⟩
          · exact absurd (List.mem_append_right _ (List.mem_cons_self ..)) hc.1
        · rw [hnil] at hstream
          simp only [List.append_eq_nil_iff] at hstream
          refine Or.inr ⟨_, ?_, .closed, Or.inr (Or.inr (Or.inr hunwritten))⟩
          rw [hstream.1.1]
          exact hclosed
      · rw [hquiet.got got hclient]
        refine Or.inr ⟨_, hclosed, .closed, ?_⟩
        rcases hend.2 with hcut | hserver
        · exact Or.inl hcut
        · rcases hwhy hserver with hcut | hdone | hauth
          · exact Or.inl hcut
          · rw [hclient] at hdone
            cases hdone
          · exact Or.inr (Or.inl hauth)
    · cases ha
  · cases ha

omit hs in
theorem Inv.clientFail {why : String} (h : Inv serde call w)
    (ha : w.step serde call (.clientFail why) = some w') : Inv serde call w' := by
  simp only [World.step] at ha
  split at ha
  · rename_i hfail
    cases ha
    have hreason : w.cut = true ∨ Refused serde call := by
      rcases hfail.2 with hcut | ⟨hserver, hup⟩
      · exact Or.inl hcut
      · by_cases hcut : w.cut = true
        · exact Or.inl hcut
        · rcases served_or_quiet h.server with ⟨rest, hserved, -⟩ | ⟨-, hwhy⟩
          · exact absurd (hserved.heard (Bool.eq_false_iff.mpr hcut)).1 hup
          · rcases hwhy hserver with hcut | hdone | hauth
            · exact Or.inl hcut
            · rw [hfail.1] at hdone
              cases hdone
            · exact Or.inr (Or.inl hauth)
    have hbroken : ∃ e, w.client.broken why = .done (.error e) ∧ LinkError e := by
      cases hclient : w.client with
      | token rest => exact ⟨_, rfl, .unreachable why⟩
      | request rest | reply got => exact ⟨_, rfl, .io why⟩
      | done result =>
        rw [hclient] at hfail
        cases hfail.1
    obtain ⟨e, he, hlink⟩ := hbroken
    rw [he]
    refine ⟨Or.inr ⟨e, rfl, hlink, hreason⟩, serverOk_done h.server rfl (Or.inr ?_)⟩
    exact hfail.2.imp id And.left
  · cases ha

omit hs in
theorem Inv.cut (h : Inv serde call w) (ha : w.step serde call .cut = some w') :
    Inv serde call w' := by
  simp only [World.step] at ha
  split at ha
  · cases ha
  · cases ha
    constructor
    · obtain ⟨client, up, server, down, cut, served⟩ := w
      have hc := h.client
      cases client with
      | token rest | request rest | reply got => exact hc
      | done result =>
        rcases hc with hreply | ⟨e, he, hlink, -⟩
        · exact Or.inl hreply
        · exact Or.inr ⟨e, he, hlink, Or.inl rfl⟩
    · obtain ⟨client, up, server, down, cut, served⟩ := w
      have hread {front buf : List UInt8}
          (hr : Reading serde call ⟨client, up, server, down, cut, served⟩ front buf) :
          Reading serde call ⟨client, [], server, [], true, served⟩ front buf := by
        obtain ⟨lost, hstream⟩ := hr.stream
        exact ⟨⟨hr.quiet.served, rfl, hr.quiet.got⟩, hr.plain,
          ⟨up ++ lost, by rw [← hstream]; simp only [List.append_assoc, List.nil_append]⟩, nofun⟩
      have hserve {rest : List UInt8}
          (hserved : Served serde call ⟨client, up, server, down, cut, served⟩ rest) :
          Served serde call ⟨client, [], server, [], true, served⟩ rest := by
        refine ⟨hserved.served, hserved.authorised, nofun, ?_, nofun⟩
        intro got hgot
        obtain ⟨lost, hstream⟩ := hserved.stream got hgot
        exact ⟨down ++ lost, by rw [← hstream]; simp only [List.append_assoc, List.nil_append]⟩
      have hserver := h.server
      cases server with
      | token buf => exact ⟨hserver.1, hserver.2.1, hread hserver.2.2⟩
      | request buf =>
        obtain ⟨front, hfront, hr⟩ := hserver
        exact ⟨front, hfront, hread hr⟩
      | reply rest => exact ⟨hserver.1, hserve hserver.2⟩
      | closed =>
        rcases hserver with hserved | ⟨hquiet, -⟩
        · exact Or.inl (hserve hserved)
        · exact Or.inr ⟨⟨hquiet.served, rfl, hquiet.got⟩, Or.inl rfl⟩

end Client

section Server

theorem line_unique {a b x y : List UInt8} (ha : 10 ∉ a) (hb : 10 ∉ b)
    (h : a ++ 10 :: x = b ++ 10 :: y) : a = b ∧ x = y := by
  have hline := congrArg readLine h
  rw [readLine_line ha, readLine_line hb] at hline
  have hab : a = b := List.append_cancel_right (Option.some.inj hline)
  rw [hab] at h
  exact ⟨hab, (List.cons.inj (List.append_cancel_left h)).2⟩

theorem frame_append (text : String) (more : List UInt8) :
    frame text ++ more = Lines.encode text ++ 10 :: more := by
  rw [frame, List.append_assoc, List.singleton_append]

theorem preamble_cases : (∃ token, call.tcp = true ∧ call.token = some token ∧
      preamble serde call = frame (serde.writeToken token)) ∨
    (preamble serde call = [] ∧ (call.tcp = true → call.token = none)) := by
  unfold preamble
  cases call.tcp with
  | false => exact Or.inr ⟨rfl, nofun⟩
  | true =>
    cases htoken : call.token with
    | none => exact Or.inr ⟨rfl, fun _ => rfl⟩
    | some token => exact Or.inl ⟨token, rfl, rfl, rfl⟩

theorem requestLine_cases : (∃ text, serde.writeRequest call.request = .ok text ∧
      requestLine serde call = frame text) ∨ requestLine serde call = [] := by
  unfold requestLine
  cases serde.writeRequest call.request with
  | ok text => exact Or.inl ⟨text, rfl, rfl⟩
  | error e => exact Or.inr rfl

theorem clientOk_quiet (h : ClientOk serde call w) (hquiet : Quiet w) (server : Server)
    (up : List UInt8) (served : List α) :
    ClientOk serde call { w with server := server, up := up, served := served } := by
  obtain ⟨client, up', server', down, cut, served'⟩ := w
  cases client with
  | token rest | request rest | reply got => exact h
  | done result =>
    rcases h with ⟨-, hserved⟩ | hlink
    · have hnone : served' = [] := hquiet.served
      rw [hnone] at hserved
      cases hserved
    · exact Or.inr hlink

theorem Quiet.reads (h : Quiet w) (server : Server) (up : List UInt8) :
    Quiet { w with server := server, up := up } := ⟨h.served, h.down, h.got⟩

theorem not_authorised (hchecks : call.tcp = true ∧ call.expected.isSome = true)
    (htoken : call.token = none) : ¬Authorised serde call := by
  intro hauth
  have hsome := hchecks.2
  rw [← (hauth hchecks.1).1, htoken] at hsome
  cases hsome

variable (hs : serde.Documented)
include hs

/-- Once its line has come, the preamble passes if it is authorised. -/
theorem serverOk_preamble {buf up : List UInt8}
    (hchecks : call.tcp = true ∧ call.expected.isSome = true) (hlen : buf.length ≤ 4096)
    (hr : Reading serde call w [] buf) (hup : w.up = 10 :: up) :
    ServerOk serde call { w with
      server := if checkToken serde call buf then .request [] else .closed
      up := up } := by
  obtain ⟨lost, hstream⟩ := hr.stream
  rw [hup, List.nil_append] at hstream
  have hbytes : buf ++ 10 :: (up ++ lost ++ unsent serde call w.client) =
      preamble serde call ++ requestLine serde call := by
    rw [← hstream]
    simp only [List.append_assoc, List.cons_append]
  rcases preamble_cases with ⟨token, -, htoken, hpre⟩ | ⟨hpre, htoken⟩
  · have hplain := oneLine_plain (hs.token token).1
    rw [hpre, frame_append] at hbytes
    obtain ⟨hbuf, hrest⟩ := line_unique hr.plain hplain hbytes
    split
    · rename_i hcheck
      rw [hbuf, checkToken_iff hs] at hcheck
      have hauth : Authorised serde call := by
        refine fun _ => ⟨htoken.trans hcheck.symm, ?_⟩
        intro token' htoken'
        rw [htoken] at htoken'
        cases htoken'
        rw [← hbuf]
        exact hlen
      refine ⟨_, Or.inl ⟨rfl, hauth⟩, hr.quiet.reads _ _, List.not_mem_nil, ⟨lost, ?_⟩, ?_⟩
      · change _ ++ [] ++ up ++ lost ++ unsent serde call w.client = _
        rw [← hrest]
        simp only [List.append_assoc, List.nil_append]
      · intro hcut
        have hall := hr.whole hcut
        rw [hup, hpre, frame, List.nil_append, hbuf] at hall
        rw [hpre, frame, ← hall]
        simp
    · rename_i hcheck
      rw [hbuf, checkToken_iff hs] at hcheck
      refine Or.inr ⟨hr.quiet.reads _ _, Or.inr (Or.inr fun hauth => hcheck ?_)⟩
      rw [← (hauth hchecks.1).1, htoken]
  · rw [hpre, List.nil_append] at hbytes
    rcases requestLine_cases with ⟨text, hwritten, hline⟩ | hline
    · rw [hline, frame] at hbytes
      have hbuf := (line_unique hr.plain (oneLine_plain (hs.request _ _ hwritten).1) hbytes).1
      rw [hbuf, checkToken_request hs hwritten, if_neg Bool.false_ne_true]
      exact Or.inr ⟨hr.quiet.reads _ _,
        Or.inr (Or.inr (not_authorised hchecks (htoken hchecks.1)))⟩
    · rw [hline] at hbytes
      simp at hbytes

omit hs in
/-- A preamble that ends within the limit is not taken to be too long. -/
theorem not_authorised_of_long {buf : List UInt8} (hplain : 10 ∉ buf)
    (hchecks : call.tcp = true ∧ call.expected.isSome = true) (hlong : 4096 < buf.length)
    (hbytes : ∃ more, buf ++ more = preamble serde call ++ requestLine serde call) :
    ¬Authorised serde call := by
  obtain ⟨more, hbytes⟩ := hbytes
  rcases preamble_cases with ⟨token, -, htoken, hpre⟩ | ⟨-, htoken⟩
  · rw [hpre, frame_append] at hbytes
    rcases part_or_whole ⟨more, hbytes⟩ with hpart | ⟨later, hlater⟩
    · intro hauth
      have hshort := (hauth hchecks.1).2 token htoken
      have hle := hpart.length_le
      omega
    · rw [hlater] at hplain
      exact absurd (List.mem_append_right _ (List.mem_cons_self ..)) hplain
  · exact not_authorised hchecks (htoken hchecks.1)

theorem serverOk_tokenByte {buf up : List UInt8} {b : UInt8}
    (hchecks : call.tcp = true ∧ call.expected.isSome = true) (hlen : buf.length ≤ 4096)
    (hr : Reading serde call w [] buf) (hup : w.up = b :: up) :
    ServerOk serde call { w with server := .tokenByte serde call buf b, up := up } := by
  unfold Server.tokenByte
  split
  · rename_i hb
    rw [hb] at hup
    exact serverOk_preamble hs hchecks hlen hr hup
  · rename_i hb
    have hplain : 10 ∉ buf ++ [b] := by
      intro hmem
      rcases List.mem_append.mp hmem with hmem | hmem
      · exact hr.plain hmem
      · exact hb (List.mem_singleton.mp hmem).symm
    obtain ⟨lost, hstream⟩ := hr.stream
    have hbytes : buf ++ [b] ++ (up ++ lost ++ unsent serde call w.client) =
        preamble serde call ++ requestLine serde call := by
      rw [← hstream, hup]
      simp only [List.append_assoc, List.nil_append, List.cons_append]
    split
    · rename_i hlong
      exact Or.inr ⟨hr.quiet.reads _ _,
        Or.inr (Or.inr (not_authorised_of_long hplain hchecks hlong ⟨_, hbytes⟩))⟩
    · rename_i hshort
      refine ⟨hchecks, Nat.not_lt.mp hshort, hr.quiet.reads _ _, hplain, ⟨lost, ?_⟩, ?_⟩
      · rw [← hbytes]
        simp only [List.append_assoc, List.nil_append]
      · intro hcut
        rw [← hr.whole hcut, hup]
        simp only [List.append_assoc, List.singleton_append, List.nil_append]

omit hs in
/-- What has come of a line that the daemon takes for a request: a part of the line, or all of it
and nothing after it if it is the request. -/
theorem reading_line {front buf : List UInt8} (hfront : Front serde call front)
    (hbytes : ∃ more, front ++ buf ++ more = preamble serde call ++ requestLine serde call)
    (hne : buf ≠ []) : Authorised serde call ∧ (∃ text,
      serde.writeRequest call.request = .ok text ∧ buf <+: frame text ∧
        front ++ frame text = preamble serde call ++ requestLine serde call) ∨
    ¬Authorised serde call ∧ ∃ token more, buf <+: frame (serde.writeToken token) ++ more := by
  obtain ⟨more, hmore⟩ := hbytes
  rcases hfront with ⟨rfl, hauth⟩ | ⟨rfl, hauth, token, hpre⟩
  · rw [List.append_assoc] at hmore
    have hrest := List.append_cancel_left hmore
    rcases requestLine_cases with ⟨text, hwritten, hline⟩ | hline
    · rw [hline] at hrest ⊢
      exact Or.inl ⟨hauth, text, hwritten, ⟨more, hrest⟩, rfl⟩
    · rw [hline] at hrest
      exact absurd (List.append_eq_nil_iff.mp hrest).1 hne
  · rw [hpre, List.nil_append] at hmore
    exact Or.inr ⟨hauth, token, requestLine serde call, more, hmore⟩

omit hs in
/-- Who has written all waits for the reply, or is done. -/
theorem idle_of_unsent (h : ClientOk serde call w) (hnone : unsent serde call w.client = []) :
    w.client.isDone = true ∨ ∃ got, w.client = .reply got := by
  obtain ⟨client, up, server, down, cut, served⟩ := w
  cases client with
  | token rest => exact absurd (List.append_eq_nil_iff.mp hnone).1 h
  | request rest => exact absurd hnone h.1
  | reply got => exact Or.inr ⟨got, rfl⟩
  | done result => exact Or.inl rfl

omit hs in
/-- The request has been handed on, and the daemon is about to reply, or cannot. -/
theorem serverOk_served_now (hquiet : Quiet w) (hauth : Authorised serde call) {up : List UInt8}
    (hheard : w.cut = false → up = [] ∧ (w.client.isDone = true ∨ ∃ got, w.client = .reply got))
    {now : Server × List α}
    (hnow : now = (.closed, [call.request]) ∧
        (∃ e, serde.writeReply (call.answer call.request) = .error e) ∨
      ∃ reply, serde.writeReply (call.answer call.request) = .ok reply ∧
        now = (.reply (frame reply), [call.request])) :
    ServerOk serde call { w with server := now.1, up := up, served := w.served ++ now.2 } := by
  have hserved : now.2 = [call.request] := by
    rcases hnow with ⟨rfl, -⟩ | ⟨reply, -, rfl⟩ <;> rfl
  have hall : Served serde call
      { w with server := now.1, up := up, served := w.served ++ now.2 } (replyLine serde call) := by
    refine ⟨?_, hauth, hheard, ?_, ?_⟩
    · change w.served ++ now.2 = _
      rw [hquiet.served, hserved, List.nil_append]
    · intro got hgot
      exact ⟨[], by rw [hquiet.got got hgot, hquiet.down]; rfl⟩
    · intro _ got hgot
      rw [hquiet.got got hgot, hquiet.down]
      rfl
  refine serverOk_served hall ?_
  rcases hnow with ⟨rfl, e, he⟩ | ⟨reply, hwritten, rfl⟩
  · exact Or.inr ⟨rfl, by rw [replyLine, he]⟩
  · have hline : replyLine serde call = frame reply := by rw [replyLine, hwritten]
    exact Or.inl ⟨by rw [hline], by rw [hline]; exact frame_ne_nil reply⟩

theorem Inv.serverRead {n : Nat} (h : Inv serde call w)
    (ha : w.step serde call (.serverRead n) = some w') : Inv serde call w' := by
  simp only [World.step] at ha
  have hserver := h.server
  split at ha
  · rename_i buf hs'
    rw [serverOk_token hs'] at hserver
    split at ha
    · rename_i b up hup
      split at ha
      · cases ha
        exact ⟨clientOk_quiet h.client hserver.2.2.quiet _ _ w.served,
          serverOk_tokenByte hs hserver.1 hserver.2.1 hserver.2.2 hup⟩
      · cases ha
    · cases ha
  · rename_i buf hs'
    rw [serverOk_request hs'] at hserver
    obtain ⟨front, hfront, hr⟩ := hserver
    obtain ⟨lost, hstream⟩ := hr.stream
    split at ha
    · rename_i hn
      have hbytes : front ++ (buf ++ w.up.take n) ++
          (w.up.drop n ++ lost ++ unsent serde call w.client) =
          preamble serde call ++ requestLine serde call := by
        rw [← hstream]
        nth_rewrite 3 [← List.take_append_drop n w.up]
        simp only [List.append_assoc]
      split at ha
      · rename_i line hline
        cases ha
        refine ⟨clientOk_quiet h.client hr.quiet _ _ _, ?_⟩
        have hne : buf ++ w.up.take n ≠ [] := by
          intro hnil
          rw [hnil] at hline
          cases hline
        rcases reading_line hfront ⟨_, hbytes⟩ hne with
          ⟨hauth, text, hwritten, hpart, hwhole⟩ | ⟨hauth, token, more, hpart⟩
        · have hplain := oneLine_plain (hs.request _ _ hwritten).1
          have hline' := readLine_part hplain hpart hline
          refine serverOk_served_now hr.quiet hauth ?_
            ((serveLine_request hs hwritten (Or.inl hline')).resolve_left ?_)
          · intro hcut
            rcases part_or_whole hpart with hsub | ⟨more, hmore⟩
            · rw [readLine_eq_none fun hmem => hplain (hsub.subset hmem)] at hline
              cases hline
            · rw [List.append_assoc, hmore, ← hwhole] at hbytes
              have hend := List.append_cancel_left hbytes
              rw [frame, List.append_assoc] at hend
              have hnil : more ++ (w.up.drop n ++ lost ++ unsent serde call w.client) = [] :=
                (List.cons.inj (List.append_cancel_left hend)).2
              have hrest := (List.append_eq_nil_iff.mp hnil).2
              obtain ⟨hup, hclient⟩ := List.append_eq_nil_iff.mp hrest
              exact ⟨(List.append_eq_nil_iff.mp hup).1, idle_of_unsent h.client hclient⟩
          · intro hnone
            have hsome := serveLine_whole hs hwritten
            rw [hline', ← frame] at hnone
            rw [hnone] at hsome
            cases hsome
        · rw [frame_append] at hpart
          have hline' := readLine_part (oneLine_plain (hs.token token).1) hpart hline
          rw [serveLine_token hs (Or.inl hline')]
          exact Or.inr ⟨⟨by simpa using hr.quiet.served, hr.quiet.down, hr.quiet.got⟩,
            Or.inr (Or.inr hauth)⟩
      · rename_i hnone
        cases ha
        refine ⟨clientOk_quiet h.client hr.quiet _ _ w.served, front, hfront,
          hr.quiet.reads _ _, plain_of_readLine hnone, ⟨lost, ?_⟩, ?_⟩
        · rw [← hbytes]
          simp only [List.append_assoc]
        · intro hcut
          have hall := hr.whole hcut
          change front ++ (buf ++ w.up.take n) ++ w.up.drop n ++ unsent serde call w.client = _
          rw [← hall, ← List.append_assoc front, List.append_assoc (front ++ buf),
            List.take_append_drop]
    · cases ha
  · cases ha

theorem Inv.serverEof (h : Inv serde call w)
    (ha : w.step serde call .serverEof = some w') : Inv serde call w' := by
  simp only [World.step] at ha
  have hserver := h.server
  split at ha
  · rename_i hend
    have hclosed (hquiet : Quiet w) :
        Inv serde call { w with server := .closed } := by
      refine ⟨clientOk_quiet h.client hquiet _ _ w.served, Or.inr ⟨?_, ?_⟩⟩
      · exact hquiet.reads _ _
      · exact hend.2.imp id Or.inl
    split at ha
    · rename_i buf hs'
      rw [serverOk_token hs'] at hserver
      cases ha
      exact hclosed hserver.2.2.quiet
    · rename_i buf hs'
      rw [serverOk_request hs'] at hserver
      obtain ⟨front, hfront, hr⟩ := hserver
      split at ha
      · cases ha
        exact hclosed hr.quiet
      · rename_i hne
        cases ha
        obtain ⟨lost, hstream⟩ := hr.stream
        have hbytes : front ++ buf ++ (w.up ++ lost ++ unsent serde call w.client) =
            preamble serde call ++ requestLine serde call := by
          rw [← hstream]
          simp only [List.append_assoc]
        refine ⟨clientOk_quiet h.client hr.quiet _ _ _, ?_⟩
        have hquiet : Quiet { w with
            server := (serveLine serde call buf).1
            served := w.served ++ [] } :=
          ⟨by rw [List.append_nil]; exact hr.quiet.served, hr.quiet.down, hr.quiet.got⟩
        rcases reading_line hfront ⟨_, hbytes⟩ hne with
          ⟨hauth, text, hwritten, hpart, -⟩ | ⟨hauth, token, more, hpart⟩
        · rcases part_or_whole hpart with hsub | ⟨more, hmore⟩
          · rcases serveLine_request hs hwritten (Or.inr hsub) with hnone | hnow
            · rw [hnone] at hquiet ⊢
              exact Or.inr ⟨hquiet, hend.2.imp id Or.inl⟩
            · refine serverOk_served_now hr.quiet hauth ?_ hnow
              intro hcut
              refine ⟨hend.1, Or.inl (hend.2.resolve_left ?_)⟩
              rw [hcut]
              exact Bool.false_ne_true
          · exact absurd (by rw [hmore]; exact List.mem_append_right _ (List.mem_cons_self ..))
              hr.plain
        · rw [frame_append] at hpart
          rcases part_or_whole hpart with hsub | ⟨more', hmore⟩
          · rw [serveLine_token hs (Or.inr hsub)] at hquiet ⊢
            exact Or.inr ⟨hquiet, Or.inr (Or.inr hauth)⟩
          · exact absurd (by rw [hmore]; exact List.mem_append_right _ (List.mem_cons_self ..))
              hr.plain
    · cases ha
  · cases ha

omit hs in
theorem Inv.serverWrite {n : Nat} (h : Inv serde call w)
    (ha : w.step serde call (.serverWrite n) = some w') : Inv serde call w' := by
  simp only [World.step] at ha
  have hserver := h.server
  split at ha
  · rename_i rest hs'
    rw [ServerOk, hs'] at hserver
    split at ha
    · rename_i hn
      cases ha
      have hserved (server : Server) : Served serde call
          { w with server := server, down := w.down ++ rest.take n } (rest.drop n) := by
        have hall : ∀ got, w.client = .reply got →
            got ++ (w.down ++ rest.take n) ++ rest.drop n = replyLine serde call := by
          intro got hgot
          rw [← hserver.2.whole hn.1 got hgot]
          nth_rewrite 3 [← List.take_append_drop n rest]
          simp only [List.append_assoc]
        exact ⟨hserver.2.served, hserver.2.authorised, hserver.2.heard,
          fun got hgot => ⟨[], by rw [List.append_nil]; exact hall got hgot⟩, fun _ => hall⟩
      refine ⟨h.client, serverOk_served (hserved _) ?_⟩
      change Standing (if n = rest.length then .closed else .reply (rest.drop n)) (rest.drop n)
      split
      · rename_i hall
        exact Or.inr ⟨rfl, by rw [hall, List.drop_length]⟩
      · rename_i hpart
        have hlt : n < rest.length := by omega
        exact Or.inl ⟨rfl, fun hnil => absurd (List.drop_eq_nil_iff.mp hnil) (Nat.not_le.mpr hlt)⟩
    · cases ha
  · cases ha

omit hs in
theorem Inv.serverFail (h : Inv serde call w)
    (ha : w.step serde call .serverFail = some w') : Inv serde call w' := by
  simp only [World.step] at ha
  split at ha
  · rename_i hfail
    cases ha
    refine ⟨h.client, ?_⟩
    rcases served_or_quiet h.server with ⟨rest, hserved, -⟩ | ⟨hquiet, -⟩
    · left
      have hcut : ∀ got, w.client = .reply got → w.cut = true := by
        intro got hgot
        refine hfail.2.resolve_right ?_
        rw [hgot]
        exact Bool.false_ne_true
      refine ⟨hserved.served, hserved.authorised, hserved.heard, ?_, ?_⟩
      · intro got hgot
        obtain ⟨lost, hstream⟩ := hserved.stream got hgot
        exact ⟨lost ++ rest, by rw [← hstream]; simp only [List.append_assoc, List.append_nil]⟩
      · intro hno got hgot
        exact absurd (hno.symm.trans (hcut got hgot)) Bool.false_ne_true
    · exact Or.inr ⟨hquiet.reads _ _, hfail.2.imp id Or.inl⟩
  · cases ha

theorem Inv.step {a : Action} (h : Inv serde call w) (ha : w.step serde call a = some w') :
    Inv serde call w' := by
  cases a with
  | clientWrite n => exact h.clientWrite ha
  | clientRead n => exact h.clientRead hs ha
  | clientEof => exact h.clientEof hs ha
  | clientFail why => exact h.clientFail ha
  | serverRead n => exact h.serverRead hs ha
  | serverEof => exact h.serverEof hs ha
  | serverWrite n => exact h.serverWrite ha
  | serverFail => exact h.serverFail ha
  | cut => exact h.cut ha

end Server

end Runs

section Whole

variable {α β : Type} {serde : SerdeJson α β} {call : Call α β} {w : World α β}

/-- Who has all the bytes of the request has the end of its line. -/
theorem Reading.lineFeed {front buf : List UInt8} (hr : Reading serde call w front buf)
    (hfront : front = [] ∨ front = preamble serde call) {text : String}
    (hwritten : serde.writeRequest call.request = .ok text) (hcut : w.cut = false)
    (hunsent : unsent serde call w.client = []) : w.up ≠ [] := by
  intro hup
  have hall := hr.whole hcut
  have hline : requestLine serde call = frame text := by rw [requestLine, hwritten]
  rw [hup, hunsent, List.append_nil, List.append_nil, hline] at hall
  have hlast : 10 ∈ frame text := List.mem_append_right _ (List.mem_singleton.mpr rfl)
  refine hr.plain ?_
  rcases hfront with rfl | rfl
  · rw [List.nil_append] at hall
    rw [hall]
    exact List.mem_append_right _ hlast
  · rw [List.append_cancel_left hall]
    exact hlast

theorem serverRead_enabled {b : UInt8} {up : List UInt8} (hup : w.up = b :: up)
    (hserver : (∃ buf, w.server = .token buf) ∨ ∃ buf, w.server = .request buf) :
    w.step serde call (.serverRead 1) ≠ none := by
  rcases hserver with ⟨buf, hserver⟩ | ⟨buf, hserver⟩
  · simp [World.step, hserver, hup]
  · simp only [World.step, hserver]
    rw [if_pos ⟨Nat.one_pos, by rw [hup]; exact Nat.succ_pos _⟩]
    split <;> simp

/-- A connection on which nothing can happen has come to its end. -/
theorem Inv.done_of_stuck (h : Inv serde call w)
    (hstuck : ∀ a, a ≠ .cut → w.step serde call a = none) : w.client.isDone = true := by
  by_contra hopen
  have hopen := Bool.eq_false_of_not_eq_true hopen
  have hcut : w.cut = false := by
    by_contra hcut
    have hfail := hstuck (.clientFail "") nofun
    simp only [World.step] at hfail
    rw [if_pos ⟨hopen, Or.inl (Bool.eq_true_of_not_eq_false hcut)⟩] at hfail
    cases hfail
  have hclient := h.client
  cases hc : w.client with
  | done result =>
    rw [hc] at hopen
    cases hopen
  | token rest =>
    rw [clientOk_token hc] at hclient
    have hwrite := hstuck (.clientWrite rest.length) nofun
    simp only [World.step, hc] at hwrite
    rw [if_pos ⟨hcut, List.length_pos_iff.mpr hclient, Nat.le_refl _⟩] at hwrite
    cases hwrite
  | request rest =>
    rw [ClientOk, hc] at hclient
    have hwrite := hstuck (.clientWrite rest.length) nofun
    simp only [World.step, hc] at hwrite
    rw [if_pos ⟨hcut, List.length_pos_iff.mpr hclient.1, Nat.le_refl _⟩] at hwrite
    cases hwrite
  | reply got =>
    rw [ClientOk, hc] at hclient
    obtain ⟨-, text, hwritten⟩ := hclient
    have hunsent : unsent serde call w.client = [] := by rw [hc]; rfl
    have hdown : w.down = [] := by
      by_contra hdown
      have hread := hstuck (.clientRead 1) nofun
      simp only [World.step, hc] at hread
      rw [if_pos ⟨Nat.one_pos, List.length_pos_iff.mpr hdown⟩] at hread
      cases hread
    have hread (hreading : (∃ buf, w.server = .token buf) ∨ ∃ buf, w.server = .request buf)
        (hup : w.up ≠ []) : False := by
      obtain ⟨b, up, hup⟩ := List.exists_cons_of_ne_nil hup
      exact serverRead_enabled hup hreading (hstuck _ nofun)
    have hserver := h.server
    cases hs' : w.server with
    | token buf =>
      rw [serverOk_token hs'] at hserver
      exact hread (Or.inl ⟨buf, hs'⟩)
        (hserver.2.2.lineFeed (Or.inl rfl) hwritten hcut hunsent)
    | request buf =>
      rw [serverOk_request hs'] at hserver
      obtain ⟨front, hfront, hr⟩ := hserver
      exact hread (Or.inr ⟨buf, hs'⟩) (hr.lineFeed (hfront.symm.imp And.left And.left) hwritten
        hcut hunsent)
    | reply rest =>
      rw [ServerOk, hs'] at hserver
      have hwrite := hstuck (.serverWrite rest.length) nofun
      simp only [World.step, hs'] at hwrite
      rw [if_pos ⟨hcut, List.length_pos_iff.mpr hserver.1, Nat.le_refl _⟩] at hwrite
      cases hwrite
    | closed =>
      have hend := hstuck .clientEof nofun
      simp only [World.step, hc] at hend
      rw [if_pos ⟨hdown, Or.inr hs'⟩] at hend
      cases hend

theorem Inv.result (h : Inv serde call w) {result : Except ControlWire.CoreError β}
    (hdone : w.client = .done result) :
    (result = fromReply (call.answer call.request) ∧ w.served = [call.request]) ∨
      ∃ e, result = .error e ∧ LinkError e ∧ (w.cut = true ∨ Refused serde call) := by
  have hclient := h.client
  rw [ClientOk, hdone] at hclient
  exact hclient

theorem Inv.servedOnce (h : Inv serde call w) :
    w.served = [] ∨ w.served = [call.request] ∧ Authorised serde call := by
  rcases served_or_quiet h.server with ⟨rest, hserved, -⟩ | ⟨hquiet, -⟩
  · exact Or.inr ⟨hserved.served, hserved.authorised⟩
  · exact Or.inl hquiet.served

/-- However the bytes come and wherever the connection breaks, the request is handed on once at
most, and only if the token is right; the caller has the reply to it or an error of the
connection, which only a break or a refusal gives; and where nothing more can happen it has one. -/
theorem request_run (hs : serde.Documented) {as : List Action}
    (hrun : Machine.run (World.step serde call) (World.start serde call) as = some w) :
    (w.served = [] ∨ w.served = [call.request] ∧ Authorised serde call) ∧
      (∀ result, w.client = .done result →
        (result = fromReply (call.answer call.request) ∧ w.served = [call.request]) ∨
          ∃ e, result = .error e ∧ LinkError e ∧ (w.cut = true ∨ Refused serde call)) ∧
      ((∀ a, a ≠ .cut → w.step serde call a = none) → w.client.isDone = true) := by
  have hinv : Inv serde call w := Machine.run_invariant (fun _ _ _ h ha => h.step hs ha)
    Inv.start hrun
  exact ⟨hinv.servedOnce, fun _ hdone => hinv.result hdone, hinv.done_of_stuck⟩

end Whole

section Sample

def listText : String := "\x7b\"kind\":\"list\"\x7d"

def listedText : String := "\x7b\"kind\":\"listed\",\"agents\":[]\x7d"

/-- Of the characters of a token all but letters, digits and four marks are written by their
codes, which is how none of them ends the text. -/
def preambleText (token : String) : String :=
  "\x7b" ++ ("\"bearer\":\"" ++ Routing.encodeSegment token ++ "\"") ++ "\x7d"

def listJson : SerdeJson Unit Unit where
  writeToken := preambleText
  readToken text :=
    match Lines.decode (Percent.decode ((text.toList.drop 11).dropLast.dropLast)) with
    | some token =>
      if preambleText token = text then .ok token else .error "missing field `bearer`"
    | none => .error "missing field `bearer`"
  writeRequest _ := .ok listText
  readRequest text := if text = listText then .ok () else .error "missing field `kind`"
  writeReply
    | .other _ => .ok listedText
    | .error _ => .error "no such reply"
  readReply text := if text = listedText then .ok (.other ()) else .error "missing field `kind`"

theorem toList_preambleText (token : String) : (preambleText token).toList =
    ['\x7b', '"', 'b', 'e', 'a', 'r', 'e', 'r', '"', ':', '"'] ++
      (Routing.encodeSegment token).toList ++ ['"', '\x7d'] := by
  rw [preambleText]
  simp only [String.toList_append, List.append_assoc]
  rfl

theorem oneLine_preambleText (token : String) : OneLine (preambleText token) := by
  refine ⟨_, rfl, ?_⟩
  simp only [String.toList_append, List.mem_append]
  rintro ((h | h) | h)
  · exact absurd h (by decide)
  · exact absurd (Routing.asIs_encodeSegment token _ h) (by decide)
  · exact absurd h (by decide)

theorem run_string {cs : List Char} (h : ∀ c ∈ cs, c ≠ '"' ∧ c ≠ '\\') :
    JsonText.run (.inside 0 .string) cs = some (.inside 0 .string) := by
  induction cs with
  | nil => rfl
  | cons c cs ih =>
    obtain ⟨hquote, hslash⟩ := h c (List.mem_cons_self ..)
    have hstep : JsonText.step (.inside 0 .string) c = some (.inside 0 .string) := by
      rw [JsonText.step, JsonText.move, if_neg hquote, if_neg hslash]
      rfl
    rw [JsonText.run, hstep]
    exact ih fun d hd => h d (List.mem_cons_of_mem _ hd)

theorem whole_preambleText (token : String) : JsonText.Whole (preambleText token).toList := by
  have hopen : JsonText.run .before ['\x7b', '"', 'b', 'e', 'a', 'r', 'e', 'r', '"', ':', '"'] =
      some (.inside 0 .string) := rfl
  rw [toList_preambleText, JsonText.Whole, JsonText.run_append, JsonText.run_append, hopen]
  dsimp only [Option.bind]
  rw [run_string fun c hc => ?_]
  · rfl
  · have hasIs := Routing.asIs_encodeSegment token c hc
    constructor
    · rintro rfl
      exact absurd hasIs (by decide)
    · rintro rfl
      exact absurd hasIs (by decide)

theorem of_readToken {text token : String} (h : listJson.readToken text = .ok token) :
    text = preambleText token := by
  simp only [listJson] at h
  split at h
  · split at h
    · rename_i heq
      cases h
      exact heq.symm
    · cases h
  · cases h

theorem readToken_preambleText (token : String) :
    listJson.readToken (preambleText token) = .ok token := by
  have hmiddle : ((preambleText token).toList.drop 11).dropLast.dropLast =
      (Routing.encodeSegment token).toList := by
    rw [toList_preambleText, List.append_assoc]
    change ((Routing.encodeSegment token).toList ++ ['"', '\x7d']).dropLast.dropLast = _
    simp
  simp only [listJson]
  rw [hmiddle, Routing.decode_encodeSegment]
  exact if_pos rfl

theorem preambleText_ne (token : String) : preambleText token ≠ listText := by
  intro h
  have hlist := congrArg String.toList h
  rw [toList_preambleText] at hlist
  have hthird := congrArg (·[2]?) hlist
  simp [listText] at hthird

theorem oneLine_listText : OneLine listText := ⟨"\"kind\":\"list\"", rfl, by decide⟩

theorem oneLine_listedText : OneLine listedText :=
  ⟨"\"kind\":\"listed\",\"agents\":[]", rfl, by decide⟩

theorem readRequest_eq_ok {text : String} :
    listJson.readRequest text = .ok () ↔ text = listText := by
  simp only [listJson]
  split <;> simp_all

theorem readReply_eq_ok {text : String} {reply : CtlReply Unit} :
    listJson.readReply text = .ok reply ↔ text = listedText ∧ reply = .other () := by
  simp only [listJson]
  split <;> simp_all [eq_comm]

theorem writeReply_eq_ok {reply : CtlReply Unit} {text : String} :
    listJson.writeReply reply = .ok text ↔ reply = .other () ∧ text = listedText := by
  cases reply with
  | error e => simp [listJson]
  | other reply => simp [listJson, eq_comm]

theorem whole_listText : JsonText.Whole listText.toList := rfl

theorem whole_listedText : JsonText.Whole listedText.toList := rfl

theorem listJson_documented : listJson.Documented where
  token token := by
    have hwritten : listJson.writeToken token = preambleText token := rfl
    rw [hwritten]
    exact ⟨oneLine_preambleText token, readToken_preambleText token⟩
  request request text h := by
    obtain rfl := (Except.ok.inj h).symm
    exact ⟨oneLine_listText, readRequest_eq_ok.mpr rfl⟩
  reply reply text h := by
    obtain ⟨rfl, rfl⟩ := writeReply_eq_ok.mp h
    exact ⟨oneLine_listedText, readReply_eq_ok.mpr ⟨rfl, rfl⟩⟩
  wholeToken text token h := by
    rw [of_readToken h]
    exact whole_preambleText token
  wholeRequest text request h := by
    rw [readRequest_eq_ok.mp h]
    exact whole_listText
  wholeReply text reply h := by
    rw [(readReply_eq_ok.mp h).1]
    exact whole_listedText
  noKind token request h := preambleText_ne token (readRequest_eq_ok.mp h)
  noBearer request text token hwritten hread := by
    obtain rfl := (Except.ok.inj hwritten).symm
    exact preambleText_ne token (of_readToken hread).symm

def listCall : Call Unit Unit where
  tcp := true
  token := some "s3"
  expected := some "s3"
  request := ()
  answer _ := .other ()

/-- The token is read byte by byte, and the request in two pieces. -/
def listed : List Action :=
  [.clientWrite 16] ++ List.replicate 16 (.serverRead 1) ++
    [.clientWrite 5, .serverRead 3, .clientWrite 11, .serverRead 13, .serverWrite 30,
      .clientRead 30]

/-- All of the token has come but for the end of its line. -/
def presented : World Unit Unit where
  client := .request (frame listText)
  up := [10]
  server := .token (Lines.encode (preambleText "s3"))
  down := []
  cut := false
  served := []

def admitted : World Unit Unit := { presented with server := .request [], up := [] }

theorem step_admitted :
    World.step listJson listCall presented (.serverRead 1) = some admitted := by
  have hcheck : checkToken listJson listCall (Lines.encode (preambleText "s3")) = true :=
    (checkToken_iff listJson_documented).mpr rfl
  have hserver : Server.tokenByte listJson listCall (Lines.encode (preambleText "s3")) 10 =
      .request [] := by
    rw [Server.tokenByte, if_pos rfl, if_pos hcheck]
  change some { presented with
    server := Server.tokenByte listJson listCall (Lines.encode (preambleText "s3")) 10
    up := [] } = _
  rw [hserver]
  rfl

theorem request_run_listed : ∃ w,
    Machine.run (World.step listJson listCall) (World.start listJson listCall) listed = some w ∧
      w.client = .done (.ok ()) ∧
      (w.served = [] ∨ w.served = [()] ∧ Authorised listJson listCall) ∧
      ((∀ a, a ≠ .cut → w.step listJson listCall a = none) → w.client.isDone = true) := by
  have hpresented : Machine.run (World.step listJson listCall) (World.start listJson listCall)
      (listed.take 16) = some presented := rfl
  have hrest : ∃ w, Machine.run (World.step listJson listCall) admitted (listed.drop 17) = some w ∧
      w.client = .done (.ok ()) := ⟨_, rfl, rfl⟩
  obtain ⟨w, hrest, hdone⟩ := hrest
  have hrun : Machine.run (World.step listJson listCall) (World.start listJson listCall) listed =
      some w := by
    refine (Machine.run_append (listed.drop 16) hpresented).trans ?_
    exact (Machine.run_step step_admitted _).trans hrest
  obtain ⟨hserved, -, hstuck⟩ := request_run listJson_documented hrun
  exact ⟨w, hrun, hdone, hserved, hstuck⟩

end Sample

end Prospero.Proofs.ControlWire
