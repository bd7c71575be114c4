import Prospero.Attach
import Prospero.Lib.JsonText
import Prospero.Tokens

namespace Prospero.ControlWire
open Prospero.Attach (trimEnd)
open Prospero.Auth (constantTimeEq)
open Prospero.Automations (utf8)

inductive SupervisorError
  | notFound (id : String)
  | invalidState (op id status : String)
  | internal (message : String)

/-- `error` is the reply `CtlReply::Error`; the others are one kind here. -/
inductive CtlReply (β : Type)
  | error (error : SupervisorError)
  | other (reply : β)

inductive CoreError
  | calibandUnreachable (source : String)
  | agentNotFound (id : String)
  | invalidState (op id status : String)
  | protocol (message : String)
  | json (message : String)
  | io (message : String)

def SupervisorError.toCore : SupervisorError → CoreError
  | .notFound id => .agentNotFound id
  | .invalidState op id status => .invalidState op id status
  | .internal message => .protocol message

/-- What is used of the crate `serde_json` for the lines of a connection. -/
structure SerdeJson (α β : Type) where
  writeToken : String → String
  readToken : String → Except String String
  writeRequest : α → Except String String
  readRequest : String → Except String α
  writeReply : CtlReply β → Except String String
  readReply : String → Except String (CtlReply β)

/-- A call: whether the endpoint is TCP, the token that each end is configured with, the
request, and what the daemon's handler replies to a request. -/
structure Call (α β : Type) where
  tcp : Bool
  token : Option String
  expected : Option String
  request : α
  answer : α → CtlReply β

section Lines

/-- The first line that is complete, with its line feed. -/
def readLine (buf : List UInt8) : Option (List UInt8) :=
  match (Lines.split 10 buf).1 with
  | line :: _ => some (line ++ [10])
  | [] => none

/-- A line as the end that reads it parses it; none if it is not UTF-8. -/
def lineText (line : List UInt8) : Option String := (Lines.decode line).map trimEnd

def frame (text : String) : List UInt8 := Lines.encode text ++ [10]

end Lines

section Client

variable {α β : Type} (serde : SerdeJson α β) (call : Call α β)

inductive Client (β : Type)
  | token (rest : List UInt8)
  | request (rest : List UInt8)
  | reply (got : List UInt8)
  | done (result : Except CoreError β)

/-- Once it is connected, and has sent its token: `write_frame`. -/
def Client.connected : Client β :=
  match serde.writeRequest call.request with
  | .ok text => .request (frame text)
  | .error e => .done (.error (.json e))

/-- `client_send_token` goes before, on TCP and with a token. -/
def Client.start : Client β :=
  match call.tcp, call.token with
  | true, some bearer => .token (frame (serde.writeToken bearer))
  | _, _ => .connected serde call

def fromReply : CtlReply β → Except CoreError β
  | .error e => .error e.toCore
  | .other reply => .ok reply

def closedEarly : String := "connection closed before a reply frame was read"

/-- What `read_frame` makes of what `read_line` has read, and `request` of that. -/
def finish (line : List UInt8) : Except CoreError β :=
  if line = [] then .error (.protocol closedEarly)
  else match lineText line with
    | none => .error (.io "stream did not contain valid UTF-8")
    | some text => match serde.readReply text with
      | .error e => .error (.json e)
      | .ok reply => fromReply reply

/-- An I/O error, where it strikes. -/
def Client.broken (why : String) : Client β → Client β
  | .token _ => .done (.error (.calibandUnreachable why))
  | .request _ | .reply _ => .done (.error (.io why))
  | .done result => .done result

def Client.isDone : Client β → Bool
  | .done _ => true
  | _ => false

end Client

section Server

variable {α β : Type} (serde : SerdeJson α β) (call : Call α β)

inductive Server
  | token (buf : List UInt8)
  | request (buf : List UInt8)
  | reply (rest : List UInt8)
  | closed
deriving DecidableEq

def Server.start : Server :=
  match call.tcp, call.expected with
  | true, some _ => .token []
  | _, _ => .request []

/-- `server_check_token` -/
def checkToken (line : List UInt8) : Bool :=
  match Lines.decode line with
  | none => false
  | some text => match serde.readToken text, call.expected with
    | .ok bearer, some expected => constantTimeEq (utf8 bearer) (utf8 expected)
    | _, _ => false

/-- A byte of the preamble, which is read byte by byte. -/
def Server.tokenByte (buf : List UInt8) (b : UInt8) : Server :=
  if b = 10 then if checkToken serde call buf then .request [] else .closed
  else if (buf ++ [b]).length > 4096 then .closed
  else .token (buf ++ [b])

/-- What the daemon does with the line it has read, and the request it hands on if it does. -/
def serveLine (line : List UInt8) : Server × List α :=
  match lineText line with
  | none => (.closed, [])
  | some text => match serde.readRequest text with
    | .error _ => (.closed, [])
    | .ok request => match serde.writeReply (call.answer request) with
      | .error _ => (.closed, [request])
      | .ok reply => (.reply (frame reply), [request])

end Server

/-- A connection: its two ends, the bytes under way to each, whether it broke, and the requests
that were handed to the daemon's handler. -/
structure World (α β : Type) where
  client : Client β
  up : List UInt8
  server : Server
  down : List UInt8
  cut : Bool
  served : List α

/-- Bytes are written and read in pieces of any size. `clientEof` and `serverEof` are reads of
nothing at the end, `clientFail` and `serverFail` I/O errors. -/
inductive Action
  | clientWrite (n : Nat)
  | clientRead (n : Nat)
  | clientEof
  | clientFail (why : String)
  | serverRead (n : Nat)
  | serverEof
  | serverWrite (n : Nat)
  | serverFail
  | cut
deriving DecidableEq

namespace World

variable {α β : Type} (serde : SerdeJson α β) (call : Call α β)

def step (w : World α β) : Action → Option (World α β)
  | .clientWrite n =>
    match w.client with
    | .token rest =>
      if w.cut = false ∧ 0 < n ∧ n ≤ rest.length then
        some { w with
          client := if n = rest.length then .connected serde call else .token (rest.drop n)
          up := w.up ++ rest.take n }
      else none
    | .request rest =>
      if w.cut = false ∧ 0 < n ∧ n ≤ rest.length then
        some { w with
          client := if n = rest.length then .reply [] else .request (rest.drop n)
          up := w.up ++ rest.take n }
      else none
    | _ => none
  | .clientRead n =>
    match w.client with
    | .reply got =>
      if 0 < n ∧ n ≤ w.down.length then
        some { w with
          client := match readLine (got ++ w.down.take n) with
            | some line => .done (finish serde line)
            | none => .reply (got ++ w.down.take n)
          down := w.down.drop n }
      else none
    | _ => none
  | .clientEof =>
    match w.client with
    | .reply got =>
      if w.down = [] ∧ (w.cut = true ∨ w.server = .closed) then
        some { w with client := .done (finish serde got) }
      else none
    | _ => none
  | .clientFail why =>
    -- a write to an end that has closed, or a read after one
    if w.client.isDone = false ∧ (w.cut = true ∨ (w.server = .closed ∧ w.up ≠ [])) then
      some { w with client := w.client.broken why }
    else none
  | .serverRead n =>
    match w.server with
    | .token buf =>
      match w.up with
      | b :: up =>
        if n = 1 then some { w with server := .tokenByte serde call buf b, up := up } else none
      | [] => none
    | .request buf =>
      if 0 < n ∧ n ≤ w.up.length then
        match readLine (buf ++ w.up.take n) with
        | some line => some { w with
            server := (serveLine serde call line).1
            served := w.served ++ (serveLine serde call line).2
            up := w.up.drop n }
        | none => some { w with server := .request (buf ++ w.up.take n), up := w.up.drop n }
      else none
    | _ => none
  | .serverEof =>
    if w.up = [] ∧ (w.cut = true ∨ w.client.isDone = true) then
      match w.server with
      | .token _ => some { w with server := .closed }
      | .request buf =>
        if buf = [] then some { w with server := .closed }
        else some { w with
          server := (serveLine serde call buf).1
          served := w.served ++ (serveLine serde call buf).2 }
      | _ => none
    else none
  | .serverWrite n =>
    match w.server with
    | .reply rest =>
      if w.cut = false ∧ 0 < n ∧ n ≤ rest.length then
        some { w with
          server := if n = rest.length then .closed else .reply (rest.drop n)
          down := w.down ++ rest.take n }
      else none
    | _ => none
  | .serverFail =>
    if w.server ≠ .closed ∧ (w.cut = true ∨ w.client.isDone = true) then
      some { w with server := .closed }
    else none
  | .cut => if w.cut = true then none else some { w with cut := true, up := [], down := [] }

def start : World α β := ⟨.start serde call, [], .start call, [], false, []⟩

end World

/-- The text of an object, on one line. -/
def OneLine (text : String) : Prop :=
  ∃ fields, text = "\x7b" ++ fields ++ "\x7d" ∧ '\n' ∉ fields.toList

/-- Its documentation: what is written is an object on one line and is read back, only a whole
JSON text is read, and a required field that is missing is an error. -/
structure SerdeJson.Documented {α β : Type} (serde : SerdeJson α β) : Prop where
  token : ∀ token, OneLine (serde.writeToken token) ∧
    serde.readToken (serde.writeToken token) = .ok token
  request : ∀ request text, serde.writeRequest request = .ok text →
    OneLine text ∧ serde.readRequest text = .ok request
  reply : ∀ reply text, serde.writeReply reply = .ok text →
    OneLine text ∧ serde.readReply text = .ok reply
  wholeToken : ∀ text token, serde.readToken text = .ok token → JsonText.Whole text.toList
  wholeRequest : ∀ text request, serde.readRequest text = .ok request → JsonText.Whole text.toList
  wholeReply : ∀ text reply, serde.readReply text = .ok reply → JsonText.Whole text.toList
  noKind : ∀ token request, serde.readRequest (serde.writeToken token) ≠ .ok request
  noBearer : ∀ request text token, serde.writeRequest request = .ok text →
    serde.readToken text ≠ .ok token

end Prospero.ControlWire
