import Prospero.Auth

namespace Prospero.Auth
open Automations (splitWhitespace stripPrefix trim utf8)

def Scope.parse : String → Option Scope
  | "read" => some .read
  | "operate" => some .operate
  | "admin" => some .admin
  | _ => none

/-- `str::lines` -/
def lines (cs : List Char) : List (List Char) :=
  let pieces := cs.splitOn '\n'
  let ended := pieces.dropLast.map fun l => if l.getLast? = some '\r' then l.dropLast else l
  match pieces.getLast? with
  | some [] | none => ended
  | some last => ended ++ [last]

section Hash

def hexValue (c : Char) : Option Nat :=
  if c.isDigit then some (c.toNat - '0'.toNat)
  else if 'a' ≤ c ∧ c ≤ 'f' then some (c.toNat - 'a'.toNat + 10)
  else if 'A' ≤ c ∧ c ≤ 'F' then some (c.toNat - 'A'.toNat + 10)
  else none

/-- `hex::decode` -/
def hexDecode : List Char → Option (List UInt8)
  | [] => some []
  | [_] => none
  | a :: b :: cs => do
    let high ← hexValue a
    let low ← hexValue b
    let rest ← hexDecode cs
    return UInt8.ofNat (16 * high + low) :: rest

def parseHash (s : List Char) : Option (List UInt8) := do
  let hexPart ← stripPrefix "sha256:".toList s
  if hexPart.length ≠ 64 ∨ hexPart.any Char.isUpper then none
  let bytes ← hexDecode hexPart
  if bytes.length = 32 then some bytes else none

end Hash

section TokensFile

-- what `{:?}` makes of a text
variable (debug : String → String)

def isNameChar (c : Char) : Bool := c.isLower || c.isDigit || c = '_' || c = '-'

/-- `[a-z0-9][a-z0-9_-]{0,62}`. What passes is ASCII, so it is as long in bytes. -/
def validateTokenName (name : String) : Except String Unit :=
  let okFirst := name.toList.head?.any fun c => c.isLower || c.isDigit
  let okRest := name.toList.all isNameChar
  if okFirst ∧ okRest ∧ name.toList.length ≤ 63 then .ok ()
  else .error s!"invalid token name {debug name} (expected [a-z0-9][a-z0-9_-]\x7b0,62\x7d)"

/-- A blank line or a comment adds nothing. -/
def parseLine (entries : TokenSet) (raw : List Char) (lineNo : Nat) : Except String TokenSet :=
  let line := trim raw
  if line = [] ∨ line.head? = some '#' then .ok entries
  else
    let err (reason : String) : Except String TokenSet := .error s!"line {lineNo}: {reason}"
    match splitWhitespace line with
    | [name, scope, hash] =>
      match validateTokenName debug (String.ofList name) with
      | .error why => err why
      | .ok () =>
        match Scope.parse (String.ofList scope) with
        | none => err s!"unknown scope {debug (String.ofList scope)} (read|operate|admin)"
        | some scope =>
          match parseHash hash with
          | none => err "hash must be sha256: followed by 64 lowercase hex characters"
          | some hash =>
            if entries.any fun e => e.name = String.ofList name then
              err s!"duplicate token name {debug (String.ofList name)}"
            else .ok (entries ++ [⟨String.ofList name, scope, hash⟩])
    | _ => err "expected `<name> <scope> sha256:<hex>`"

def TokenSet.parse (src : String) : Except String TokenSet :=
  match (lines src.toList).zipIdx.foldlM
      (fun entries l => parseLine debug entries l.1 (l.2 + 1)) ([] : TokenSet) with
  | .error e => .error e
  | .ok [] => .error "tokens file contains no tokens"
  | .ok entries => .ok entries

end TokensFile

section Issue

variable (crypto : Crypto)

def tokenPrefix : String := "pspo_"

/-- The bytes are random, 32 of them. -/
def generateToken (bytes : List UInt8) : String := tokenPrefix ++ crypto.base64Url bytes

def hashToken (token : String) : List UInt8 := crypto.sha256 (utf8 token)

def hexDigit (n : Nat) : Char :=
  if n < 10 then Char.ofNat ('0'.toNat + n) else Char.ofNat ('a'.toNat + (n - 10))

/-- `hex::encode` -/
def hexEncode (bytes : List UInt8) : List Char :=
  bytes.flatMap fun b => [hexDigit (b.toNat / 16), hexDigit (b.toNat % 16)]

/-- `sha256:<lowercase hex>`. -/
def formatHash (hash : List UInt8) : String := "sha256:" ++ String.ofList (hexEncode hash)

def tokensFileLine (name : String) (scope : Scope) (token : String) : String :=
  name ++ " " ++ scope.asStr ++ " " ++ formatHash (hashToken crypto token)

/-- Every byte is looked at, wherever the first difference lies. -/
def constantTimeEq (a b : List UInt8) : Bool :=
  if a.length ≠ b.length then false
  else (a.zip b).foldl (fun diff (x, y) => diff ||| (x ^^^ y)) 0 = 0

/-- Every entry is compared, also after a match. -/
def TokenSet.authenticate (tokens : TokenSet) (token : String) : Option TokenEntry :=
  tokens.foldl (fun found e =>
    if constantTimeEq e.hash (hashToken crypto token) && found.isNone then some e else found) none

end Issue

/-- The cookie value for an entry. -/
def sign (crypto : Crypto) (key : List UInt8) (entry : TokenEntry) (expiresUnix : Int) : String :=
  s!"v1.{entry.name}.{expiresUnix}.{mac crypto key entry.name expiresUnix entry.hash}"

end Prospero.Auth
