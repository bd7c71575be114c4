import Mathlib.Data.List.Basic

namespace PathPattern

/-- A piece of a path pattern: a segment as it stands, any one segment, or all that is left. -/
inductive Piece
  | fixed (text : String)
  | param
  | rest
deriving DecidableEq

/-- What stands between the slashes, after the first of them. -/
def segments (path : List Char) : List (List Char) := (path.drop 1).splitOn '/'

/-- What a piece captures of the segment it stands for. -/
def Piece.take (piece : Piece) (s : List Char) : Option (List (List Char)) :=
  match piece with
  | .fixed text => if s = text.toList then some [] else none
  | .param => if s = [] then none else some [s]
  | .rest => none

def capture : List Piece → List (List Char) → Option (List (List Char))
  | [], [] => some []
  | [.rest], ss => if ['/'].intercalate ss = [] then none else some [['/'].intercalate ss]
  | piece :: pieces, s :: ss => do
    let x ← piece.take s
    let xs ← capture pieces ss
    return x ++ xs
  | _, _ => none

/-- No fixed text tells the two apart. -/
def Piece.meets : Piece → Piece → Bool
  | .fixed a, .fixed b => a = b
  | _, _ => true

def overlap : List Piece → List Piece → Bool
  | [], [] => true
  | [], piece :: _ => piece = .rest
  | piece :: _, [] => piece = .rest
  | p :: ps, q :: qs => p = .rest || q = .rest || p.meets q && overlap ps qs

end PathPattern
