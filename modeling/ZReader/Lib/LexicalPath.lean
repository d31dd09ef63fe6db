import ZReader.Lib.Utf8

namespace Lib.LexicalPath

open Utf8

/-! ## Slash-separated paths -/

def slash : UInt8 := 47

def dot : Bytes := [46]

def dotDot : Bytes := [46, 46]

def isAbs (path : Bytes) : Bool := path.head? = some slash

def cleanStep (rooted : Bool) (stack : List Bytes) (part : Bytes) : List Bytes :=
  if part = [] ∨ part = dot then stack
  else if part = dotDot then
    match stack with
    | [] => if rooted then [] else [dotDot]
    | top :: rest => if top = dotDot then dotDot :: stack else rest
  else part :: stack

/-- The parts of the path that `Clean` returns. There is none for the root and for the
current directory. -/
def cleanParts (path : Bytes) : List Bytes :=
  ((path.splitOn slash).foldl (cleanStep (isAbs path)) []).reverse

end Lib.LexicalPath
