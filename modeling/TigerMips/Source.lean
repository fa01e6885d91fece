/-! Source texts and the byte positions of program parts in them. -/

namespace TigerMips

structure Span where
  start : Nat := 0
  stop : Nat := 0
  deriving DecidableEq, Repr

inductive Origin where
  | memory
  | file (path : String)
  deriving DecidableEq, Repr

def Origin.text : Origin → String
  | memory => "<memory>"
  | file path => path

structure Source where
  contents : String
  origin : Origin := .memory
  deriving DecidableEq, Repr

namespace Source

def splitBytes : Nat → List Char → Option (List Char × List Char)
  | 0, rest => some ([], rest)
  | _ + 1, [] => none
  | n + 1, c :: rest =>
    if c.utf8Size ≤ n + 1 then
      (splitBytes (n + 1 - c.utf8Size) rest).map fun parts => (c :: parts.1, parts.2)
    else none

def byteSize (text : List Char) : Nat :=
  text.foldl (fun size c => size + c.utf8Size) 0

def before? (source : Source) (position : Nat) : Option (List Char) :=
  (splitBytes (min position (byteSize source.contents.toList)) source.contents.toList).map
    Prod.fst

def row? (source : Source) (position : Nat) : Option Nat :=
  (source.before? position).map fun text => text.count '\n' + 1

def column? (source : Source) (position : Nat) : Option Nat :=
  (source.before? position).map fun text =>
    byteSize (text.reverse.takeWhile (· ≠ '\n')) + 1

def slice? (source : Source) (span : Span) : Option String :=
  if span.start ≤ span.stop then do
    let upTo ← splitBytes span.stop source.contents.toList
    let parts ← splitBytes span.start upTo.1
    return String.ofList parts.2
  else none

def position? (source : Source) (span : Span) : Option String := do
  let row ← source.row? span.start
  let column ← source.column? span.start
  return source.origin.text ++ ":" ++ toString row ++ ":" ++ toString column

end Source

end TigerMips
