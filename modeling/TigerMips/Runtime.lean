import TigerMips.Function

namespace TigerMips

inductive Runtime where
  | print | printi | flush | getchar | ord | chr | size | substring | concat | not | exit
  | malloc
  | strcmp
  deriving DecidableEq, Repr

namespace Runtime

def name : Runtime → String
  | print => "print"
  | printi => "printi"
  | flush => "flush"
  | getchar => "getchar"
  | ord => "ord"
  | chr => "chr"
  | size => "size"
  | substring => "substring"
  | concat => "concat"
  | not => "not"
  | exit => "exit"
  | malloc => "malloc"
  | strcmp => "strcmp"

def visible : List Runtime :=
  [print, printi, flush, getchar, ord, chr, size, substring, concat, not, exit]

def all : List Runtime := visible ++ [malloc, strcmp]

def ofName? (text : String) : Option Runtime := all.find? (·.name = text)

def signature : Runtime → Signature
  | print => { params := [⟨"s", .string⟩] }
  | printi => { params := [⟨"i", .int⟩] }
  | flush => {}
  | getchar => { result := .string }
  | ord => { params := [⟨"s", .string⟩], result := .int }
  | chr => { params := [⟨"i", .int⟩], result := .string }
  | size => { params := [⟨"s", .string⟩], result := .int }
  | substring =>
    { params := [⟨"s", .string⟩, ⟨"first", .int⟩, ⟨"n", .int⟩], result := .string }
  | concat => { params := [⟨"s1", .string⟩, ⟨"s2", .string⟩], result := .string }
  | not => { params := [⟨"i", .int⟩], result := .int }
  | exit => { params := [⟨"i", .int⟩] }
  | malloc => { params := [⟨"bytes", .int⟩], result := .int }
  | strcmp => { params := [⟨"s1", .string⟩, ⟨"s2", .string⟩], result := .int }

end Runtime

end TigerMips
