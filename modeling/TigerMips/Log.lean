import TigerMips.Source
import TigerMips.Text.Color
import TigerMips.Text.Plain

namespace TigerMips

structure Diagnostic where
  message : String
  span : Option Span
  deriving DecidableEq, Repr

structure Log where
  errors : List Diagnostic := []
  messages : List String := []
  echo : Bool := false
  deriving DecidableEq, Repr

namespace Log

def hasError (log : Log) : Bool := !log.errors.isEmpty

def error (log : Log) (message : String) (span : Option Span) : Log :=
  { log with errors := log.errors ++ [⟨message, span⟩] }

def message (log : Log) (text : String) : Log :=
  { log with messages := log.messages ++ [Text.plain text] }

def printed (log : Log) (text : String) : String :=
  if log.echo then text ++ "\n" else ""

def place? (source : Source) : Option Span → Option String
  | some span => (source.position? span).map fun position => "(at " ++ position ++ ")"
  | none => some ("(in " ++ source.origin.text ++ ")")

def line? (colors : Bool) (source : Source) (diagnostic : Diagnostic) : Option String :=
  (place? source diagnostic.span).map fun place =>
    Text.Color.red.paint colors "error" ++ ": " ++ diagnostic.message ++ " " ++
      Text.Color.white.paint colors place ++ "\n"

def report? (colors : Bool) (log : Log) (source : Source) : Option String :=
  (log.errors.mapM (line? colors source)).map String.join

end Log

end TigerMips
