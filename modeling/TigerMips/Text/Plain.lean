/-! Plain text: what a terminal would show of a text with control sequences. -/

namespace TigerMips.Text

inductive Reading where
  | shown
  | escape
  | intermediate
  | control
  | command
  | device
  | deviceParams
  | deviceIntermediate
  | deviceData
  | ignored
  deriving DecidableEq, Repr

namespace Reading

def isCancel (c : Char) : Bool := c.toNat == 0x18 || c.toNat == 0x1A

def isEscape (c : Char) : Bool := c.toNat == 0x1B

def isBetween (low high : Nat) (c : Char) : Bool := low ≤ c.toNat && c.toNat ≤ high

def lineFeed (c : Char) : List Char := if c = '\n' then [c] else []

def afterEscape (c : Char) : Reading :=
  if isBetween 0x20 0x2F c then intermediate
  else if c = '[' then control
  else if c = ']' then command
  else if c = 'P' then device
  else if c = 'X' || c = '^' || c = '_' then ignored
  else if isBetween 0x30 0x7E c then shown
  else escape

/-- The way from the start of a device string to its data, which a letter opens. Parameters come
before intermediates, and only at their start may they have a mark from `<` to `?`. -/
def afterDevice (reading : Reading) (c : Char) : Reading :=
  if isBetween 0x40 0x7E c then deviceData
  else if isBetween 0x20 0x2F c then deviceIntermediate
  else if isBetween 0x30 0x3B c then
    if reading = deviceIntermediate then ignored else deviceParams
  else if isBetween 0x3C 0x3F c then
    if reading = device then deviceParams else ignored
  else reading

def terminator : UInt8 := 0x9C

def strayByte (byte : UInt8) : List Char :=
  if byte < 0xA0 then [] else ['\ufffd']

def inData (c : Char) : Reading × List Char :=
  match (String.utf8EncodeChar c).dropWhile (· ≠ terminator) with
  | [] => (deviceData, [])
  | _ :: rest => (shown, rest.flatMap strayByte)

def next (reading : Reading) (c : Char) : Reading × List Char :=
  if isEscape c then (escape, [])
  else if isCancel c then (shown, [])
  else
    match reading with
    | shown =>
      if isBetween 0 0x1F c || isBetween 0x80 0x9F c then (shown, lineFeed c) else (shown, [c])
    | command => (if c.toNat == 0x07 then shown else command, [])
    | ignored => (ignored, [])
    | device | deviceParams | deviceIntermediate => (afterDevice reading c, [])
    | deviceData => inData c
    | escape => (afterEscape c, lineFeed c)
    | intermediate =>
      if isBetween 0x30 0x7E c then (shown, []) else (intermediate, lineFeed c)
    | control => if isBetween 0x40 0x7E c then (shown, []) else (control, lineFeed c)

end Reading

def plainFrom : Reading → List Char → List Char
  | _, [] => []
  | reading, c :: rest => (reading.next c).2 ++ plainFrom (reading.next c).1 rest

/-- Removes control sequences and every control character but the line feed. A sequence that the
text does not finish is removed as well. -/
def plain (text : String) : String :=
  String.ofList (plainFrom .shown text.toList)

end TigerMips.Text
