import SchemaReport.Json.Error

/-! Text literals. A literal is read in two steps: first its pieces, which are characters and
16-bit units given by number, up to where it ends; then the text, for which units that stand for
half a character must come in pairs. -/

namespace SchemaReport.Json

-- Sums start at the zero of the core library, also where an algebraic hierarchy brings its own.
attribute [local instance (high)] Zero.ofOfNat0

/-- The short form of a character after a backslash. -/
def escapeOf? (c : Char) : Option Char :=
  if c = '"' then some '"'
  else if c = '\\' then some '\\'
  else if c = '\x08' then some 'b'
  else if c = '\x0c' then some 'f'
  else if c = '\n' then some 'n'
  else if c = '\r' then some 'r'
  else if c = '\t' then some 't'
  else none

def writeChar (c : Char) : List Char :=
  match escapeOf? c with
  | some e => ['\\', e]
  | none => if c.toNat < 0x20 then '\\' :: 'u' :: (Text.hexadecimal c.toNat).leftpad 4 '0' else [c]

/-- The literal of a text: quotes, backslashes and control characters are escaped. -/
def literal (cs : List Char) : List Char := '"' :: cs.flatMap writeChar ++ ['"']

inductive Piece
  | char (c : Char)
  | unit (n : Nat)
  deriving DecidableEq

/-- How a literal ends. -/
inductive LiteralEnd
  | closed | endOfText | controlCharacter | badEscape | badUnit
  deriving DecidableEq

def LiteralEnd.fault? : LiteralEnd → Option Fault
  | .closed => none
  | .endOfText => some .endInText
  | .controlCharacter => some .controlCharacter
  | .badEscape => some .badEscape
  | .badUnit => some .badEscape

structure Literal where
  pieces : List Piece
  stop : LiteralEnd
  deriving DecidableEq

def Literal.isClosed (l : Literal) : Bool := l.stop = .closed

def hexDigit? (c : Char) : Option Nat :=
  let n := c.toNat
  if 48 ≤ n ∧ n ≤ 57 then some (n - 48)
  else if 97 ≤ n ∧ n ≤ 102 then some (n - 87)
  else if 65 ≤ n ∧ n ≤ 70 then some (n - 55)
  else none

def unit? (a b c d : Char) : Option Nat := do
  let w ← hexDigit? a
  let x ← hexDigit? b
  let y ← hexDigit? c
  let z ← hexDigit? d
  return ((w * 16 + x) * 16 + y) * 16 + z

/-- The character that a letter after a backslash stands for. -/
def unescape? (e : Char) : Option Char :=
  if e = '"' then some '"'
  else if e = '\\' then some '\\'
  else if e = '/' then some '/'
  else if e = 'b' then some '\x08'
  else if e = 'f' then some '\x0c'
  else if e = 'n' then some '\n'
  else if e = 'r' then some '\r'
  else if e = 't' then some '\t'
  else none

def cons (p : Piece) : Literal × List Char → Literal × List Char
  | (l, r) => ({ l with pieces := p :: l.pieces }, r)

/-- Reads a literal behind its opening quote. Nothing is left of a text that breaks off. An escape
by number needs four bytes, whatever they are, to be wrong rather than cut off. -/
def scanLiteral : List Char → Literal × List Char
  | [] => (⟨[], .endOfText⟩, [])
  | ['\\'] => (⟨[], .endOfText⟩, [])
  | '\\' :: 'u' :: a :: b :: c :: d :: r =>
    match unit? a b c d with
    | some n => cons (.unit n) (scanLiteral r)
    | none => (⟨[], .badUnit⟩, [])
  | '\\' :: 'u' :: r =>
    if (r.map Char.utf8Size).sum < 4 then (⟨[], .endOfText⟩, [])
    else (⟨[], .badUnit⟩, [])
  | '\\' :: e :: r =>
    match unescape? e with
    | some c => cons (.char c) (scanLiteral r)
    | none => (⟨[], .badEscape⟩, [])
  | c :: r =>
    if c = '"' then (⟨[], .closed⟩, r)
    else if c.toNat < 0x20 then (⟨[], .controlCharacter⟩, [])
    else cons (.char c) (scanLiteral r)

def isHighSurrogate (n : Nat) : Bool := 0xd800 ≤ n && n < 0xdc00

def isLowSurrogate (n : Nat) : Bool := 0xdc00 ≤ n && n < 0xe000

/-- The character of a pair of surrogates. -/
def paired (high low : Nat) : Char :=
  Char.ofNat (0x10000 + (high - 0xd800) * 0x400 + (low - 0xdc00))

/-- What is wrong where the other half of a pair should stand and the literal ends. -/
def LiteralEnd.faultInPair : LiteralEnd → Fault
  | .endOfText => .endInText
  | .badUnit => .badEscape
  | .closed | .controlCharacter | .badEscape => .unpairedEscape

def joinPieces (stop : LiteralEnd) : List Piece → Except Fault (List Char)
  | [] => match stop.fault? with
    | none => .ok []
    | some f => .error f
  | .char c :: r => return c :: (← joinPieces stop r)
  | [.unit n] =>
    if isLowSurrogate n then .error .loneSurrogate
    else if isHighSurrogate n then .error stop.faultInPair
    else match stop.fault? with
      | none => .ok [Char.ofNat n]
      | some f => .error f
  | .unit n :: p :: r =>
    if isLowSurrogate n then .error .loneSurrogate
    else if isHighSurrogate n then
      match p with
      | .char _ => .error .unpairedEscape
      | .unit m =>
        if isLowSurrogate m then return paired n m :: (← joinPieces stop r)
        else .error .loneSurrogate
    else return Char.ofNat n :: (← joinPieces stop (p :: r))

/-- The text of a literal, or the first thing wrong with it. -/
def Literal.chars (l : Literal) : Except Fault (List Char) := joinPieces l.stop l.pieces

def Literal.text (l : Literal) : Except Fault String := do
  return String.ofList (← l.chars)

end SchemaReport.Json
