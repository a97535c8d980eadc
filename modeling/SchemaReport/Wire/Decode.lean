import SchemaReport.Message.Basic
import SchemaReport.Wire.Error
import SchemaReport.Wire.Varint

/-! Reading messages from bytes. A message is its fields one after the other: of a scalar the last
one stands, a list grows, and an optional message merges what comes later into what came before.
Fields that the type does not have are passed over.

A length is held against all bytes that are left, not against the block it stands in; a block
that goes past its own end is only found out when its last field has been read. -/

namespace SchemaReport.Wire

-- Powers are those of the core library, also where an algebraic hierarchy brings its own.
attribute [local instance (high)] instPowNat

/-- Takes bytes from the input, or fails. -/
abbrev Reader := StateT Input (Except DecodeError)

/-- A nested message or group may stand this many levels below the message that is read. -/
def depthLimit : Nat := 100

namespace Reader

def fail {α : Type} (f : Fault) : Reader α := throw ⟨[], f⟩

/-- The reader with its faults laid to field `f` of type `t`. -/
def inside {α : Type} (t : MessageType) (f : Field) (r : Reader α) : Reader α :=
  fun i => (r i).mapError (.inside t f)

end Reader

def readVarint : Reader Nat := fun i =>
  match i.varint? with
  | some r => .ok r
  | none => .error ⟨[], .varint⟩

def readBytes (n : Nat) : Reader (List UInt8) := fun i =>
  match i.take? n with
  | some r => .ok r
  | none => .error ⟨[], .underflow⟩

/-- A length and that many bytes. -/
def readBlock : Reader (List UInt8) := do readBytes (← readVarint)

structure Key where
  number : Nat
  type : WireType
  deriving DecidableEq

def readKey : Reader Key := do
  let n ← readVarint
  if 2 ^ (32 : Nat) ≤ n then Reader.fail (.key n)
  else match WireType.ofCode? (n % 8) with
    | none => Reader.fail (.wireType (n % 8))
    | some w => if n / 8 = 0 then Reader.fail (.fieldNumber 0) else return ⟨n / 8, w⟩

/-- Repeats a step until at most `left` bytes are left. Every step takes a byte or more, so `fuel`
may be the number of bytes to read. -/
def readUntil {α : Type} (step : α → Reader α) (left : Nat) : (fuel : Nat) → α → Reader α
  | 0, a => return a
  | fuel + 1, a => do
    if (← get).size ≤ left then return a
    readUntil step left fuel (← step a)

/-- A length, and steps to the end of the block of that length. -/
def readFrame {α : Type} (step : α → Reader α) (a : α) : Reader α := do
  let n ← readVarint
  let size := (← get).size
  if size < n then Reader.fail .underflow
  let a ← readUntil step (size - n) n a
  if (← get).size = size - n then return a else Reader.fail .overrun

/-- Passes over fields up to the end of group `n`. -/
def skipGroup (skip : Key → Reader Unit) (n : Nat) : (fuel : Nat) → Reader Unit
  | 0 => Reader.fail .varint
  | fuel + 1 => do
    let k ← readKey
    if k.type = .endGroup then
      if k.number = n then return () else Reader.fail .unmatchedGroup
    else
      skip k
      skipGroup skip n fuel

/-- Passes over one field of an unknown number, whose key has been read. -/
def skip : (depth : Nat) → Key → Reader Unit
  | 0, _ => Reader.fail .tooDeep
  | depth + 1, k =>
    match k.type with
    | .varint => do discard readVarint
    | .fixed64 => do discard (readBytes 8)
    | .fixed32 => do discard (readBytes 4)
    | .delimited => do discard readBlock
    | .startGroup => do skipGroup (skip depth) k.number (← get).size
    | .endGroup => Reader.fail .unmatchedGroup

def scalarType : Scalar → WireType
  | .string | .bytes => .delimited
  | .double => .fixed64
  | .bool | .int32 | .int64 | .uint64 | .enum _ => .varint

/-- The number whose digits are `bs` in base 256, the lowest first. -/
def ofLittleEndian : List UInt8 → Nat
  | [] => 0
  | b :: bs => b.toNat + 256 * ofLittleEndian bs

/-- Narrower integers take the low bits of the 64 that are read. -/
def readScalar : (s : Scalar) → Reader s.Value
  | .string => do
    match String.fromUTF8? (← readBlock).toByteArray with
    | some s => return s
    | none => Reader.fail .notText
  | .bytes => readBlock
  | .bool => do return (← readVarint) != 0
  | .int32 => do return Int32.ofNat (← readVarint)
  | .int64 => do return Int64.ofNat (← readVarint)
  | .uint64 => do return UInt64.ofNat (← readVarint)
  | .double => do return ⟨UInt64.ofNat (ofLittleEndian (← readBytes 8))⟩
  | .enum _ => do return Int32.ofNat (← readVarint)

def expect (actual expected : WireType) : Reader Unit :=
  if actual = expected then return () else Reader.fail (.unexpectedType actual expected)

/-- Reads one scalar behind a key of wire type `w`. -/
def readTyped (w : WireType) (s : Scalar) : Reader s.Value := do
  expect w (scalarType s)
  readScalar s

def appendScalar (s : Scalar) (vs : List s.Value) : Reader (List s.Value) := do
  return vs ++ [← readScalar s]

/-- How the fields of a nested message, its length first, are read into a message. -/
abbrev Nested := (t : MessageType) → Message t → Reader (Message t)

/-- A list of numbers takes single ones and blocks of them in any mix, however it is written. -/
def mergeSlot (nested : Nested) (w : WireType) : {k : Kind} → Slot k → Reader (Slot k)
  | .required s, _ => do return .required (← readTyped w s)
  | .optional s, _ => do return .optional (some (← readTyped w s))
  | .repeated s _, .repeated vs =>
    if w = .delimited ∧ scalarType s ≠ .delimited then do
      return .repeated (← readFrame (appendScalar s) vs)
    else do
      return .repeated (vs ++ [← readTyped w s])
  | .message t, s => do
    expect w .delimited
    return .present (← nested t (s.message?.getD (.empty t)))
  | .messages t, .messages ms => do
    expect w .delimited
    return .messages (ms.add (← nested t (.empty t)))

/-- One field, whose key has been read, into the slot of its number. -/
def mergeRecord (nested : Nested) (skip : Key → Reader Unit) (owner : MessageType) (k : Key) :
    {fs : List Field} → Record fs → Reader (Record fs)
  | _, .nil => do
    skip k
    return .nil
  | f :: _, .cons s r =>
    if f.number = k.number then do
      return .cons (← (mergeSlot nested k.type s).inside owner f) r
    else do
      return .cons s (← mergeRecord nested skip owner k r)

def mergeField (depth : Nat) (nested : Nested) {t : MessageType} (m : Message t) :
    Reader (Message t) := do
  mergeRecord nested (skip depth) t (← readKey) m

/-- A nested message with `depth` levels to go. -/
def mergeNested : (depth : Nat) → Nested
  | 0, _, _ => Reader.fail .tooDeep
  | depth + 1, _, m => readFrame (mergeField depth (mergeNested depth)) m

/-- The message `m` with all fields of the bytes. -/
def merge {t : MessageType} (m : Message t) (bs : List UInt8) : Except DecodeError (Message t) :=
  (readUntil (mergeField depthLimit (mergeNested depthLimit)) 0 bs.length m).run' (.ofList bs)

/-- The same for a message that its length precedes; bytes after it are not looked at. -/
def mergeDelimited {t : MessageType} (m : Message t) (bs : List UInt8) :
    Except DecodeError (Message t) :=
  (mergeNested depthLimit t m).run' (.ofList bs)

def decode (t : MessageType) (bs : List UInt8) : Except DecodeError (Message t) :=
  merge (.empty t) bs

end SchemaReport.Wire
