import SchemaReport.Message.Basic
import SchemaReport.Wire.Decode

/-! Writing messages as bytes: the fields in the order of their numbers, each with its key. What
is set is written even if it is zero; what is unset, or an empty list, leaves nothing. -/

namespace SchemaReport.Wire

-- Powers and sums are those of the core library, also where an algebraic hierarchy brings its own.
attribute [local instance (high)] instPowNat Zero.ofOfNat0

def key (n : Nat) (w : WireType) : List UInt8 := varint (8 * n + w.code)

def littleEndian : (length : Nat) → Nat → List UInt8
  | 0, _ => []
  | k + 1, n => UInt8.ofNat n :: littleEndian k (n / 256)

/-- A length and the bytes. -/
def block (bs : List UInt8) : List UInt8 := varint bs.length ++ bs

def blockSize (n : Nat) : Nat := varintSize n + n

/-- Negative integers of either width are written as 64 bits. -/
def signed64 (i : Int) : Nat := (i % 2 ^ (64 : Nat)).toNat

def encodeScalar : (s : Scalar) → s.Value → List UInt8
  | .string, s => block s.toUTF8.toList
  | .bytes, bs => block bs
  | .bool, b => [if b then 1 else 0]
  | .int32, i => varint (signed64 i.toInt)
  | .int64, i => varint (signed64 i.toInt)
  | .uint64, n => varint n.toNat
  | .double, d => littleEndian 8 d.bits.toNat
  | .enum _, i => varint (signed64 i.toInt)

def sizeScalar : (s : Scalar) → s.Value → Nat
  | .string, s => blockSize s.utf8ByteSize
  | .bytes, bs => blockSize bs.length
  | .bool, _ => 1
  | .int32, i => varintSize (signed64 i.toInt)
  | .int64, i => varintSize (signed64 i.toInt)
  | .uint64, n => varintSize n.toNat
  | .double, _ => 8
  | .enum _, i => varintSize (signed64 i.toInt)

/-- One value of field `n`, its key first. -/
def encodeOne (n : Nat) (s : Scalar) (v : s.Value) : List UInt8 :=
  key n (scalarType s) ++ encodeScalar s v

/-- The bytes of one field, with its number. -/
structure Piece where
  number : Nat
  bytes : List UInt8

def Piece.insert (p : Piece) : List Piece → List Piece
  | [] => [p]
  | q :: qs => if p.number ≤ q.number then p :: q :: qs else q :: p.insert qs

/-- The pieces one after the other, in the order of their numbers. -/
def assemble (ps : List Piece) : List UInt8 := (ps.foldr Piece.insert []).flatMap Piece.bytes

mutual

def pieces : {fs : List Field} → Record fs → List Piece
  | _, .nil => []
  | f :: _, .cons s r => ⟨f.number, encodeSlot f.number s⟩ :: pieces r

def encodeSlot (n : Nat) : {k : Kind} → Slot k → List UInt8
  | .required s, .required v => encodeOne n s v
  | .optional s, .optional v => v.toList.flatMap (encodeOne n s)
  | .repeated s packed, .repeated vs =>
    if packed ∧ scalarType s ≠ .delimited then
      if vs.isEmpty then [] else key n .delimited ++ block (vs.flatMap (encodeScalar s))
    else vs.flatMap (encodeOne n s)
  | _, .absent => []
  | _, .present m => key n .delimited ++ block (assemble (pieces m))
  | _, .messages ms => encodeMessages n ms

def encodeMessages (n : Nat) : {t : MessageType} → Messages t → List UInt8
  | _, .nil => []
  | _, .cons m ms => key n .delimited ++ block (assemble (pieces m)) ++ encodeMessages n ms

end

def encode {t : MessageType} (m : Message t) : List UInt8 := assemble (pieces m)

def keySize (n : Nat) : Nat := varintSize (8 * n)

def sizeOne (n : Nat) (s : Scalar) (v : s.Value) : Nat := keySize n + sizeScalar s v

mutual

/-- The number of bytes of a message, from the sizes of its parts. -/
def size : {fs : List Field} → Record fs → Nat
  | _, .nil => 0
  | f :: _, .cons s r => sizeSlot f.number s + size r

def sizeSlot (n : Nat) : {k : Kind} → Slot k → Nat
  | .required s, .required v => sizeOne n s v
  | .optional s, .optional v => (v.toList.map (sizeOne n s)).sum
  | .repeated s packed, .repeated vs =>
    if packed ∧ scalarType s ≠ .delimited then
      if vs.isEmpty then 0 else keySize n + blockSize (vs.map (sizeScalar s)).sum
    else (vs.map (sizeOne n s)).sum
  | _, .absent => 0
  | _, .present m => keySize n + blockSize (size m)
  | _, .messages ms => sizeMessages n ms

def sizeMessages (n : Nat) : {t : MessageType} → Messages t → Nat
  | _, .nil => 0
  | _, .cons m ms => keySize n + blockSize (size m) + sizeMessages n ms

end

end SchemaReport.Wire
