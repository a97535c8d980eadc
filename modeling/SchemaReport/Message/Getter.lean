import SchemaReport.Message.Basic

/-! What a field reads as when it may be unset: an empty text, no bytes, false, zero or the first
value of its enumeration, unless the field names another. A number that its enumeration does not
declare reads like an unset field. -/

namespace SchemaReport

def Enumeration.declares (e : Enumeration) (n : Int32) : Bool := e.values.any fun v => v.2 = n

/-- The number that an enumeration field reads as. -/
def Enumeration.read (e : Enumeration) (unset : Option Nat) (v : Option Int32) : Int32 :=
  (v.filter e.declares).getD ((unset.map Int32.ofNat).getD e.first)

def Scalar.read : (s : Scalar) → (unset : Option Nat) → Option s.Value → s.Value
  | .enum e, u, v => e.read u v
  | .bool, u, v => Option.getD v (u = some 1)
  | .string, _, v => Option.getD v ""
  | .bytes, _, v => Option.getD v []
  | .int32, _, v => Option.getD v 0
  | .int64, _, v => Option.getD v 0
  | .uint64, _, v => Option.getD v 0
  | .double, _, v => Option.getD v Double.zero

/-- A list of enumeration values reads as its declared ones. -/
inductive Reading
  | scalar (s : Scalar) (v : s.Value)
  | values (e : Enumeration) (vs : List Int32)

/-- Required fields, nested messages and other lists are not read this way. -/
def Slot.read? (unset : Option Nat) : {k : Kind} → Slot k → Option Reading
  | .optional s, .optional v => some (.scalar s (s.read unset v))
  | .repeated (.enum e) _, .repeated vs => some (.values e (List.filter e.declares vs))
  | _, _ => none

/-- The fields that read as something, by name. -/
def Record.readings : {fs : List Field} → Record fs → List (String × Reading)
  | _, .nil => []
  | f :: _, .cons s r => ((s.read? f.unset).map (f.name, ·)).toList ++ r.readings

namespace Record

variable {fs : List Field}

def text? (r : Record fs) (n : Nat) (h : kindOf? fs n = some (.optional .string)) : Option String :=
  (r.slot n h).value?

def text (r : Record fs) (n : Nat) (h : kindOf? fs n = some (.optional .string)) : String :=
  (r.text? n h).getD ""

def number {e : Enumeration} (r : Record fs) (n : Nat)
    (h : kindOf? fs n = some (.optional (.enum e))) : Int32 :=
  e.read none (r.slot n h).value?

def children {t : MessageType} (r : Record fs) (n : Nat) (h : kindOf? fs n = some (.messages t)) :
    List (Message t) :=
  (r.slot n h).toList

theorem sizeOf_lt_of_mem_children {t : MessageType} {r : Record fs} {n : Nat}
    {h : kindOf? fs n = some (.messages t)} {m : Message t} (hm : m ∈ r.children n h) :
    sizeOf m < sizeOf r :=
  Nat.lt_trans (Slot.sizeOf_lt_of_mem hm) (r.sizeOf_slot_lt n h)

end Record

end SchemaReport
