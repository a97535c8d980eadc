import SchemaReport.Json.Value
import SchemaReport.Message.Basic
import SchemaReport.Text.Base64

/-! The JSON form of a message: an object of its fields in the order of declaration. What is unset
and what is an empty list is left out; required fields are always there. Enumeration values go by
name if they have one, bytes as base64, and doubles that are no numbers as texts. -/

namespace SchemaReport.Json

def ofDouble (d : Double) : Value :=
  if d.isNaN then .text "NaN"
  else if d.isInfinite then .text (if d.isNegative then "-Infinity" else "Infinity")
  else .number (.double d)

def ofScalar : (s : Scalar) → s.Value → Value
  | .string, v => .text v
  | .bytes, v => .text (String.ofList (Text.Base64.encode v))
  | .bool, v => .bool v
  | .int32, v => .number (.int v.toInt)
  | .int64, v => .number (.int v.toInt)
  | .uint64, v => .number (.int v.toNat)
  | .double, v => ofDouble v
  | .enum e, v => match e.nameOf? v with
    | some s => .text s
    | none => .number (.int v.toInt)

mutual

def membersOf : {fs : List Field} → Record fs → List (String × Value)
  | _, .nil => []
  | f :: _, .cons s r => match slotValue? s with
    | some v => (f.key, v) :: membersOf r
    | none => membersOf r

def slotValue? : {k : Kind} → Slot k → Option Value
  | .required s, .required v => some (ofScalar s v)
  | .optional s, .optional v => v.map (ofScalar s)
  | .repeated s _, .repeated vs =>
    if vs.isEmpty then none else some (.array (vs.map (ofScalar s)))
  | _, .absent => none
  | _, .present m => some (.object (membersOf m))
  | _, .messages .nil => none
  | _, .messages (.cons m ms) => some (.array (.object (membersOf m) :: itemsOf ms))

def itemsOf : {t : MessageType} → Messages t → List Value
  | _, .nil => []
  | _, .cons m ms => .object (membersOf m) :: itemsOf ms

end

def ofMessage {t : MessageType} (m : Message t) : Value := .object (membersOf m)

/-- The text of a message. -/
def write {t : MessageType} (l : Layout) (m : Message t) : List Char := (ofMessage m).print l 0

end SchemaReport.Json
