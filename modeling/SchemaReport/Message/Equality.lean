import SchemaReport.Message.Basic

/-! Equality as comparisons see it. It is the equality of the messages except at doubles, which
are compared as numbers: a message that holds a NaN does not even equal itself. -/

namespace SchemaReport

def Scalar.same : (s : Scalar) → s.Value → s.Value → Bool
  | .double, a, b => Double.sameNumber a b
  | .string, a, b => (a : String) == b
  | .bytes, a, b => (a : List UInt8) == b
  | .bool, a, b => (a : Bool) == b
  | .int32, a, b => (a : Int32) == b
  | .int64, a, b => (a : Int64) == b
  | .uint64, a, b => (a : UInt64) == b
  | .enum _, a, b => (a : Int32) == b

mutual

def Record.same : {fs : List Field} → Record fs → Record fs → Bool
  | _, .nil, .nil => true
  | _, .cons s r, .cons s' r' => s.same s' && r.same r'

def Slot.same : {k : Kind} → Slot k → Slot k → Bool
  | .required s, .required a, .required b => s.same a b
  | .optional s, .optional a, .optional b => a.toList.isEqv b.toList s.same
  | .repeated s _, .repeated a, .repeated b => List.isEqv a b s.same
  | _, .absent, .absent => true
  | _, .present a, .present b => a.same b
  | _, .absent, .present _ => false
  | _, .present _, .absent => false
  | _, .messages a, .messages b => a.same b

def Messages.same : {t : MessageType} → Messages t → Messages t → Bool
  | _, .nil, .nil => true
  | _, .cons a as, .cons b bs => a.same b && as.same bs
  | _, .nil, .cons _ _ => false
  | _, .cons _ _, .nil => false

end

end SchemaReport
