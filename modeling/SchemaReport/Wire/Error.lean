import SchemaReport.Schema.Message

/-! Why bytes are not a message. A fault found inside a field carries the path of fields to it. -/

namespace SchemaReport.Wire

inductive WireType
  | varint | fixed64 | delimited | startGroup | endGroup | fixed32
  deriving DecidableEq

namespace WireType

def code : WireType → Nat
  | .varint => 0
  | .fixed64 => 1
  | .delimited => 2
  | .startGroup => 3
  | .endGroup => 4
  | .fixed32 => 5

def ofCode? : Nat → Option WireType
  | 0 => some .varint
  | 1 => some .fixed64
  | 2 => some .delimited
  | 3 => some .startGroup
  | 4 => some .endGroup
  | 5 => some .fixed32
  | _ => none

def name : WireType → String
  | .varint => "Varint"
  | .fixed64 => "SixtyFourBit"
  | .delimited => "LengthDelimited"
  | .startGroup => "StartGroup"
  | .endGroup => "EndGroup"
  | .fixed32 => "ThirtyTwoBit"

end WireType

inductive Fault
  | varint
  | key (n : Nat)
  | wireType (code : Nat)
  | fieldNumber (n : Nat)
  | unexpectedType (actual expected : WireType)
  | underflow
  /-- A nested message or block of values went past its end. -/
  | overrun
  | notText
  | unmatchedGroup
  | tooDeep
  deriving DecidableEq

def Fault.message : Fault → String
  | .varint => "invalid varint"
  | .key n => s!"invalid key value: {n}"
  | .wireType code => s!"invalid wire type value: {code}"
  | .fieldNumber n => s!"invalid tag value: {n}"
  | .unexpectedType a e => "invalid wire type: " ++ a.name ++ " (expected " ++ e.name ++ ")"
  | .underflow => "buffer underflow"
  | .overrun => "delimited length exceeded"
  | .notText => "invalid string value: data is not UTF-8 encoded"
  | .unmatchedGroup => "unexpected end group tag"
  | .tooDeep => "recursion limit reached"

/-- One field on the way to a fault. A name that would read as a keyword is marked as raw. -/
structure Step where
  type : MessageType
  field : String
  deriving DecidableEq

def Step.text (s : Step) : String :=
  s.type.name ++ "." ++ (if s.field = "type" then "r#type" else s.field) ++ ": "

/-- The path starts with the innermost field. -/
structure DecodeError where
  path : List Step
  fault : Fault
  deriving DecidableEq

namespace DecodeError

def message (e : DecodeError) : String :=
  "failed to decode Protobuf message: " ++ String.join (e.path.map Step.text) ++ e.fault.message

def inside (t : MessageType) (f : Field) (e : DecodeError) : DecodeError :=
  { e with path := e.path ++ [⟨t, f.name⟩] }

end DecodeError

end SchemaReport.Wire
