import SchemaReport.Schema.Enumeration
import SchemaReport.Double.Basic

/-! What a field of a message holds: one scalar, a list of scalars, one nested message or a list
of them. A field has a number on the wire, a name, and a key in JSON. -/

namespace SchemaReport

inductive Scalar
  | string | bytes | bool | int32 | int64 | uint64 | double
  | enum (e : Enumeration)
  deriving DecidableEq

abbrev Scalar.Value : Scalar → Type
  | .string => String
  | .bytes => List UInt8
  | .bool => Bool
  | .int32 => Int32
  | .int64 => Int64
  | .uint64 => UInt64
  | .double => Double
  | .enum _ => Int32

/-- The value of a required scalar that was never given. -/
def Scalar.zero : (s : Scalar) → s.Value
  | .string => ""
  | .bytes => []
  | .bool => false
  | .int32 => 0
  | .int64 => 0
  | .uint64 => 0
  | .double => Double.zero
  | .enum e => e.first

inductive MessageType
  | request | response | generatedFile | version | file | message | extensionRange | reservedRange
  | extensionRangeOptions | declaration | field | oneof | enumeration | enumReservedRange
  | enumValue | service | method | fileOptions | messageOptions | fieldOptions | editionDefault
  | featureSupport | oneofOptions | enumOptions | enumValueOptions | serviceOptions | methodOptions
  | uninterpretedOption | namePart | featureSet | sourceCodeInfo | location
  deriving DecidableEq

inductive Kind
  | required (s : Scalar)
  | optional (s : Scalar)
  | repeated (s : Scalar) (packed : Bool)
  | message (t : MessageType)
  | messages (t : MessageType)
  deriving DecidableEq

structure Field where
  number : Nat
  name : String
  key : String
  kind : Kind
  /-- The number that an unset boolean or enumeration reads as, where it is not the first one. -/
  unset : Option Nat := none

namespace Field

def required (number : Nat) (name key : String) (s : Scalar) : Field :=
  { number, name, key, kind := .required s }

def optional (number : Nat) (name key : String) (s : Scalar) : Field :=
  { number, name, key, kind := .optional s }

def repeated (number : Nat) (name key : String) (s : Scalar) : Field :=
  { number, name, key, kind := .repeated s false }

/-- A list that is written as one block of values. -/
def packed (number : Nat) (name key : String) (s : Scalar) : Field :=
  { number, name, key, kind := .repeated s true }

def message (number : Nat) (name key : String) (t : MessageType) : Field :=
  { number, name, key, kind := .message t }

def messages (number : Nat) (name key : String) (t : MessageType) : Field :=
  { number, name, key, kind := .messages t }

end Field

end SchemaReport
