/-! The enumerations of the schema language. Each lists its values by name and number in
the order of declaration; a field may hold a number that no value has, and the number is kept. -/

namespace SchemaReport

inductive Enumeration
  | fieldType | label | verificationState | edition | optimizeMode | cType | jsType
  | optionRetention | optionTargetType | idempotencyLevel | fieldPresence | enumType
  | repeatedFieldEncoding | utf8Validation | messageEncoding | jsonFormat
  deriving DecidableEq

namespace Enumeration

def name : Enumeration → String
  | .fieldType => "Type"
  | .label => "Label"
  | .verificationState => "VerificationState"
  | .edition => "Edition"
  | .optimizeMode => "OptimizeMode"
  | .cType => "CType"
  | .jsType => "JsType"
  | .optionRetention => "OptionRetention"
  | .optionTargetType => "OptionTargetType"
  | .idempotencyLevel => "IdempotencyLevel"
  | .fieldPresence => "FieldPresence"
  | .enumType => "EnumType"
  | .repeatedFieldEncoding => "RepeatedFieldEncoding"
  | .utf8Validation => "Utf8Validation"
  | .messageEncoding => "MessageEncoding"
  | .jsonFormat => "JsonFormat"

def values : Enumeration → List (String × Int32)
  | .fieldType => [
    ("TYPE_DOUBLE", 1), ("TYPE_FLOAT", 2), ("TYPE_INT64", 3), ("TYPE_UINT64", 4), ("TYPE_INT32", 5),
    ("TYPE_FIXED64", 6), ("TYPE_FIXED32", 7), ("TYPE_BOOL", 8), ("TYPE_STRING", 9),
    ("TYPE_GROUP", 10), ("TYPE_MESSAGE", 11), ("TYPE_BYTES", 12), ("TYPE_UINT32", 13),
    ("TYPE_ENUM", 14), ("TYPE_SFIXED32", 15), ("TYPE_SFIXED64", 16), ("TYPE_SINT32", 17),
    ("TYPE_SINT64", 18)]
  | .label => [("LABEL_OPTIONAL", 1), ("LABEL_REQUIRED", 2), ("LABEL_REPEATED", 3)]
  | .verificationState => [("DECLARATION", 0), ("UNVERIFIED", 1)]
  | .edition => [
    ("EDITION_UNKNOWN", 0), ("EDITION_LEGACY", 900), ("EDITION_PROTO2", 998),
    ("EDITION_PROTO3", 999), ("EDITION_2023", 1000), ("EDITION_2024", 1001),
    ("EDITION_1_TEST_ONLY", 1), ("EDITION_2_TEST_ONLY", 2), ("EDITION_99997_TEST_ONLY", 99997),
    ("EDITION_99998_TEST_ONLY", 99998), ("EDITION_99999_TEST_ONLY", 99999),
    ("EDITION_MAX", 2147483647)]
  | .optimizeMode => [("SPEED", 1), ("CODE_SIZE", 2), ("LITE_RUNTIME", 3)]
  | .cType => [("STRING", 0), ("CORD", 1), ("STRING_PIECE", 2)]
  | .jsType => [("JS_NORMAL", 0), ("JS_STRING", 1), ("JS_NUMBER", 2)]
  | .optionRetention => [
    ("RETENTION_UNKNOWN", 0), ("RETENTION_RUNTIME", 1), ("RETENTION_SOURCE", 2)]
  | .optionTargetType => [
    ("TARGET_TYPE_UNKNOWN", 0), ("TARGET_TYPE_FILE", 1), ("TARGET_TYPE_EXTENSION_RANGE", 2),
    ("TARGET_TYPE_MESSAGE", 3), ("TARGET_TYPE_FIELD", 4), ("TARGET_TYPE_ONEOF", 5),
    ("TARGET_TYPE_ENUM", 6), ("TARGET_TYPE_ENUM_ENTRY", 7), ("TARGET_TYPE_SERVICE", 8),
    ("TARGET_TYPE_METHOD", 9)]
  | .idempotencyLevel => [("IDEMPOTENCY_UNKNOWN", 0), ("NO_SIDE_EFFECTS", 1), ("IDEMPOTENT", 2)]
  | .fieldPresence => [
    ("FIELD_PRESENCE_UNKNOWN", 0), ("EXPLICIT", 1), ("IMPLICIT", 2), ("LEGACY_REQUIRED", 3)]
  | .enumType => [("ENUM_TYPE_UNKNOWN", 0), ("OPEN", 1), ("CLOSED", 2)]
  | .repeatedFieldEncoding => [
    ("REPEATED_FIELD_ENCODING_UNKNOWN", 0), ("PACKED", 1), ("EXPANDED", 2)]
  | .utf8Validation => [("UTF8_VALIDATION_UNKNOWN", 0), ("VERIFY", 2), ("NONE", 3)]
  | .messageEncoding => [("MESSAGE_ENCODING_UNKNOWN", 0), ("LENGTH_PREFIXED", 1), ("DELIMITED", 2)]
  | .jsonFormat => [("JSON_FORMAT_UNKNOWN", 0), ("ALLOW", 1), ("LEGACY_BEST_EFFORT", 2)]

/-- The name of the value `n`, if one is declared. -/
def nameOf? (e : Enumeration) (n : Int32) : Option String :=
  (e.values.find? fun v => v.2 = n).map Prod.fst

/-- The number of the value called `s`; names are compared as they are. -/
def numberOf? (e : Enumeration) (s : String) : Option Int32 :=
  (e.values.find? fun v => v.1 = s).map Prod.snd

/-- The value declared first, which an unset field reads as. -/
def first (e : Enumeration) : Int32 := (e.values.head?.map Prod.snd).getD 0

def all : List Enumeration :=
  [fieldType, label, verificationState, edition, optimizeMode, cType, jsType, optionRetention,
    optionTargetType, idempotencyLevel, fieldPresence, enumType, repeatedFieldEncoding,
    utf8Validation, messageEncoding, jsonFormat]

end Enumeration

end SchemaReport
