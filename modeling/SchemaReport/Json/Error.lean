import SchemaReport.Schema.Message
import SchemaReport.Json.Number
import SchemaReport.Text.Basic

/-! Why a text is not the JSON form of a message: it is no JSON, it ends too early, or it is JSON of
another shape. -/

namespace SchemaReport.Json

/-- What is wrong with the text itself. -/
inductive Fault
  | endInValue | endInArray | endInObject | endInText
  | noValue | misspelt | noColon | noCommaInArray | noCommaInObject | keyNotText
  | trailingComma | trailingCharacters
  | badNumber | numberTooLarge
  | badEscape | unpairedEscape | loneSurrogate | controlCharacter
  | tooDeep
  deriving DecidableEq

namespace Fault

def message : Fault → String
  | .endInValue => "EOF while parsing a value"
  | .endInArray => "EOF while parsing a list"
  | .endInObject => "EOF while parsing an object"
  | .endInText => "EOF while parsing a string"
  | .noValue => "expected value"
  | .misspelt => "expected ident"
  | .noColon => "expected `:`"
  | .noCommaInArray => "expected `,` or `]`"
  | .noCommaInObject => "expected `,` or `\x7d`"
  | .keyNotText => "key must be a string"
  | .trailingComma => "trailing comma"
  | .trailingCharacters => "trailing characters"
  | .badNumber => "invalid number"
  | .numberTooLarge => "number out of range"
  | .badEscape => "invalid escape"
  | .unpairedEscape => "unexpected end of hex escape"
  | .loneSurrogate => "lone leading surrogate in hex escape"
  | .controlCharacter => "control character (\\u0000-\\u001F) found while parsing a string"
  | .tooDeep => "recursion limit exceeded"

/-- Whether the text is only too short. -/
def isEnd : Fault → Bool
  | .endInValue | .endInArray | .endInObject | .endInText => true
  | _ => false

end Fault

/-- A value as far as an error names it. -/
inductive Found
  | null
  | bool (b : Bool)
  | number (n : Number)
  | text (s : String)
  | array
  | object
  deriving DecidableEq

def Found.describe : Found → String
  | .null => "null"
  | .bool b => "boolean `" ++ toString b ++ "`"
  | .number (.int i) => "integer `" ++ toString i ++ "`"
  | .number (.double d) => "floating point `" ++ String.ofList (doubleText d) ++ "`"
  | .text s => "string " ++ Text.quoted s
  | .array => "sequence"
  | .object => "map"

/-- What a field asks for. -/
inductive Expected
  | scalar (s : Scalar)
  | list
  | message (t : MessageType)
  deriving DecidableEq

def Expected.describe : Expected → String
  | .scalar .string => "a string"
  | .scalar .bytes => "a base64 encoded string"
  | .scalar .bool => "a boolean"
  | .scalar .int32 => "i32"
  | .scalar .int64 => "i64"
  | .scalar .uint64 => "u64"
  | .scalar .double => "a floating point number (f64)"
  | .scalar (.enum _) => "an enum value name or number"
  | .list => "a sequence"
  | .message t => "struct " ++ t.name

inductive ReadError
  | fault (f : Fault)
  | wrongType (found : Found) (expected : Expected)
  | wrongValue (found : Found) (expected : Expected)
  | duplicateKey (key : String)
  deriving DecidableEq

def ReadError.message : ReadError → String
  | .fault f => f.message
  | .wrongType f e => "invalid type: " ++ f.describe ++ ", expected " ++ e.describe
  | .wrongValue f e => "invalid value: " ++ f.describe ++ ", expected " ++ e.describe
  | .duplicateKey k => "duplicate field `" ++ k ++ "`"

end SchemaReport.Json
