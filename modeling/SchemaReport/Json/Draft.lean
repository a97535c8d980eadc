import SchemaReport.Json.Literal

/-! A JSON text as it is scanned: the values that stand in it and, where it is damaged, how it
breaks off. Which fault is reported depends on what is looked for, so a draft records what was met
and leaves the judgement to its reader. -/

namespace SchemaReport.Json

/-- What follows the last item of an array. -/
inductive ArrayEnd
  | closed | endOfText | closedAfterComma | endAfterComma | noComma
  deriving DecidableEq

/-- What follows the last member of an object. -/
inductive ObjectEnd
  | closed | endOfText | closedAfterComma | endAfterComma | noComma | noKey
  | brokenKey (key : Literal)
  | endAfterKey (key : Literal)
  | noColon (key : Literal)
  deriving DecidableEq

inductive Draft
  | null
  | bool (b : Bool)
  | number (n : Numeral)
  | text (l : Literal)
  | array (items : List Draft) (stop : ArrayEnd)
  | object (members : List (Literal × Draft)) (stop : ObjectEnd)
  | brokenNumber (cut : Bool)
  | brokenWord (cut : Bool)
  /-- The text ends where a value should begin, or something else does. -/
  | missing (cut : Bool)

def isSpace (c : Char) : Bool := c = ' ' || c = '\n' || c = '\t' || c = '\r'

def skipSpace (cs : List Char) : List Char := cs.dropWhile isSpace

/-- A scanned part and the rest of the text, if the text did not break off. -/
abbrev Scanned (α : Type) := α × Option (List Char)

def scanWord (d : Draft) : (word : List Char) → List Char → Scanned Draft
  | [], r => (d, some r)
  | _ :: _, [] => (.brokenWord true, none)
  | w :: ws, c :: r => if c = w then scanWord d ws r else (.brokenWord false, none)

def scanNumber (negative : Bool) (cs : List Char) : Scanned Draft :=
  match scanUnsigned negative cs with
  | .done n r => (.number n, some r)
  | .cut => (.brokenNumber true, none)
  | .wrong => (.brokenNumber false, none)

def scanText (cs : List Char) : Scanned Draft :=
  let (l, r) := scanLiteral cs
  (.text l, if l.isClosed then some r else none)

def consItem (d : Draft) : Scanned (List Draft × ArrayEnd) → Scanned (List Draft × ArrayEnd)
  | ((ds, e), r) => ((d :: ds, e), r)

def consMember (m : Literal × Draft) :
    Scanned (List (Literal × Draft) × ObjectEnd) → Scanned (List (Literal × Draft) × ObjectEnd)
  | ((ms, e), r) => ((m :: ms, e), r)

/-- A key, behind its opening quote, and the colon. -/
def scanKey (cs : List Char) : Except ObjectEnd (Literal × List Char) :=
  let (l, r) := scanLiteral cs
  if l.isClosed then
    match skipSpace r with
    | [] => .error (.endAfterKey l)
    | ':' :: r => .ok (l, r)
    | _ :: _ => .error (.noColon l)
  else .error (.brokenKey l)

mutual

def scanValue : (fuel : Nat) → List Char → Scanned Draft
  | 0, _ => (.missing true, none)
  | fuel + 1, cs =>
    match skipSpace cs with
    | [] => (.missing true, none)
    | 'n' :: r => scanWord .null "ull".toList r
    | 't' :: r => scanWord (.bool true) "rue".toList r
    | 'f' :: r => scanWord (.bool false) "alse".toList r
    | '"' :: r => scanText r
    | '[' :: r =>
      let ((ds, e), r) := match skipSpace r with
        | [] => (([], .endOfText), none)
        | ']' :: r => (([], .closed), some r)
        | r => scanItem fuel r
      (.array ds e, r)
    | '{' :: r =>
      let ((ms, e), r) := match skipSpace r with
        | [] => (([], .endOfText), none)
        | '}' :: r => (([], .closed), some r)
        | r => scanMember fuel r
      (.object ms e, r)
    | '-' :: r => scanNumber true r
    | c :: r => if c.isDigit then scanNumber false (c :: r) else (.missing false, none)

/-- An item and those that follow it. -/
def scanItem : (fuel : Nat) → List Char → Scanned (List Draft × ArrayEnd)
  | 0, _ => (([], .endOfText), none)
  | fuel + 1, cs =>
    match scanValue fuel cs with
    | (d, none) => (([d], .endOfText), none)
    | (d, some r) =>
      consItem d <| match skipSpace r with
        | [] => (([], .endOfText), none)
        | ']' :: r => (([], .closed), some r)
        | ',' :: r => match skipSpace r with
          | [] => (([], .endAfterComma), none)
          | ']' :: _ => (([], .closedAfterComma), none)
          | r => scanItem fuel r
        | _ :: _ => (([], .noComma), none)

/-- A member and those that follow it. -/
def scanMember : (fuel : Nat) → List Char → Scanned (List (Literal × Draft) × ObjectEnd)
  | 0, _ => (([], .endOfText), none)
  | fuel + 1, '"' :: cs =>
    match scanKey cs with
    | .error e => (([], e), none)
    | .ok (k, r) =>
      match scanValue fuel r with
      | (d, none) => (([(k, d)], .endOfText), none)
      | (d, some r) =>
        consMember (k, d) <| match skipSpace r with
          | [] => (([], .endOfText), none)
          | '}' :: r => (([], .closed), some r)
          | ',' :: r => match skipSpace r with
            | [] => (([], .endAfterComma), none)
            | '}' :: _ => (([], .closedAfterComma), none)
            | r => scanMember fuel r
          | _ :: _ => (([], .noComma), none)
  | _ + 1, _ => (([], .noKey), none)

end

/-- The value at the head of a text. Every second step takes a character, so the fuel is enough. -/
def scan (cs : List Char) : Scanned Draft := scanValue (2 * cs.length + 2) cs

/-- What is wrong with a number or a word that breaks off. -/
def numberFault (cut : Bool) : Fault := if cut then .endInValue else .badNumber

def wordFault (cut : Bool) : Fault := if cut then .endInValue else .misspelt

def missingFault (cut : Bool) : Fault := if cut then .endInValue else .noValue

/-- The faults that also count in a value nobody asks for. -/
def ArrayEnd.skipFault? : ArrayEnd → Option Fault
  | .closed => none
  | .endOfText => some .endInArray
  | .closedAfterComma => some .noValue
  | .endAfterComma => some .endInValue
  | .noComma => some .noCommaInArray

def ObjectEnd.skipFault? : ObjectEnd → Option Fault
  | .closed => none
  | .endOfText => some .endInObject
  | .closedAfterComma => some .keyNotText
  | .endAfterComma => some .endInObject
  | .noComma => some .noCommaInObject
  | .noKey => some .keyNotText
  | .brokenKey l => l.stop.fault?
  | .endAfterKey _ => some .endInObject
  | .noColon _ => some .noColon

mutual

/-- The first fault of a value nobody asks for: its numbers may be too large, and its escapes need
not come in pairs. -/
def Draft.skipFault? : Draft → Option Fault
  | .null | .bool _ | .number _ => none
  | .text l => l.stop.fault?
  | .array ds e => (itemsFault? ds).or e.skipFault?
  | .object ms e => (membersFault? ms).or e.skipFault?
  | .brokenNumber _ => some .badNumber
  | .brokenWord cut => some (wordFault cut)
  | .missing cut => some (missingFault cut)

def itemsFault? : List Draft → Option Fault
  | [] => none
  | d :: ds => d.skipFault?.or (itemsFault? ds)

def membersFault? : List (Literal × Draft) → Option Fault
  | [] => none
  | (_, d) :: ms => d.skipFault?.or (membersFault? ms)

end

end SchemaReport.Json
