import SchemaReport.Json.Draft
import SchemaReport.Message.Basic
import SchemaReport.Text.Base64

/-! Reading a message from JSON. A message is an object of its fields in any order, or an array of
them in the order of declaration; null leaves an optional field unset, and what is not given stays
empty. Keys that the type does not have are passed over, though their values must be sound.

The draft is read in the order of the text, so of several things that are wrong with a text the
first is reported. -/

namespace SchemaReport.Json

-- Powers are those of the core library, also where an algebraic hierarchy brings its own.
attribute [local instance (high)] instPowNat

/-- Arrays and objects of known fields may nest this deep. -/
def depthLimit : Nat := 127

abbrev ReadResult (α : Type) := Except ReadError α

def lift {α : Type} : Except Fault α → ReadResult α := Except.mapError .fault

/-- What a value is, if its own token is sound. Arrays and objects are not looked into. -/
def Draft.found : Draft → Except Fault Found
  | .null => .ok .null
  | .bool b => .ok (.bool b)
  | .number n => match n.number? with
    | some n => .ok (.number n)
    | none => .error .numberTooLarge
  | .text l => do return .text (← l.text)
  | .array _ _ => .ok .array
  | .object _ _ => .ok .object
  | .brokenNumber cut => .error (numberFault cut)
  | .brokenWord cut => .error (wordFault cut)
  | .missing cut => .error (missingFault cut)

/-- Scalars that take values of several kinds look into arrays and objects before they refuse them,
which costs a level of nesting. -/
def takesAny : Scalar → Bool
  | .double | .enum _ => true
  | _ => false

def inRange (lo hi : Int) (i : Int) : Bool := lo ≤ i && i ≤ hi

/-- An integer as a double, if the double turns back into that integer. -/
def doubleOfInt? (i : Int) : Option Double :=
  if 0 ≤ i then Double.lossless? 0 (2 ^ (64 : Nat) - 1) i
  else Double.lossless? (-2 ^ (63 : Nat)) (2 ^ (63 : Nat) - 1) i

def doubleOfText? (s : String) : Option Double :=
  if s = "NaN" then some .nan
  else if s = "Infinity" then some (.infinity false)
  else if s = "-Infinity" then some (.infinity true)
  else none

/-- The value that `f` is for a scalar: nothing if it is of the wrong kind, and no value if it is
a wrong one of the right kind. -/
def fit : (s : Scalar) → Found → Option (Option s.Value)
  | .string, .text v => some (some v)
  | .bytes, .text v => some (Text.Base64.decode v.toList)
  | .bool, .bool b => some (some b)
  | .int32, .number (.int i) =>
    some (if inRange (-2 ^ (31 : Nat)) (2 ^ (31 : Nat) - 1) i then some (Int32.ofInt i) else none)
  | .int64, .number (.int i) =>
    some (if inRange (-2 ^ (63 : Nat)) (2 ^ (63 : Nat) - 1) i then some (Int64.ofInt i) else none)
  | .uint64, .number (.int i) =>
    some (if inRange 0 (2 ^ (64 : Nat) - 1) i then some (UInt64.ofNat i.toNat) else none)
  | .double, .number (.double d) => some (some d)
  | .double, .number (.int i) => some (doubleOfInt? i)
  | .double, .text v => some (doubleOfText? v)
  | .enum e, .text v => some (e.numberOf? v)
  | .enum _, .number (.int i) =>
    some (if inRange (-2 ^ (31 : Nat)) (2 ^ (31 : Nat) - 1) i then some (Int32.ofInt i) else none)
  | _, _ => none

def scalarOf (s : Scalar) (f : Found) : ReadResult s.Value :=
  match fit s f with
  | some (some v) => .ok v
  | some none => .error (.wrongValue f (.scalar s))
  | none => .error (.wrongType f (.scalar s))

def readScalar (depth : Nat) (s : Scalar) (d : Draft) : ReadResult s.Value := do
  let f ← lift d.found
  if depth = 0 ∧ takesAny s ∧ (f = .array ∨ f = .object) then .error (.fault .tooDeep)
  else scalarOf s f

/-- What is wrong with the end of an array whose items are all wanted. -/
def ArrayEnd.fault? : ArrayEnd → Option Fault
  | .closed => none
  | .endOfText => some .endInArray
  | .closedAfterComma => some .trailingComma
  | .endAfterComma => some .endInValue
  | .noComma => some .noCommaInArray

/-- What is wrong with the end of an array from which no more is wanted. -/
def ArrayEnd.closingFault? : ArrayEnd → Option Fault
  | .closed => none
  | .endOfText => some .endInArray
  | .closedAfterComma => some .trailingComma
  | .endAfterComma => some .trailingCharacters
  | .noComma => some .trailingCharacters

def orFault {α : Type} (a : α) : Option Fault → ReadResult α
  | none => .ok a
  | some f => .error (.fault f)

def readList {α : Type} (depth : Nat) (item : (depth : Nat) → Draft → ReadResult α) (d : Draft) :
    ReadResult (List α) :=
  match depth, d with
  | 0, .array _ _ => .error (.fault .tooDeep)
  | depth + 1, .array ds stop => do orFault (← ds.mapM (item depth)) stop.fault?
  | _, d => do .error (.wrongType (← lift d.found) .list)

/-- How nested messages are read, `depth` being left to the slot that holds them. -/
structure Nested where
  one : (t : MessageType) → Draft → ReadResult (Message t)
  list : (t : MessageType) → Draft → ReadResult (List (Message t))

def readSlot (depth : Nat) (nested : Nested) (d : Draft) : (k : Kind) → ReadResult (Slot k)
  | .required s => do return .required (← readScalar depth s d)
  | .optional s => match d with
    | .null => .ok (.optional none)
    | d => do return .optional (some (← readScalar depth s d))
  | .repeated s _ => do return .repeated (← readList depth (fun depth => readScalar depth s) d)
  | .message t => match d with
    | .null => .ok .absent
    | d => do return .present (← nested.one t d)
  | .messages t => do return .messages (.ofList (← nested.list t d))

/-- Reads the member called `key` into its slot; `none` if there is no such field. -/
def readMember (slot : Draft → (k : Kind) → ReadResult (Slot k)) (key : String) (d : Draft) :
    {fs : List Field} → Record fs → Option (ReadResult (Record fs))
  | _, .nil => none
  | f :: _, .cons s r =>
    if f.key = key then some do return .cons (← slot d f.kind) r
    else (readMember slot key d r).map fun r => do return .cons s (← r)

/-- A key that may come next: sound, and not one of the keys before it that the type knows. -/
def readKey (fs : List Field) (seen : List String) (k : Literal) : ReadResult String := do
  let key ← lift k.text
  if key ∈ seen ∧ fs.any (fun f => f.key = key) then .error (.duplicateKey key) else return key

/-- What is wrong with the end of an object, after the keys `seen`. -/
def checkEnd (fs : List Field) (seen : List String) : ObjectEnd → ReadResult Unit
  | .closed => .ok ()
  | .endOfText => .error (.fault .endInObject)
  | .closedAfterComma => .error (.fault .trailingComma)
  | .endAfterComma => .error (.fault .endInValue)
  | .noComma => .error (.fault .noCommaInObject)
  | .noKey => .error (.fault .keyNotText)
  | .brokenKey k => do
    let _ ← readKey fs seen k
    .error (.fault .endInText)
  | .endAfterKey k => do
    let _ ← readKey fs seen k
    .error (.fault .endInObject)
  | .noColon k => do
    let _ ← readKey fs seen k
    .error (.fault .noColon)

def readMembers (slot : Draft → (k : Kind) → ReadResult (Slot k)) (stop : ObjectEnd)
    {fs : List Field} (seen : List String) (r : Record fs) :
    List (Literal × Draft) → ReadResult (Record fs)
  | [] => do
    checkEnd fs seen stop
    return r
  | (k, d) :: ms => do
    let key ← readKey fs seen k
    match readMember slot key d r with
    | some r => readMembers slot stop (key :: seen) (← r) ms
    | none => match d.skipFault? with
      | none => readMembers slot stop (key :: seen) r ms
      | some f => .error (.fault f)

/-- The fields in the order of declaration; those that the array does not reach stay empty. -/
def readItems (slot : Draft → (k : Kind) → ReadResult (Slot k)) (stop : ArrayEnd) :
    (fs : List Field) → List Draft → ReadResult (Record fs)
  | [], [] => orFault .nil stop.closingFault?
  | [], _ :: _ => .error (.fault .trailingCharacters)
  | f :: fs, [] => orFault (.empty (f :: fs)) stop.fault?
  | f :: fs, d :: ds => do return .cons (← slot d f.kind) (← readItems slot stop fs ds)

mutual

/-- A message with `depth` levels of arrays and objects to go. -/
def readMessage : (depth : Nat) → (t : MessageType) → Draft → ReadResult (Message t)
  | 0, _, .array _ _ => .error (.fault .tooDeep)
  | 0, _, .object _ _ => .error (.fault .tooDeep)
  | depth + 1, t, .array ds stop =>
    readItems (readSlot depth ⟨readMessage depth, readMessages depth⟩) stop t.fields ds
  | depth + 1, t, .object ms stop =>
    readMembers (readSlot depth ⟨readMessage depth, readMessages depth⟩) stop []
      (Message.empty t) ms
  | _, t, d => do .error (.wrongType (← lift d.found) (.message t))

def readMessages : (depth : Nat) → (t : MessageType) → Draft → ReadResult (List (Message t))
  | 0, _, .array _ _ => .error (.fault .tooDeep)
  | depth + 1, t, .array ds stop => do
    orFault (← ds.mapM (readMessage depth t)) stop.fault?
  | _, _, d => do .error (.wrongType (← lift d.found) .list)

end

/-- The message that a text stands for; nothing but blanks may follow it. -/
def read (t : MessageType) (cs : List Char) : ReadResult (Message t) := do
  let (d, rest) := scan cs
  let m ← readMessage depthLimit t d
  if (skipSpace (rest.getD [])).isEmpty then return m else .error (.fault .trailingCharacters)

end SchemaReport.Json
