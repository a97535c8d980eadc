import SchemaReport.Json.Literal

/-! JSON values and their text, on one line or with a line for every item. -/

namespace SchemaReport

inductive Json.Value
  | null
  | bool (b : Bool)
  /-- An integer or a finite double. -/
  | number (n : Number)
  | text (s : String)
  | array (items : List Value)
  | object (members : List (String × Value))

namespace Json

/-- How many blanks a level of nesting is worth, if items have lines of their own. -/
abbrev Layout := Option Nat

def newline (l : Layout) (depth : Nat) : List Char :=
  match l with
  | none => []
  | some width => '\n' :: List.replicate (width * depth) ' '

def colon : Layout → List Char
  | none => [':']
  | some _ => [':', ' ']

def boolText (b : Bool) : List Char := if b then "true".toList else "false".toList

def numberText : Number → List Char
  | .int i => intText i
  | .double d => doubleText d

mutual

/-- The text of a value that stands `depth` levels deep. -/
def Value.print (l : Layout) (depth : Nat) : Value → List Char
  | .null => "null".toList
  | .bool b => boolText b
  | .number n => numberText n
  | .text s => literal s.toList
  | .array [] => ['[', ']']
  | .array (v :: vs) =>
    '[' :: newline l (depth + 1) ++ v.print l (depth + 1) ++ printItems l (depth + 1) vs ++
      newline l depth ++ [']']
  | .object [] => ['{', '}']
  | .object (m :: ms) =>
    '{' :: newline l (depth + 1) ++ printMember l (depth + 1) m ++ printMembers l (depth + 1) ms ++
      newline l depth ++ ['}']

def printItems (l : Layout) (depth : Nat) : List Value → List Char
  | [] => []
  | v :: vs => ',' :: newline l depth ++ v.print l depth ++ printItems l depth vs

def printMember (l : Layout) (depth : Nat) : String × Value → List Char
  | (k, v) => literal k.toList ++ colon l ++ v.print l depth

def printMembers (l : Layout) (depth : Nat) : List (String × Value) → List Char
  | [] => []
  | m :: ms => ',' :: newline l depth ++ printMember l depth m ++ printMembers l depth ms

end

end Json

end SchemaReport
