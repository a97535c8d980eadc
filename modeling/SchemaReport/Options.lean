import SchemaReport.Descriptor
import SchemaReport.Log
import SchemaReport.Text.Basic

/-! The options of the plugin, given as a list of `key=value` entries between commas. The compiler
hands every plugin the same list, so unknown keys are common: they are passed over like values that
are not valid, and both are logged. -/

namespace SchemaReport

/-- Which files the statistics and the graph are about. -/
inductive Scope
  | all | generate
  deriving DecidableEq

structure Options where
  graphName : String
  scope : Scope
  /-- Blanks for each level of the dump; none puts it on one line. -/
  dumpIndent : Nat
  deriving DecidableEq

namespace Options

def standard : Options := ⟨"entities", .all, 2⟩

/-- The widest indentation of a dump. -/
def maxDumpIndent : Nat := 16

/-- An entry that is valid. -/
inductive Setting
  | graphName (name : String)
  | scope (s : Scope)
  | dumpIndent (n : Nat)

inductive Refusal
  | notIdentifier
  | notScope (value : String)
  | notIndent (value : String)
  | unknownKey

def Refusal.message : Refusal → String
  | .notIdentifier => "expected an identifier made of letters, digits and '_'"
  | .notScope v => "expected `all` or `generate`, got `" ++ v ++ "`"
  | .notIndent v => s!"expected an integer between 0 and {maxDumpIndent}, got `" ++ v ++ "`"
  | .unknownKey => "unknown option"

/-- A letter or an underscore, and then letters, digits and underscores, all of them ASCII. -/
def isIdentifier : List Char → Bool
  | [] => false
  | c :: cs => (c.isAlpha || c == '_') && cs.all fun c => c.isAlphanum || c == '_'

/-- The number of one digit or more, behind an optional plus sign. -/
def natOf? (cs : List Char) : Option Nat :=
  let ds := match cs with
    | '+' :: r => r
    | cs => cs
  if ds.isEmpty || !ds.all Char.isDigit then none else some (Text.natOfDigits ds)

def Setting.of (key value : List Char) : Except Refusal Setting :=
  let text := String.ofList value
  if key = "graph_name".toList then
    if isIdentifier value then .ok (.graphName text) else .error .notIdentifier
  else if key = "scope".toList then
    if value = "all".toList then .ok (.scope .all)
    else if value = "generate".toList then .ok (.scope .generate)
    else .error (.notScope text)
  else if key = "dump_indent".toList then
    match natOf? value with
    | some n => if n ≤ maxDumpIndent then .ok (.dumpIndent n) else .error (.notIndent text)
    | none => .error (.notIndent text)
  else .error .unknownKey

def apply (o : Options) : Setting → Options
  | .graphName name => { o with graphName := name }
  | .scope s => { o with scope := s }
  | .dumpIndent n => { o with dumpIndent := n }

structure Entry where
  text : List Char
  key : List Char
  value : List Char

/-- Key and value stand on either side of the first equals sign; without one the value is empty. -/
def Entry.of (text : List Char) : Entry :=
  let key := text.takeWhile (· ≠ '=')
  let value := (text.dropWhile (· ≠ '=')).drop 1
  ⟨text, Text.trim key, Text.trim value⟩

/-- The entries between commas, without blanks around them and without empty ones. -/
def entries (parameter : String) : List Entry :=
  (((parameter.toList.splitOn ',').map Text.trim).filter (· ≠ [])).map Entry.of

def applyEntry (o : Options) (e : Entry) : Logged Options := do
  let key := Text.quoted (String.ofList e.key)
  let value := Text.quoted (String.ofList e.value)
  Logged.note .debug .options ("plugin option: " ++ key ++ " = " ++ value)
  match Setting.of e.key e.value with
  | .ok s => return o.apply s
  | .error r =>
    let text := String.ofList e.text
    Logged.note .warn .options ("ignoring plugin option `" ++ text ++ "`: " ++ r.message)
    return o

/-- The options of a parameter text; of several valid entries for one key the last one stands. -/
def ofParameter (parameter : String) : Logged Options :=
  (entries parameter).foldlM applyEntry standard

/-- The files that the statistics and the graph are about, in the order of the request. -/
def files (o : Options) (r : Request) : List FileDescriptor :=
  match o.scope with
  | .all => r.protoFiles
  | .generate => r.protoFiles.filter fun f => r.filesToGenerate.contains f.name

def describe (o : Options) : String :=
  let scope := match o.scope with
    | .all => "All"
    | .generate => "Generate"
  "Config \x7b graph_name: " ++ Text.quoted o.graphName ++ ", scope: " ++ scope ++
    ", dump_indent: " ++ toString o.dumpIndent ++ " \x7d"

end Options

end SchemaReport
