import SchemaReport.Log
import SchemaReport.Text.Basic

/-! Which log records are shown. Directives give levels to parts of the plugin, and the directive
for the longest part decides; beside them there may be a text that a record must contain. Both are
given by one text, of which only what can be read counts. -/

namespace SchemaReport

-- Parts of lists are decided as in the core library, also where another decision is at hand.
attribute [local instance (high)] List.instDecidableIsInfixOfDecidableEq

/-- Records of the origins whose target starts with `target?` are shown up to a level. -/
structure Directive where
  target? : Option String
  level? : Option Level
  deriving DecidableEq

namespace Directive

/-- The level of a name in any letter case; `off` is the level that shows nothing. -/
def levelOf? (s : String) : Option (Option Level) :=
  let s := s.toLower
  if s = "off" then some none
  else ([.error, .warn, .info, .debug, .trace].find? fun (l : Level) => l.name.toLower = s).map some

/-- What the targets start with that it is for. All of them start with nothing. -/
def target (d : Directive) : String := d.target?.getD ""

/-- A level for all targets, a target for all levels, or a level for one target; or else the part
that cannot be read. -/
def ofText (s : String) : Except String Directive :=
  match (s.toList.splitOn '=').map String.ofList with
  | [a] => match levelOf? a with
    | some l => .ok ⟨none, l⟩
    | none => .ok ⟨some a, some .trace⟩
  | [a, b] =>
    let b := String.ofList (Text.trim b.toList)
    if b = "" then .ok ⟨some a, some .trace⟩
    else match levelOf? b with
      | some l => .ok ⟨some a, l⟩
      | none => .error b
  | _ => .error s

/-- Directives stand between commas. -/
def listOf (cs : List Char) : List (Except String Directive) :=
  (((cs.splitOn ',').map Text.trim).filter (· ≠ [])).map fun p => ofText (String.ofList p)

/-- A later directive takes the place of an earlier one for the same target. -/
def add (ds : List Directive) (d : Directive) : List Directive :=
  if ds.any (·.target? = d.target?) then ds.map fun e => if e.target? = d.target? then d else e
  else ds ++ [d]

/-- The directives that are in force. Where none could be read, errors are shown. -/
def inForce (ds : List (Except String Directive)) : List Directive :=
  match (ds.filterMap Except.toOption).foldl add [] with
  | [] => [⟨none, some .error⟩]
  | ds => ds

end Directive

structure LogFilter where
  directives : List Directive
  /-- What the text of a record must contain. -/
  needle? : Option String
  deriving DecidableEq

namespace LogFilter

/-- The directives and, behind a slash, the needle. With a second slash there is neither. -/
def halves? (s : String) : Option (List Char × Option String) :=
  match s.toList.splitOn '/' with
  | [cs] => some (cs, none)
  | [cs, needle] => some (cs, some (String.ofList needle))
  | _ => none

/-- The filter that is given by a text. What cannot be read does not count. -/
def ofText (s : String) : LogFilter :=
  match halves? s with
  | some (cs, needle?) => ⟨Directive.inForce (Directive.listOf cs), needle?⟩
  | none => ⟨Directive.inForce [], none⟩

/-- What is said of the parts of a text that cannot be read. -/
def complaints (s : String) : List String :=
  match halves? s with
  | some (cs, _) => (Directive.listOf cs).filterMap fun
    | .ok _ => none
    | .error part => some ("warning: invalid logging spec '" ++ part ++ "', ignoring it")
  | none => ["warning: invalid logging spec '" ++ s ++ "', ignoring it (too many '/'s)"]

/-- The filter that is in force when none is given. -/
def standard : LogFilter := ⟨[⟨none, some .warn⟩], none⟩

/-- The directive with the longest target that fits. -/
def directiveFor? (f : LogFilter) (target : String) : Option Directive :=
  f.directives.foldl (fun best d =>
    if !d.target.toList.isPrefixOf target.toList then best
    else match best with
      | some b => if b.target.length ≤ d.target.length then some d else some b
      | none => some d) none

def shows (f : LogFilter) (r : LogRecord) : Bool :=
  f.needle?.all (fun needle => needle.toList <:+: r.text.toList) &&
    match f.directiveFor? r.origin.target with
    | some ⟨_, some l⟩ => r.level.rank ≤ l.rank
    | _ => false

end LogFilter

end SchemaReport
