import SchemaReport.Report.Generator
import SchemaReport.Walk

/-! The graph of services, methods and messages. Every qualified name is one node, shaped by its
first declaration; dashed edges lead from a service to its methods and from a method to its input
and output, and a plain edge leads from a message to the type of each field that holds messages.
Types are named and not followed, so cycles of messages do no harm. -/

namespace SchemaReport

inductive Shape
  | diamond | circle | square
  deriving DecidableEq

def Shape.name : Shape → String
  | .diamond => "diamond"
  | .circle => "circle"
  | .square => "square"

structure Node where
  name : QualifiedName
  shape : Shape
  deriving DecidableEq

inductive EdgeStyle
  | method | input | output | field
  deriving DecidableEq

def EdgeStyle.attributes? : EdgeStyle → Option String
  | .method => some "style=dashed"
  | .input => some "style=dashed, color=red"
  | .output => some "style=dashed, color=blue"
  | .field => none

structure Edge where
  source : String
  target : String
  style : EdgeStyle
  deriving DecidableEq

structure Graph where
  nodes : List Node
  edges : List Edge
  deriving DecidableEq

namespace Graph

def empty : Graph := ⟨[], []⟩

def isDeclared (g : Graph) (n : QualifiedName) : Bool := g.nodes.any fun m => m.name = n

/-- A pass that adds to a graph and logs what it adds. -/
abbrev Builder := StateT Graph Logged

def log (level : Level) (text : String) : Builder Unit :=
  StateT.lift (Logged.note level .graph text)

def declare (name : QualifiedName) (shape : Shape) : Builder Unit := do
  if (← get).isDeclared name then
    log .warn (name.text ++ " is declared more than once, keeping the first")
  else
    log .trace ("node " ++ name.text ++ " (" ++ shape.name ++ ")")
    modify fun g => { g with nodes := g.nodes ++ [⟨name, shape⟩] }

def connect (source target : String) (style : EdgeStyle) : Builder Unit :=
  modify fun g => { g with edges := g.edges ++ [⟨source, target, style⟩] }

def addMethod (service : QualifiedName) (m : MethodDescriptor) : Builder Unit := do
  let name := service.join m.name
  declare name .circle
  connect service.text name.text .method
  connect name.text m.inputType .input
  connect name.text m.outputType .output

def addService (package : QualifiedName) (s : ServiceDescriptor) : Builder Unit := do
  let name := package.join s.name
  declare name .diamond
  s.methods.forM (addMethod name)

def addMessage (name : QualifiedName) (m : MessageDescriptor) : Builder Unit := do
  declare name .square
  m.fields.forM fun f => do
    if f.holdsMessage && f.typeName ≠ "" then connect name.text f.typeName .field

def addFile (f : FileDescriptor) : Builder Unit := do
  log .debug ("graph: file " ++ Text.quoted f.name ++ ", package " ++ Text.quoted f.package)
  f.services.forM (addService (.ofPackage f.package))
  f.walk addMessage

def build (fs : List FileDescriptor) : Builder Unit := do
  fs.forM addFile
  let g ← get
  log .debug s!"graph: {g.nodes.length} nodes, {g.edges.length} edges"

def ofFiles (fs : List FileDescriptor) : Logged Graph := do
  return ((← (build fs).run empty)).2

def quoteChar (c : Char) : List Char :=
  if c = '"' then ['\\', '"']
  else if c = '\\' then ['\\', '\\']
  else if c = '\n' then ['\\', 'n']
  else [c]

/-- A text in quotes, on one line. -/
def quote (s : String) : List Char := '"' :: s.toList.flatMap quoteChar ++ ['"']

def nodeLine (n : Node) : List Char :=
  quote n.name.text ++ " [shape=".toList ++ n.shape.name.toList ++ "]\n".toList

def edgeLine (e : Edge) : List Char :=
  let attributes := match e.style.attributes? with
    | some a => " [".toList ++ a.toList ++ [']']
    | none => []
  quote e.source ++ " -> ".toList ++ quote e.target ++ attributes ++ ['\n']

/-- The nodes and then the edges, between the name of the graph and a brace that ends the text. -/
def text (name : String) (g : Graph) : List Char :=
  "digraph ".toList ++ name.toList ++ " \x7b\n\n".toList ++ g.nodes.flatMap nodeLine ++ ['\n'] ++
    g.edges.flatMap edgeLine ++ "\n\x7d".toList

def generator : Generator where
  fileName := "entity_graph.dot"
  generate r o := do
    let g ← ofFiles (o.files r)
    return .ok (String.ofList (g.text o.graphName))

end Graph

end SchemaReport
