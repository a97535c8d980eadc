import Mathlib.Data.List.Basic
import SchemaReport.Proofs.Message.Slots
import SchemaReport.Proofs.Report.Graph

/-! The text of a graph read back. A reader splits the text at its newlines, takes the name of the
graph from the first line, and reads one node or edge from each line of the two sections, which end
at an empty line. Names are free: a name in quotes has no newline and no bare quote in it, so that
neither the lines nor what follows a name can be mistaken. -/

namespace SchemaReport

/-- What is drawn: the nodes and edges of a graph under its name. -/
structure Drawing where
  name : String
  nodes : List (String × Shape)
  edges : List Edge
  deriving DecidableEq

namespace Graph

def drawing (name : String) (g : Graph) : Drawing :=
  ⟨name, g.nodes.map fun n => (n.name.text, n.shape), g.edges⟩

/-! ### Reader -/

/-- The character that a letter after a backslash stands for. -/
def unescape? (e : Char) : Option Char :=
  if e = '"' then some '"'
  else if e = '\\' then some '\\'
  else if e = 'n' then some '\n'
  else none

def cons (c : Char) (p : List Char × List Char) : List Char × List Char := (c :: p.1, p.2)

/-- Reads a text behind its opening quote. -/
def readBody : List Char → Option (List Char × List Char)
  | [] => none
  | ['\\'] => none
  | '\\' :: e :: r =>
    match unescape? e with
    | some c => (readBody r).map (cons c)
    | none => none
  | c :: r => if c = '"' then some ([], r) else (readBody r).map (cons c)

def readQuoted : List Char → Option (String × List Char)
  | '"' :: r => (readBody r).map fun p => (String.ofList p.1, p.2)
  | _ => none

def readShape (r : List Char) : Option Shape :=
  [Shape.diamond, .circle, .square].find? fun s => s.suffix = r

def readStyle (r : List Char) : Option EdgeStyle :=
  [EdgeStyle.method, .input, .output, .field].find? fun s => s.suffix = r

def readNode (line : List Char) : Option (String × Shape) := do
  let (name, r) ← readQuoted line
  return (name, ← readShape r)

def readEdge (line : List Char) : Option Edge := do
  let (source, r) ← readQuoted line
  let (target, r) ← readQuoted (← r.dropPrefix? " -> ".toList)
  return ⟨source, target, ← readStyle r⟩

def readHead (line : List Char) : Option String := do
  let r ← line.dropPrefix? "digraph ".toList
  let name := r.takeWhile (· ≠ ' ')
  if Options.isIdentifier name ∧ r.dropWhile (· ≠ ' ') = " \x7b".toList then
    return String.ofList name
  else none

/-- Reads lines up to an empty one. -/
def readSection {α : Type} (readLine : List Char → Option α) :
    List (List Char) → Option (List α × List (List Char))
  | [] => none
  | [] :: ls => some ([], ls)
  | l :: ls => do
    let a ← readLine l
    let (as, ls) ← readSection readLine ls
    return (a :: as, ls)

def read (text : List Char) : Option Drawing :=
  match text.splitOn '\n' with
  | first :: [] :: ls => do
    let name ← readHead first
    let (nodes, ls) ← readSection readNode ls
    let (edges, ls) ← readSection readEdge ls
    if ls = [['\x7d']] then return ⟨name, nodes, edges⟩ else none
  | _ => none

/-! ### Names in quotes -/

theorem readBody_quoteChar (c : Char) (r : List Char) :
    readBody (quoteChar c ++ r) = (readBody r).map (cons c) := by
  unfold quoteChar
  split
  · subst c
    rw [List.cons_append, List.cons_append, readBody]
    rfl
  · split
    · subst c
      rw [List.cons_append, List.cons_append, readBody]
      rfl
    · split
      · subst c
        rw [List.cons_append, List.cons_append, readBody]
        rfl
      next hq hb hn =>
        rw [List.cons_append, List.nil_append, readBody.eq_def]
        simp [hq, hb]

theorem readBody_flatMap (cs r : List Char) :
    readBody (cs.flatMap quoteChar ++ '"' :: r) = some (cs, r) := by
  induction cs with
  | nil => simp [readBody]
  | cons c cs ih =>
    rw [List.flatMap_cons, List.append_assoc, readBody_quoteChar, ih]
    rfl

theorem readQuoted_quote (s : String) (r : List Char) :
    readQuoted (quote s ++ r) = some (s, r) := by
  rw [quote, List.append_assoc, List.cons_append, List.singleton_append, readQuoted,
    readBody_flatMap, Option.map_some, String.ofList_toList]

theorem newline_notMem_quote (s : String) : '\n' ∉ quote s := by
  intro h
  simp only [quote, List.mem_append, List.mem_cons, List.mem_flatMap, List.not_mem_nil,
    or_false] at h
  obtain (h | ⟨c, -, hc⟩) | h := h
  · exact absurd h (by decide)
  · unfold quoteChar at hc
    split at hc
    · exact absurd hc (by decide)
    · split at hc
      · exact absurd hc (by decide)
      · split at hc
        · exact absurd hc (by decide)
        next hn => exact hn (List.mem_singleton.mp hc).symm
  · exact absurd h (by decide)

/-! ### Lines -/

theorem readShape_suffix (s : Shape) : readShape s.suffix = some s := by
  cases s <;> rfl

theorem readStyle_suffix (s : EdgeStyle) : readStyle s.suffix = some s := by
  cases s <;> rfl

theorem dropPrefix?_append (p r : List Char) : (p ++ r).dropPrefix? p = some r :=
  List.dropPrefix?_append_of_beq r (beq_self_eq_true p)

theorem readNode_nodeText (n : Node) : readNode (nodeText n) = some (n.name.text, n.shape) := by
  rw [readNode, nodeText, readQuoted_quote]
  simp only [Option.bind_eq_bind, Option.bind_some, readShape_suffix]
  rfl

theorem readEdge_edgeText (e : Edge) : readEdge (edgeText e) = some e := by
  rw [readEdge, edgeText, List.append_assoc, List.append_assoc, readQuoted_quote]
  simp only [Option.bind_eq_bind, Option.bind_some, dropPrefix?_append, readQuoted_quote,
    readStyle_suffix]
  rfl

/-- No character of an identifier is one that ends it. -/
theorem notMem_of_isIdentifier {cs : List Char} (h : Options.isIdentifier cs) :
    ' ' ∉ cs ∧ '\n' ∉ cs := by
  have letters : ∀ c ∈ cs, (c.isAlphanum || c == '_') = true := by
    cases cs with
    | nil => exact absurd h (by decide)
    | cons c cs =>
      simp only [Options.isIdentifier, Bool.and_eq_true, List.all_eq_true] at h
      intro d hd
      obtain rfl | hd := List.mem_cons.mp hd
      · simp only [Bool.or_eq_true, Char.isAlphanum] at h ⊢
        exact h.1.imp_left .inl
      · exact h.2 d hd
  exact ⟨fun hs => absurd (letters _ hs) (by decide), fun hn => absurd (letters _ hn) (by decide)⟩

theorem readHead_head {name : String} (h : Options.isIdentifier name.toList) :
    readHead (head name) = some name := by
  have inside : ∀ c ∈ name.toList, decide (c ≠ ' ') = true := by
    intro c hc
    exact decide_eq_true fun e => (notMem_of_isIdentifier h).1 (e ▸ hc)
  have ends : " \x7b".toList = [' ', '\x7b'] := rfl
  unfold readHead head
  simp only [List.append_assoc, dropPrefix?_append, Option.bind_eq_bind, Option.bind_some, ends,
    List.takeWhile_append_of_pos inside, List.dropWhile_append_of_pos inside]
  simp [h]

theorem newline_notMem_nodeText (n : Node) : '\n' ∉ nodeText n := by
  have suffix : '\n' ∉ n.shape.suffix := by cases n.shape <;> decide
  exact List.not_mem_append (newline_notMem_quote _) suffix

theorem newline_notMem_edgeText (e : Edge) : '\n' ∉ edgeText e := by
  have arrow : '\n' ∉ " -> ".toList := by decide
  have suffix : '\n' ∉ e.style.suffix := by cases e.style <;> decide
  refine List.not_mem_append (List.not_mem_append (List.not_mem_append ?_ arrow) ?_) suffix
  · exact newline_notMem_quote _
  · exact newline_notMem_quote _

theorem newline_notMem_head {name : String} (h : Options.isIdentifier name.toList) :
    '\n' ∉ head name := by
  have opening : '\n' ∉ "digraph ".toList := by decide
  have ending : '\n' ∉ " \x7b".toList := by decide
  exact List.not_mem_append (List.not_mem_append opening (notMem_of_isIdentifier h).2) ending

theorem newline_notMem_lines {name : String} (h : Options.isIdentifier name.toList) (g : Graph) :
    ∀ l ∈ lines name g, '\n' ∉ l := by
  intro l hl
  simp only [lines, List.mem_append, List.mem_cons, List.mem_map, List.not_mem_nil, or_false,
    List.cons_append] at hl
  obtain rfl | rfl | (⟨n, -, rfl⟩ | rfl | ⟨e, -, rfl⟩) | rfl | rfl := hl
  · exact newline_notMem_head h
  · exact List.not_mem_nil
  · exact newline_notMem_nodeText n
  · exact List.not_mem_nil
  · exact newline_notMem_edgeText e
  · exact List.not_mem_nil
  · decide

theorem readSection_map {α β : Type} {readLine : List Char → Option β} {write : α → List Char}
    {f : α → β} (h : ∀ a, write a ≠ [] ∧ readLine (write a) = some (f a)) (as : List α)
    (ls : List (List Char)) :
    readSection readLine (as.map write ++ [] :: ls) = some (as.map f, ls) := by
  induction as with
  | nil => rfl
  | cons a as ih =>
    rw [List.map_cons, List.cons_append, readSection, (h a).2, ih]
    · rfl
    · exact (h a).1

theorem readSection_nodes (ns : List Node) (ls : List (List Char)) :
    readSection readNode (ns.map nodeText ++ [] :: ls) =
      some (ns.map fun n => (n.name.text, n.shape), ls) :=
  readSection_map (fun n => ⟨List.cons_ne_nil _ _, readNode_nodeText n⟩) ns ls

theorem readSection_edges (es : List Edge) (ls : List (List Char)) :
    readSection readEdge (es.map edgeText ++ [] :: ls) = some (es, ls) := by
  have edges := readSection_map (f := id)
    (fun e => ⟨List.cons_ne_nil _ _, readEdge_edgeText e⟩) es ls
  rwa [List.map_id] at edges

/-- Reading undoes writing. -/
theorem read_text {name : String} (h : Options.isIdentifier name.toList) (g : Graph) :
    read (g.text name) = some (g.drawing name) := by
  have split := List.splitOn_intercalate '\n' (newline_notMem_lines h g) (List.cons_ne_nil _ _)
  rw [read, text_eq_lines, split]
  simp only [lines, List.cons_append, List.append_assoc, readHead_head h, Option.bind_eq_bind,
    Option.bind_some, readSection_nodes, readSection_edges]
  rfl

theorem drawing_injective {name name' : String} {g g' : Graph}
    (h : g.drawing name = g'.drawing name') : name = name' ∧ g = g' := by
  have distinct : Function.Injective fun n : Node => (n.name.text, n.shape) := by
    rintro ⟨name, shape⟩ ⟨name', shape'⟩ hmn
    obtain ⟨htext, rfl⟩ := Prod.mk.inj hmn
    obtain rfl : name = name' := QualifiedName.ext htext
    rfl
  obtain ⟨nodes, edges⟩ := g
  obtain ⟨nodes', edges'⟩ := g'
  obtain ⟨hname, hnodes, rfl⟩ := Drawing.mk.inj h
  obtain rfl : nodes = nodes' := List.map_injective_iff.mpr distinct hnodes
  exact ⟨hname, rfl⟩

/-- The text of a graph under an identifier is read as what was drawn, whatever its names are, so
that no other graph and no other name has the same text. -/
theorem generate_unambiguous (r : Request) (o : Options)
    (h : Options.isIdentifier o.graphName.toList) :
    ∃ t, (generator.generate r o).value = .ok t ∧
      read t.toList = some ((ofFiles (o.files r)).value.drawing o.graphName) ∧
      ∀ r' o', Options.isIdentifier o'.graphName.toList →
        (generator.generate r' o').value = .ok t →
        o'.graphName = o.graphName ∧
          (ofFiles (o'.files r')).value = (ofFiles (o.files r)).value := by
  refine ⟨String.ofList ((ofFiles (o.files r)).value.text o.graphName), rfl, ?_, ?_⟩
  · rw [String.toList_ofList, read_text h]
  · intro r' o' h' same
    have texts : (ofFiles (o'.files r')).value.text o'.graphName =
        (ofFiles (o.files r)).value.text o.graphName :=
      String.ofList_injective (Except.ok.inj same)
    have drawings := (read_text h' _).symm.trans ((congrArg read texts).trans (read_text h _))
    exact drawing_injective (Option.some.inj drawings)

/-- A request with one message, whose name looks like the rest of its line and a line of its own. -/
def punctuated : Request :=
  let message : MessageDescriptor :=
    (Message.empty .message).put (.optional 1 "name" "name" .string)
      (.optional (some "a\" [shape=circle]\n"))
  let file : FileDescriptor :=
    (Message.empty .file).put (.messages 4 "message_type" "messageType" .message)
      (.messages (.ofList [message]))
  (Message.empty .request).put (.messages 15 "proto_file" "protoFile" .file)
    (.messages (.ofList [file]))

theorem generate_unambiguous_punctuated :
    Options.isIdentifier Options.standard.graphName.toList ∧
      ∃ t, (generator.generate punctuated .standard).value = .ok t ∧
        read t.toList = some ⟨"entities", [(".a\" [shape=circle]\n", .square)], []⟩ := by
  have identifier : Options.isIdentifier Options.standard.graphName.toList := by decide
  have drawn : (ofFiles (Options.standard.files punctuated)).value.drawing "entities" =
      ⟨"entities", [(".a\" [shape=circle]\n", .square)], []⟩ := by
    decide +kernel
  obtain ⟨t, written, readBack, -⟩ := generate_unambiguous punctuated .standard identifier
  exact ⟨identifier, t, written, readBack.trans (congrArg some drawn)⟩

end Graph

end SchemaReport
