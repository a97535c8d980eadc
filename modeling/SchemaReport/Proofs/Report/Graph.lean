import SchemaReport.Proofs.QualifiedName
import SchemaReport.Proofs.Walk
import SchemaReport.Report.Graph

/-! The graph without its construction. The files give a list of declarations: the services, each
followed by its methods, and then the messages in pre-order. The nodes are the first ones of each
name in that list, and the edges are those of all declarations. -/

namespace SchemaReport

/-- What follows the name of a node on its line. -/
def Shape.suffix (s : Shape) : List Char := " [shape=".toList ++ s.name.toList ++ [']']

/-- What follows the names on the line of an edge. -/
def EdgeStyle.suffix (s : EdgeStyle) : List Char :=
  match s.attributes? with
  | some a => " [".toList ++ a.toList ++ [']']
  | none => []

namespace Graph

/-- A declaration: the node that it asks for and the edges that it draws. -/
structure Declaration where
  node : Node
  edges : List Edge

namespace Declaration

def ofMethod (service : QualifiedName) (m : MethodDescriptor) : Declaration where
  node := ⟨service.join m.name, .circle⟩
  edges := [
    ⟨service.text, (service.join m.name).text, .method⟩,
    ⟨(service.join m.name).text, m.inputType, .input⟩,
    ⟨(service.join m.name).text, m.outputType, .output⟩]

/-- A service and its methods. -/
def ofService (package : QualifiedName) (s : ServiceDescriptor) : List Declaration :=
  ⟨⟨package.join s.name, .diamond⟩, []⟩ :: s.methods.map (ofMethod (package.join s.name))

def ofMessage (name : QualifiedName) (m : MessageDescriptor) : Declaration where
  node := ⟨name, .square⟩
  edges := (m.fields.filter fun f => f.holdsMessage && f.typeName ≠ "").map fun f =>
    ⟨name.text, f.typeName, .field⟩

def ofFile (f : FileDescriptor) : List Declaration :=
  f.services.flatMap (ofService (.ofPackage f.package)) ++
    f.preorder.map fun p => ofMessage p.1 p.2

def ofFiles (fs : List FileDescriptor) : List Declaration := fs.flatMap ofFile

end Declaration

/-- The first node of each name. -/
def firstNodes : List Node → List Node
  | [] => []
  | n :: ns => n :: (firstNodes ns).filter fun m => m.name ≠ n.name

/-- The graph that a list of declarations stands for. -/
def ofDeclarations (ds : List Declaration) : Graph :=
  ⟨firstNodes (ds.map (·.node)), ds.flatMap (·.edges)⟩

/-! ### First nodes -/

theorem firstNodes_sublist (ns : List Node) : (firstNodes ns).Sublist ns := by
  induction ns with
  | nil => exact List.Sublist.refl _
  | cons n ns ih => exact (List.filter_sublist.trans ih).cons_cons n

theorem nodup_firstNodes (ns : List Node) : ((firstNodes ns).map (·.name)).Nodup := by
  induction ns with
  | nil => exact List.nodup_nil
  | cons n ns ih =>
    rw [firstNodes, List.map_cons, List.nodup_cons]
    refine ⟨?_, (List.filter_sublist.map _).nodup ih⟩
    intro h
    obtain ⟨m, hm, hname⟩ := List.mem_map.mp h
    simp only [List.mem_filter, decide_eq_true_eq] at hm
    exact hm.2 hname

/-- A node is there if it is not preceded by one of its name. -/
theorem mem_firstNodes_iff {n : Node} {ns : List Node} : n ∈ firstNodes ns ↔
    ∃ before after, ns = before ++ n :: after ∧ n.name ∉ before.map (·.name) := by
  induction ns with
  | nil => simp [firstNodes]
  | cons m ns ih =>
    rw [firstNodes, List.mem_cons, List.mem_filter, ih]
    constructor
    · rintro (rfl | ⟨⟨before, after, rfl, hn⟩, hne⟩)
      · exact ⟨[], ns, rfl, by simp⟩
      · have hne : n.name ≠ m.name := by simpa using hne
        exact ⟨m :: before, after, rfl, by simpa [hne] using hn⟩
    · rintro ⟨before, after, h, hn⟩
      cases before with
      | nil => exact .inl (List.cons.inj h).1.symm
      | cons b before =>
        obtain ⟨rfl, rfl⟩ := List.cons.inj h
        rw [List.map_cons, List.mem_cons, not_or] at hn
        exact .inr ⟨⟨before, after, rfl, hn.2⟩, by simpa using hn.1⟩

theorem mem_map_name_firstNodes {ns : List Node} {n : Node} (h : n ∈ ns) :
    n.name ∈ (firstNodes ns).map (·.name) := by
  induction ns with
  | nil => exact absurd h List.not_mem_nil
  | cons m ns ih =>
    rw [firstNodes, List.map_cons, List.mem_cons]
    by_cases hname : n.name = m.name
    · exact .inl hname
    · have hne : n ≠ m := fun e => hname (congrArg Node.name e)
      obtain ⟨k, hk, hkn⟩ := List.mem_map.mp (ih (List.mem_of_ne_of_mem hne h))
      exact .inr (List.mem_map.mpr ⟨k, by simpa [hk, hkn] using hname, hkn⟩)

/-! ### Construction -/

/-- The graph with one more declaration: a node only if its name is new, and the edges always. -/
def add (g : Graph) (d : Declaration) : Graph :=
  ⟨if g.isDeclared d.node.name then g.nodes else g.nodes ++ [d.node], g.edges ++ d.edges⟩

theorem add_of_isDeclared {g : Graph} {d : Declaration} (h : g.isDeclared d.node.name) :
    g.add d = ⟨g.nodes, g.edges ++ d.edges⟩ := by
  rw [add, if_pos h]

theorem add_of_not_isDeclared {g : Graph} {d : Declaration} (h : ¬ g.isDeclared d.node.name) :
    g.add d = ⟨g.nodes ++ [d.node], g.edges ++ d.edges⟩ := by
  rw [add, if_neg h]

theorem isDeclared_append (ns : List Node) (n : Node) (es : List Edge) (name : QualifiedName) :
    (⟨ns ++ [n], es⟩ : Graph).isDeclared name =
      ((ns.any fun m => m.name = name) || decide (n.name = name)) := by
  simp [isDeclared]

/-- What a pass makes of a graph. -/
def result (b : Builder Unit) (g : Graph) : Graph := (b.run g).value.2

theorem result_bind (a : Builder Unit) (f : Unit → Builder Unit) (g : Graph) :
    result (a >>= f) g = result (f ()) (result a g) := rfl

theorem result_forM {α : Type} (l : List α) (f : α → Builder Unit) (g : Graph) :
    result (l.forM f) g = l.foldl (fun g a => result (f a) g) g := by
  induction l generalizing g with
  | nil => rfl
  | cons a l ih => exact ih (result (f a) g)

theorem result_declare (name : QualifiedName) (shape : Shape) (g : Graph) :
    result (declare name shape) g = g.add ⟨⟨name, shape⟩, []⟩ := by
  unfold declare add
  rw [List.append_nil]
  by_cases h : g.isDeclared name
  · show result (if g.isDeclared name then _ else _) g = _
    rw [if_pos h, if_pos h]
    rfl
  · show result (if g.isDeclared name then _ else _) g = _
    rw [if_neg h, if_neg h]
    rfl

theorem result_connect (source target : String) (style : EdgeStyle) (g : Graph) :
    result (connect source target style) g =
      { g with edges := g.edges ++ [⟨source, target, style⟩] } := rfl

theorem result_addMethod (service : QualifiedName) (m : MethodDescriptor) (g : Graph) :
    result (addMethod service m) g = g.add (.ofMethod service m) := by
  unfold addMethod
  simp only [result_bind, result_declare, result_connect, add, Declaration.ofMethod,
    List.append_assoc, List.nil_append, List.cons_append]
  rfl

theorem result_addService (package : QualifiedName) (s : ServiceDescriptor) (g : Graph) :
    result (addService package s) g = (Declaration.ofService package s).foldl add g := by
  unfold addService
  simp only [result_bind, result_declare, result_forM, result_addMethod, Declaration.ofService,
    List.foldl_cons, List.foldl_map]

theorem result_connect_fields (source : String) (fs : List FieldDescriptor) (g : Graph) :
    result (fs.forM fun f => do
      if f.holdsMessage && f.typeName ≠ "" then connect source f.typeName .field) g =
    { g with
      edges := g.edges ++ ((fs.filter fun f => f.holdsMessage && f.typeName ≠ "").map
        fun f => ⟨source, f.typeName, .field⟩) } := by
  induction fs generalizing g with
  | nil =>
    rw [List.filter_nil, List.map_nil, List.append_nil]
    rfl
  | cons f fs ih =>
    rw [List.filter_cons]
    by_cases h : (f.holdsMessage && f.typeName ≠ "") = true
    · show result _ (result (if _ then _ else _) g) = _
      rw [if_pos h, if_pos h, result_connect, ih, List.map_cons, List.append_assoc]
      rfl
    · show result _ (result (if _ then _ else _) g) = _
      rw [if_neg h, if_neg h]
      exact ih g

theorem result_addMessage (name : QualifiedName) (m : MessageDescriptor) (g : Graph) :
    result (addMessage name m) g = g.add (.ofMessage name m) := by
  unfold addMessage
  rw [result_bind, result_declare, result_connect_fields, add, List.append_nil]
  rfl

theorem result_addFile (f : FileDescriptor) (g : Graph) :
    result (addFile f) g = (Declaration.ofFile f).foldl add g := by
  unfold addFile
  rw [FileDescriptor.walk_eq_forM]
  simp only [result_bind, result_forM, result_addService, result_addMessage, Declaration.ofFile,
    List.foldl_append, List.foldl_map, List.foldl_flatMap]
  rfl

/-- Declarations one after the other add the first nodes of the names that are new. -/
theorem foldl_add (ds : List Declaration) (g : Graph) :
    ds.foldl add g =
      ⟨g.nodes ++ (firstNodes (ds.map (·.node))).filter fun n => !g.isDeclared n.name,
        g.edges ++ ds.flatMap (·.edges)⟩ := by
  induction ds generalizing g with
  | nil => simp [firstNodes]
  | cons d ds ih =>
    rw [List.foldl_cons, ih, List.map_cons, firstNodes, List.flatMap_cons, List.filter_cons,
      List.filter_filter]
    by_cases h : g.isDeclared d.node.name
    · have kept : ∀ n : Node, (!g.isDeclared n.name && decide (n.name ≠ d.node.name)) =
          !g.isDeclared n.name := by
        intro n
        by_cases hn : n.name = d.node.name <;> simp [hn, h]
      rw [add_of_isDeclared h, if_neg (by simp [h]), List.append_assoc]
      simp only [kept]
      rfl
    · have grown : ∀ n : Node, (!(g.add d).isDeclared n.name) =
          (!g.isDeclared n.name && decide (n.name ≠ d.node.name)) := by
        intro n
        rw [add_of_not_isDeclared h, isDeclared_append, Bool.not_or]
        congr 1
        simp [eq_comm]
      simp only [grown]
      rw [add_of_not_isDeclared h, if_pos (by simp [h]), List.append_assoc, List.append_assoc]
      rfl

theorem value_ofFiles (fs : List FileDescriptor) :
    (ofFiles fs).value = ofDeclarations (Declaration.ofFiles fs) := by
  have built : result (build fs) empty = (Declaration.ofFiles fs).foldl add empty := by
    show result (fs.forM addFile) empty = _
    simp only [result_forM, result_addFile, Declaration.ofFiles, List.foldl_flatMap]
  have fresh : ∀ ns : List Node, ns.filter (fun n => !empty.isDeclared n.name) = ns :=
    fun ns => List.filter_eq_self.mpr fun _ _ => rfl
  show result (build fs) empty = _
  rw [built, foldl_add, fresh]
  rfl

/-! ### Lines -/

/-- A node as a line of the text, without its end. -/
def nodeText (n : Node) : List Char := quote n.name.text ++ n.shape.suffix

def edgeText (e : Edge) : List Char :=
  quote e.source ++ " -> ".toList ++ quote e.target ++ e.style.suffix

/-- The first line. -/
def head (name : String) : List Char := "digraph ".toList ++ name.toList ++ " \x7b".toList

/-- The lines of the text: the nodes and the edges, each behind an empty line. -/
def lines (name : String) (g : Graph) : List (List Char) :=
  head name :: [] :: g.nodes.map nodeText ++ [] :: g.edges.map edgeText ++ [[], ['}']]

theorem nodeText_append (n : Node) : nodeText n ++ ['\n'] = nodeLine n := by
  unfold nodeText nodeLine Shape.suffix
  simp only [List.append_assoc]
  rfl

theorem edgeText_append (e : Edge) : edgeText e ++ ['\n'] = edgeLine e := rfl

theorem flatMap_nodeText (ns : List Node) :
    (ns.map nodeText).flatMap (· ++ ['\n']) = ns.flatMap nodeLine := by
  rw [List.flatMap_map, funext nodeText_append]

theorem flatMap_edgeText (es : List Edge) :
    (es.map edgeText).flatMap (· ++ ['\n']) = es.flatMap edgeLine := by
  rw [List.flatMap_map, funext edgeText_append]

theorem text_eq_lines (name : String) (g : Graph) :
    g.text name = ['\n'].intercalate (lines name g) := by
  have opening : " \x7b\n\n".toList = " \x7b".toList ++ ['\n'] ++ ['\n'] := rfl
  have closing : "\n\x7d".toList = ['\n'] ++ ['\x7d'] := rfl
  have split : lines name g =
      ([head name] ++ [[]] ++ g.nodes.map nodeText ++ [[]] ++ g.edges.map edgeText ++ [[]]) ++
        [['\x7d']] := by
    simp only [lines, List.append_assoc, List.cons_append, List.nil_append]
  rw [split, intercalate_append_singleton]
  simp only [List.flatMap_append, List.flatMap_singleton, flatMap_nodeText, flatMap_edgeText,
    List.nil_append]
  unfold text head
  simp only [opening, closing, List.append_assoc]

/-- The graph of the files is written line by line: its nodes are the first of each name among the
declarations, in their order, and its edges are those of all declarations. -/
theorem generate_eq_lines (r : Request) (o : Options) :
    let ds := Declaration.ofFiles (o.files r)
    let g := ofDeclarations ds
    (generator.generate r o).value =
        .ok (String.ofList (['\n'].intercalate (lines o.graphName g))) ∧
      (g.nodes.map (·.name)).Nodup ∧ g.nodes.Sublist (ds.map (·.node)) ∧
      (∀ n, n ∈ g.nodes ↔ ∃ before after, ds.map (·.node) = before ++ n :: after ∧
        n.name ∉ before.map (·.name)) ∧
      (∀ d ∈ ds, d.node.name ∈ g.nodes.map (·.name)) ∧
      g.edges = ds.flatMap (·.edges) := by
  refine ⟨?_, nodup_firstNodes _, firstNodes_sublist _, fun n => mem_firstNodes_iff, ?_, rfl⟩
  · show Except.ok (String.ofList ((ofFiles (o.files r)).value.text o.graphName)) = _
    rw [value_ofFiles, text_eq_lines]
  · intro d hd
    exact mem_map_name_firstNodes (List.mem_map_of_mem hd)

end Graph

end SchemaReport
