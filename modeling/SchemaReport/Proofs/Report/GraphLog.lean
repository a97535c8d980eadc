import SchemaReport.Proofs.Report.Counts

/-! The log of the graph. A pass leaves one record for each declaration that it makes: a warning if
the name is there already, and a trace of the node otherwise. So the log accounts for all of the
declarations, and what it says of the graph can be read in the text. -/

namespace SchemaReport

/-- The record of a file whose declarations follow. -/
def FileDescriptor.announced (f : FileDescriptor) : LogRecord :=
  ⟨.debug, .graph, "graph: file " ++ Text.quoted f.name ++ ", package " ++ Text.quoted f.package⟩

/-- The record of a node that is drawn. -/
def Node.drawn (n : Node) : LogRecord :=
  ⟨.trace, .graph, "node " ++ n.name.text ++ " (" ++ n.shape.name ++ ")"⟩

/-- The record of a node whose name is there already. -/
def Node.repeated (n : Node) : LogRecord :=
  ⟨.warn, .graph, n.name.text ++ " is declared more than once, keeping the first"⟩

namespace Graph

/-! ### Passes and what they declare -/

/-- What a declaration leaves in the log if it meets the graph `g`. -/
def Declaration.record (g : Graph) (d : Declaration) : LogRecord :=
  if g.isDeclared d.node.name then d.node.repeated else d.node.drawn

/-- What declarations leave in the log one after the other. -/
def trail : Graph → List Declaration → List LogRecord
  | _, [] => []
  | g, d :: ds => d.record g :: trail (g.add d) ds

theorem trail_append (g : Graph) (ds es : List Declaration) :
    trail g (ds ++ es) = trail g ds ++ trail (ds.foldl add g) es := by
  induction ds generalizing g with
  | nil => rfl
  | cons d ds ih => exact congrArg (d.record g :: ·) (ih (g.add d))

/-- What a pass leaves in the log. -/
def records (b : Builder Unit) (g : Graph) : List LogRecord := (b.run g).log

theorem records_bind (b : Builder Unit) (f : Unit → Builder Unit) (g : Graph) :
    records (b >>= f) g = records b g ++ records (f ()) (result b g) := rfl

/-- The pass makes the declarations `ds` and nothing else. -/
structure Makes (b : Builder Unit) (ds : List Declaration) : Prop where
  graph : ∀ g, result b g = ds.foldl add g
  log : ∀ g, records b g = trail g ds

namespace Makes

variable {b : Builder Unit} {f : Unit → Builder Unit} {ds es : List Declaration}

theorem bind (h : Makes b ds) (h' : Makes (f ()) es) : Makes (b >>= f) (ds ++ es) where
  graph g := by rw [result_bind, h.graph, h'.graph, List.foldl_append]
  log g := by rw [records_bind, h.log, h'.log, h.graph, trail_append]

theorem forM {α : Type} {F : α → Builder Unit} {D : α → List Declaration}
    (h : ∀ a, Makes (F a) (D a)) (l : List α) : Makes (l.forM F) (l.flatMap D) := by
  induction l with
  | nil => exact ⟨fun _ => rfl, fun _ => rfl⟩
  | cons a l ih =>
    rw [List.flatMap_cons]
    exact (h a).bind ih

end Makes

theorem makes_declare (name : QualifiedName) (shape : Shape) :
    Makes (declare name shape) [⟨⟨name, shape⟩, []⟩] where
  graph := result_declare name shape
  log g := by
    show records (declare name shape) g = [if g.isDeclared name then _ else _]
    unfold declare
    by_cases h : g.isDeclared name
    · show records (if g.isDeclared name then _ else _) g = _
      rw [if_pos h, if_pos h]
      rfl
    · show records (if g.isDeclared name then _ else _) g = _
      rw [if_neg h, if_neg h]
      rfl

theorem makes_addMethod (service : QualifiedName) (m : MethodDescriptor) :
    Makes (addMethod service m) [.ofMethod service m] where
  graph := result_addMethod service m
  log g := by
    unfold addMethod
    simp only [records_bind, (makes_declare _ _).log]
    rfl

theorem makes_addService (package : QualifiedName) (s : ServiceDescriptor) :
    Makes (addService package s) (Declaration.ofService package s) := by
  have methods := Makes.forM (makes_addMethod (package.join s.name)) s.methods
  rw [← List.map_eq_flatMap] at methods
  exact (makes_declare _ _).bind methods

theorem records_forM_eq_nil {α : Type} {F : α → Builder Unit} (h : ∀ a g, records (F a) g = [])
    (l : List α) (g : Graph) : records (l.forM F) g = [] := by
  induction l generalizing g with
  | nil => rfl
  | cons a l ih =>
    show records (F a) g ++ records (l.forM F) (result (F a) g) = []
    rw [h, ih, List.append_nil]

theorem makes_addMessage (name : QualifiedName) (d : MessageDescriptor) :
    Makes (addMessage name d) [.ofMessage name d] where
  graph := result_addMessage name d
  log g := by
    have edges : ∀ (f : FieldDescriptor) (g : Graph), records
        (if f.holdsMessage && f.typeName ≠ "" then connect name.text f.typeName .field
          else pure ()) g = [] := by
      intro f g
      split_ifs <;> rfl
    unfold addMessage
    rw [records_bind, (makes_declare _ _).log, records_forM_eq_nil edges]
    rfl

theorem records_addFile (f : FileDescriptor) (g : Graph) :
    records (addFile f) g = f.announced :: trail g (Declaration.ofFile f) := by
  have services := Makes.forM (makes_addService (.ofPackage f.package)) f.services
  have messages := Makes.forM (fun p => makes_addMessage p.1 p.2) f.preorder
  rw [← List.map_eq_flatMap, ← FileDescriptor.walk_eq_forM] at messages
  unfold addFile
  rw [records_bind]
  exact congrArg (f.announced :: ·) ((services.bind messages).log g)

/-! ### What the log accounts for -/

/-- The records of one level. -/
def ofLevel (level : Level) (log : List LogRecord) : List LogRecord :=
  log.filter fun x => x.level = level

theorem ofLevel_append (level : Level) (xs ys : List LogRecord) :
    ofLevel level (xs ++ ys) = ofLevel level xs ++ ofLevel level ys := List.filter_append ..

/-- The log so far accounts for the files and the declarations so far. -/
structure Accounts (fs : List FileDescriptor) (ds : List Declaration) (log : List LogRecord) :
    Prop where
  files : ofLevel .debug log = fs.map FileDescriptor.announced
  warnings : ofLevel .warn log = (repeats (ds.map (·.node))).map Node.repeated
  traces : ofLevel .trace log = (firstNodes (ds.map (·.node))).map Node.drawn

theorem isDeclared_ofDeclarations (ds : List Declaration) (name : QualifiedName) :
    (ofDeclarations ds).isDeclared name ↔ name ∈ (ds.map (·.node)).map (·.name) := by
  simp only [isDeclared, ofDeclarations, List.any_eq_true, decide_eq_true_eq]
  constructor
  · rintro ⟨n, hn, rfl⟩
    exact List.mem_map_of_mem ((firstNodes_sublist _).subset hn)
  · intro h
    obtain ⟨n, hn, rfl⟩ := List.mem_map.mp h
    exact List.mem_map.mp (mem_map_name_firstNodes hn)

theorem add_ofDeclarations (ds : List Declaration) (d : Declaration) :
    (ofDeclarations ds).add d = ofDeclarations (ds ++ [d]) := by
  have old := isDeclared_ofDeclarations ds d.node.name
  have grown : ofDeclarations (ds ++ [d]) =
      ⟨firstNodes (ds.map (·.node) ++ [d.node]), ds.flatMap (·.edges) ++ d.edges⟩ := by
    rw [ofDeclarations, List.map_append, List.map_singleton, List.flatMap_append,
      List.flatMap_singleton]
  rw [grown, firstNodes_concat]
  by_cases h : d.node.name ∈ (ds.map (·.node)).map (·.name)
  · rw [add_of_isDeclared (old.mpr h), if_pos h, List.append_nil]
    rfl
  · rw [add_of_not_isDeclared (mt old.mp h), if_neg h]
    rfl

theorem foldl_add_ofDeclarations (ds es : List Declaration) :
    es.foldl add (ofDeclarations ds) = ofDeclarations (ds ++ es) := by
  induction es generalizing ds with
  | nil => rw [List.append_nil, List.foldl_nil]
  | cons d es ih => rw [List.foldl_cons, add_ofDeclarations, ih, List.append_assoc]; rfl

namespace Accounts

variable {fs : List FileDescriptor} {ds : List Declaration} {log : List LogRecord}

theorem file (h : Accounts fs ds log) (f : FileDescriptor) :
    Accounts (fs ++ [f]) ds (log ++ [f.announced]) where
  files := by rw [ofLevel_append, h.files, List.map_append]; rfl
  warnings := by rw [ofLevel_append, h.warnings]; exact List.append_nil _
  traces := by rw [ofLevel_append, h.traces]; exact List.append_nil _

/-- A declaration that meets the graph of those before it is logged as what it is. -/
theorem declaration (h : Accounts fs ds log) (d : Declaration) :
    Accounts fs (ds ++ [d]) (log ++ [d.record (ofDeclarations ds)]) := by
  have old := isDeclared_ofDeclarations ds d.node.name
  have nodes : (ds ++ [d]).map (·.node) = ds.map (·.node) ++ [d.node] := by
    rw [List.map_append, List.map_singleton]
  by_cases hd : d.node.name ∈ (ds.map (·.node)).map (·.name)
  · have record : d.record (ofDeclarations ds) = d.node.repeated := if_pos (old.mpr hd)
    rw [record]
    constructor
    · rw [ofLevel_append, h.files]
      exact List.append_nil _
    · rw [ofLevel_append, h.warnings, nodes, repeats_concat, if_pos hd, List.map_append]
      rfl
    · rw [ofLevel_append, h.traces, nodes, firstNodes_concat, if_pos hd, List.append_nil]
      exact List.append_nil _
  · have record : d.record (ofDeclarations ds) = d.node.drawn := if_neg (mt old.mp hd)
    rw [record]
    constructor
    · rw [ofLevel_append, h.files]
      exact List.append_nil _
    · rw [ofLevel_append, h.warnings, nodes, repeats_concat, if_neg hd, List.append_nil]
      exact List.append_nil _
    · rw [ofLevel_append, h.traces, nodes, firstNodes_concat, if_neg hd, List.map_append]
      rfl

theorem trail (h : Accounts fs ds log) (es : List Declaration) :
    Accounts fs (ds ++ es) (log ++ (ofDeclarations ds).trail es) := by
  -- the declarations so far determine the graph that the next one meets
  induction es generalizing ds log with
  | nil => simpa [Graph.trail] using h
  | cons d es ih =>
    have rest := ih (h.declaration d)
    rw [← add_ofDeclarations, List.append_assoc, List.append_assoc] at rest
    exact rest

theorem forM_addFile (h : Accounts fs ds log) (gs : List FileDescriptor) :
    Accounts (fs ++ gs) (ds ++ Declaration.ofFiles gs)
      (log ++ records (gs.forM addFile) (ofDeclarations ds)) := by
  induction gs generalizing fs ds log with
  | nil =>
    show Accounts (fs ++ []) (ds ++ []) (log ++ [])
    rwa [List.append_nil, List.append_nil, List.append_nil]
  | cons f gs ih =>
    have first : records ((f :: gs).forM addFile) (ofDeclarations ds) =
        records (addFile f) (ofDeclarations ds) ++
          records (gs.forM addFile) (result (addFile f) (ofDeclarations ds)) := rfl
    have rest := ih ((h.file f).trail (Declaration.ofFile f))
    rw [List.append_assoc, List.append_assoc, List.append_assoc, List.append_assoc] at rest
    rw [first, records_addFile, result_addFile, foldl_add_ofDeclarations]
    exact rest

end Accounts

/-- The record of the size of a graph. -/
def sized (nodes edges : ℕ) : LogRecord :=
  ⟨.debug, .graph, s!"graph: {nodes} nodes, {edges} edges"⟩

theorem log_generate (r : Request) (o : Options) :
    let g := ofDeclarations (Declaration.ofFiles (o.files r))
    (generator.generate r o).log = records ((o.files r).forM addFile) (ofDeclarations []) ++
      [sized g.nodes.length g.edges.length] := by
  have built : records (build (o.files r)) empty =
      records ((o.files r).forM addFile) empty ++
        [sized (ofFiles (o.files r)).value.nodes.length
          (ofFiles (o.files r)).value.edges.length] := rfl
  intro g
  show (records (build (o.files r)) empty ++ []) ++ [] = _
  rw [built, value_ofFiles, List.append_nil, List.append_nil]
  rfl

/-- The log of the graph accounts for every declaration of the files. A warning names each one whose
name was declared before it, and the traces are the nodes of the text in their order, so that nodes
and warnings together are all services, methods and messages. The last record for debugging has the
numbers of the nodes and edges of the text: an edge for each reference of a message, and three for
each method. -/
theorem log_accounts_for_declarations (r : Request) (o : Options) :
    let fs := o.files r
    let log := (generator.generate r o).log
    let methods := (fs.flatMap (·.services)).flatMap (·.methods)
    let messages := fs.flatMap (·.allMessages)
    ∃ body nodes edges,
      (generator.generate r o).value =
        .ok (String.ofList (head o.graphName ++ "\n\n".toList ++ body)) ∧
      readSections body = some (nodes, edges) ∧
      ofLevel .warn log =
        (repeats ((Declaration.ofFiles fs).map (·.node))).map Node.repeated ∧
      nodes.length + (ofLevel .warn log).length =
        (fs.flatMap (·.services)).length + methods.length + messages.length ∧
      ofLevel .trace log = nodes.map (fun n =>
        ⟨.trace, .graph, "node " ++ n.1 ++ " (" ++ n.2.name ++ ")"⟩) ∧
      ofLevel .debug log = fs.map FileDescriptor.announced ++
        [⟨.debug, .graph, s!"graph: {nodes.length} nodes, {edges.length} edges"⟩] ∧
      edges.length = 3 * methods.length + (messages.flatMap (·.references)).length := by
  intro fs log methods messages
  obtain ⟨written, sections⟩ := generate_eq_sections r o
  have none : Accounts [] [] [] := ⟨rfl, rfl, rfl⟩
  have accounts := none.forM_addFile fs
  rw [List.nil_append, List.nil_append, List.nil_append] at accounts
  have counts := Declaration.tally_files fs
  have whole : log = _ := log_generate r o
  have warnings : ofLevel .warn log =
      (repeats ((Declaration.ofFiles fs).map (·.node))).map Node.repeated := by
    rw [whole, ofLevel_append, accounts.warnings]
    exact List.append_nil _
  refine ⟨_, _, _, written, sections, warnings, ?_, ?_, ?_, counts.length_edges⟩
  · rw [warnings, List.length_map, List.length_map, ← counts.declared]
    have all := length_firstNodes_add_length_repeats ((Declaration.ofFiles fs).map (·.node))
    rwa [List.length_map] at all
  · rw [whole, ofLevel_append, accounts.traces, List.map_map]
    exact List.append_nil _
  · rw [whole, ofLevel_append, accounts.files, List.length_map]
    rfl

end Graph

end SchemaReport
