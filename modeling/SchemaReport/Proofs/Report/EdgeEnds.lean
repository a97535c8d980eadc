import SchemaReport.Proofs.Message.Slots
import SchemaReport.Proofs.Report.Graph

/-! Where the edges of the graph end. An edge comes from the node of its own declaration. It leads
to a declared node as well if the references of the request are resolved: they spell in full the
name of a message, from its package and the path to it, and the graph declares the message under the
same name, though it is found there step by step. That a name may be declared more than once does
not matter, since the first declaration gives it a node. -/

namespace SchemaReport

/-- The names of the messages of all files, spelled from the package and the path. -/
def Request.messageNames (r : Request) : List String :=
  r.protoFiles.flatMap fun f => f.paths.map fun x =>
    (QualifiedName.ofSegments f.package x.1).text

/-- The names of messages are segments, and every reference to a type that the graph draws names a
message of the request. -/
structure Request.Resolved (r : Request) : Prop where
  segments : ∀ f ∈ r.protoFiles, ∀ x ∈ f.paths, IsSegment x.2.name
  methods : ∀ f ∈ r.protoFiles, ∀ s ∈ f.services, ∀ m ∈ s.methods,
    m.inputType ∈ r.messageNames ∧ m.outputType ∈ r.messageNames
  fields : ∀ f ∈ r.protoFiles, ∀ x ∈ f.paths, ∀ d ∈ x.2.fields,
    d.holdsMessage ∧ d.typeName ≠ "" → d.typeName ∈ r.messageNames

namespace Graph

/-- The names under which the nodes are written. -/
def names (g : Graph) : List String := g.nodes.map (·.name.text)

namespace Declaration

/-- One of the declarations of the files has the name. -/
def Declares (fs : List FileDescriptor) (name : String) : Prop :=
  ∃ d ∈ ofFiles fs, d.node.name.text = name

/-! ### What is declared -/

variable {fs : List FileDescriptor} {f : FileDescriptor} {s : ServiceDescriptor}

theorem mem_ofFiles_of_service (hf : f ∈ fs) (hs : s ∈ f.services) {d : Declaration}
    (hd : d ∈ ofService (.ofPackage f.package) s) : d ∈ ofFiles fs :=
  List.mem_flatMap_of_mem hf (List.mem_append_left _ (List.mem_flatMap_of_mem hs hd))

theorem declares_service (hf : f ∈ fs) (hs : s ∈ f.services) :
    Declares fs ((QualifiedName.ofPackage f.package).join s.name).text :=
  ⟨_, mem_ofFiles_of_service hf hs List.mem_cons_self, rfl⟩

theorem declares_method (hf : f ∈ fs) (hs : s ∈ f.services) {m : MethodDescriptor}
    (hm : m ∈ s.methods) :
    Declares fs (((QualifiedName.ofPackage f.package).join s.name).join m.name).text :=
  ⟨_, mem_ofFiles_of_service hf hs (List.mem_cons_of_mem _ (List.mem_map_of_mem hm)), rfl⟩

theorem declares_message (hf : f ∈ fs) {name : QualifiedName} {m : MessageDescriptor}
    (hm : (name, m) ∈ f.preorder) : Declares fs name.text :=
  ⟨ofMessage name m,
    List.mem_flatMap_of_mem hf (List.mem_append_right _ (List.mem_map.mpr ⟨_, hm, rfl⟩)), rfl⟩

/-! ### What is drawn -/

/-- An edge is drawn by a method or by a message. -/
theorem mem_edges_ofFiles {e : Edge} (he : e ∈ (ofFiles fs).flatMap (·.edges)) :
    ∃ f ∈ fs,
      (∃ s ∈ f.services, ∃ m ∈ s.methods,
        e ∈ (ofMethod ((QualifiedName.ofPackage f.package).join s.name) m).edges) ∨
      ∃ p ∈ f.preorder, e ∈ (ofMessage p.1 p.2).edges := by
  obtain ⟨d, hd, he⟩ := List.mem_flatMap.mp he
  obtain ⟨f, hf, hd⟩ := List.mem_flatMap.mp hd
  refine ⟨f, hf, ?_⟩
  obtain hd | hd := List.mem_append.mp hd
  · obtain ⟨s, hs, hd⟩ := List.mem_flatMap.mp hd
    obtain rfl | hd := List.mem_cons.mp hd
    · exact absurd he List.not_mem_nil
    · obtain ⟨m, hm, rfl⟩ := List.mem_map.mp hd
      exact .inl ⟨s, hs, m, hm, he⟩
  · obtain ⟨p, hp, rfl⟩ := List.mem_map.mp hd
    exact .inr ⟨p, hp, he⟩

theorem mem_edges_ofMethod {service : QualifiedName} {m : MethodDescriptor} {e : Edge} :
    e ∈ (ofMethod service m).edges ↔
      e = ⟨service.text, (service.join m.name).text, .method⟩ ∨
        e = ⟨(service.join m.name).text, m.inputType, .input⟩ ∨
        e = ⟨(service.join m.name).text, m.outputType, .output⟩ := by
  simp only [ofMethod, List.mem_cons, List.not_mem_nil, or_false]

theorem mem_edges_ofMessage {name : QualifiedName} {m : MessageDescriptor} {e : Edge} :
    e ∈ (ofMessage name m).edges ↔ ∃ d ∈ m.fields, (d.holdsMessage ∧ d.typeName ≠ "") ∧
      e = ⟨name.text, d.typeName, .field⟩ := by
  simp only [ofMessage, List.mem_map, List.mem_filter, Bool.and_eq_true, decide_eq_true_eq,
    and_assoc, @eq_comm _ e]

theorem declares_source {e : Edge} (he : e ∈ (ofFiles fs).flatMap (·.edges)) :
    Declares fs e.source := by
  obtain ⟨f, hf, ⟨s, hs, m, hm, he⟩ | ⟨p, hp, he⟩⟩ := mem_edges_ofFiles he
  · obtain rfl | rfl | rfl := mem_edges_ofMethod.mp he <;> dsimp only
    · exact declares_service hf hs
    · exact declares_method hf hs hm
    · exact declares_method hf hs hm
  · obtain ⟨d, -, -, rfl⟩ := mem_edges_ofMessage.mp he
    exact declares_message hf hp

/-! ### References -/

/-- A message is declared under the name that its path spells. -/
theorem preorder_eq_of_segments (h : ∀ x ∈ f.paths, IsSegment x.2.name) :
    f.preorder = f.paths.map fun x => (.ofSegments f.package x.1, x.2) := by
  rw [f.preorder_eq_map_paths]
  refine List.map_congr_left fun x hx => ?_
  rw [QualifiedName.foldl_join_eq_ofSegments]
  intro s hs
  obtain ⟨y, hy, rfl⟩ := FileDescriptor.exists_name_of_mem_path hx hs
  exact h y hy

variable {r : Request}

theorem declares_of_mem_messageNames (h : r.Resolved) {name : String}
    (hn : name ∈ r.messageNames) : Declares r.protoFiles name := by
  obtain ⟨f, hf, hn⟩ := List.mem_flatMap.mp hn
  obtain ⟨x, hx, rfl⟩ := List.mem_map.mp hn
  have visited : (QualifiedName.ofSegments f.package x.1, x.2) ∈ f.preorder := by
    rw [preorder_eq_of_segments (h.segments f hf)]
    exact List.mem_map_of_mem hx
  exact declares_message hf visited

theorem declares_target (h : r.Resolved) {e : Edge}
    (he : e ∈ (ofFiles r.protoFiles).flatMap (·.edges)) : Declares r.protoFiles e.target := by
  obtain ⟨f, hf, ⟨s, hs, m, hm, he⟩ | ⟨p, hp, he⟩⟩ := mem_edges_ofFiles he
  · have references := h.methods f hf s hs m hm
    obtain rfl | rfl | rfl := mem_edges_ofMethod.mp he <;> dsimp only
    · exact declares_method hf hs hm
    · exact declares_of_mem_messageNames h references.1
    · exact declares_of_mem_messageNames h references.2
  · rw [preorder_eq_of_segments (h.segments f hf)] at hp
    obtain ⟨x, hx, rfl⟩ := List.mem_map.mp hp
    obtain ⟨d, hd, drawn, rfl⟩ := mem_edges_ofMessage.mp he
    exact declares_of_mem_messageNames h (h.fields f hf x hx d hd drawn)

end Declaration

theorem mem_names_of_declares {fs : List FileDescriptor} {name : String}
    (h : Declaration.Declares fs name) : name ∈ (ofFiles fs).value.names := by
  obtain ⟨d, hd, rfl⟩ := h
  obtain ⟨n, hn, hname⟩ := List.mem_map.mp (mem_map_name_firstNodes (List.mem_map_of_mem hd))
  rw [value_ofFiles]
  exact List.mem_map.mpr ⟨n, hn, congrArg QualifiedName.text hname⟩

/-- In the graph that is written, every edge comes from a declared node. If the graph is about all
files of a request whose references are resolved, every edge leads to a declared node, too. -/
theorem edges_between_declared_nodes (r : Request) (o : Options) :
    let g := (ofFiles (o.files r)).value
    (generator.generate r o).value = .ok (String.ofList (g.text o.graphName)) ∧
      (∀ e ∈ g.edges, e.source ∈ g.names) ∧
      (o.scope = .all → r.Resolved → ∀ e ∈ g.edges, e.target ∈ g.names) := by
  refine ⟨rfl, fun e he => ?_, fun all h e he => ?_⟩
  · rw [value_ofFiles] at he
    exact mem_names_of_declares (Declaration.declares_source he)
  · have files : o.files r = r.protoFiles := by
      rw [Options.files, all]
    rw [files, value_ofFiles] at he
    rw [files]
    exact mem_names_of_declares (Declaration.declares_target h he)

/-- A message with the field types that are given and the messages nested in it. -/
def messageOf (name : String) (types : List String) (nested : List MessageDescriptor) :
    MessageDescriptor :=
  let fields := types.map fun type => ((Message.empty .field).put
    (.optional 5 "type" "type" (.enum .fieldType)) (.optional (some 11))).put
    (.optional 6 "type_name" "typeName" .string) (.optional (some type))
  (((Message.empty .message).put (.optional 1 "name" "name" .string) (.optional (some name))).put
    (.messages 2 "field" "field" .field) (.messages (.ofList fields))).put
    (.messages 3 "nested_type" "nestedType" .message) (.messages (.ofList nested))

/-- A method from one message to the one around it, both in a package with dots too many. A second
file declares the outer message again, and nothing in it. -/
def dotted : Request :=
  let method : MethodDescriptor :=
    (((Message.empty .method).put (.optional 1 "name" "name" .string) (.optional (some "Get"))).put
      (.optional 2 "input_type" "inputType" .string) (.optional (some ".a.b.Outer.Inner"))).put
      (.optional 3 "output_type" "outputType" .string) (.optional (some ".a.b.Outer"))
  let service : ServiceDescriptor :=
    ((Message.empty .service).put (.optional 1 "name" "name" .string)
      (.optional (some "Store"))).put
      (.messages 2 "method" "method" .method) (.messages (.ofList [method]))
  let file (package : String) (services : List ServiceDescriptor)
      (messages : List MessageDescriptor) : FileDescriptor :=
    (((Message.empty .file).put (.optional 2 "package" "package" .string)
      (.optional (some package))).put
      (.messages 4 "message_type" "messageType" .message) (.messages (.ofList messages))).put
      (.messages 6 "service" "service" .service) (.messages (.ofList services))
  (Message.empty .request).put (.messages 15 "proto_file" "protoFile" .file)
    (.messages (.ofList [
      file "a.b" [] [messageOf "Outer" [] []],
      file ".a..b" [service] [messageOf "Outer" [".a.b.Outer.Inner"]
        [messageOf "Inner" [".a.b.Outer", ""] []]]]))

/-- The references are met although the package spells differently in the two files, and although
the outer message is a node of the first file and draws its edge in the second. -/
theorem edges_between_declared_nodes_dotted :
    Options.standard.scope = .all ∧ dotted.Resolved ∧
      (ofFiles (Options.standard.files dotted)).value.edges = [
        ⟨".a.b.Store", ".a.b.Store.Get", .method⟩,
        ⟨".a.b.Store.Get", ".a.b.Outer.Inner", .input⟩,
        ⟨".a.b.Store.Get", ".a.b.Outer", .output⟩,
        ⟨".a.b.Outer", ".a.b.Outer.Inner", .field⟩,
        ⟨".a.b.Outer.Inner", ".a.b.Outer", .field⟩] ∧
      ".a.b.Outer" ∈ (ofFiles (Options.standard.files dotted)).value.names ∧
      ".a.b.Outer.Inner" ∈ (ofFiles (Options.standard.files dotted)).value.names := by
  have resolved : dotted.Resolved :=
    ⟨by decide +kernel, by decide +kernel, by decide +kernel⟩
  have edges : (ofFiles (Options.standard.files dotted)).value.edges = [
      ⟨".a.b.Store", ".a.b.Store.Get", .method⟩,
      ⟨".a.b.Store.Get", ".a.b.Outer.Inner", .input⟩,
      ⟨".a.b.Store.Get", ".a.b.Outer", .output⟩,
      ⟨".a.b.Outer", ".a.b.Outer.Inner", .field⟩,
      ⟨".a.b.Outer.Inner", ".a.b.Outer", .field⟩] := by
    decide +kernel
  obtain ⟨-, -, targets⟩ := edges_between_declared_nodes dotted .standard
  have target := targets rfl resolved
  rw [edges] at target
  refine ⟨rfl, resolved, edges, ?_, ?_⟩
  · exact target ⟨".a.b.Outer.Inner", ".a.b.Outer", .field⟩ (by simp)
  · exact target ⟨".a.b.Outer", ".a.b.Outer.Inner", .field⟩ (by simp)

end Graph

end SchemaReport
