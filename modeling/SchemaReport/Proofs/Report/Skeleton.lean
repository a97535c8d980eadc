import SchemaReport.Message.Equality
import SchemaReport.Proofs.Message.Slots
import SchemaReport.Proofs.Walk
import SchemaReport.Report.Graph
import SchemaReport.Report.Stats

/-! The skeleton of a file: what the statistics and the graph can see of it. These are the names of
its services, methods and messages, how the messages are nested, and of each field the message type
that it names, if any. Options, numbers, labels, comments and all the rest make no difference, and
neither does whether an empty text is given or left out. -/

namespace SchemaReport

structure MethodSkeleton where
  name : String
  inputType : String
  outputType : String

structure ServiceSkeleton where
  name : String
  methods : List MethodSkeleton

/-- A message by its name, the message types that its fields name, and the messages nested in it. A
field of another type is there, but nothing is known of it. -/
inductive MessageSkeleton
  | of (name : String) (fields : List (Option String)) (nested : List MessageSkeleton)

structure FileSkeleton where
  name : String
  package : String
  services : List ServiceSkeleton
  messages : List MessageSkeleton

def MethodDescriptor.skeleton (m : MethodDescriptor) : MethodSkeleton :=
  ⟨m.name, m.inputType, m.outputType⟩

def ServiceDescriptor.skeleton (s : ServiceDescriptor) : ServiceSkeleton :=
  ⟨s.name, s.methods.map MethodDescriptor.skeleton⟩

def FieldDescriptor.skeleton (f : FieldDescriptor) : Option String :=
  if f.holdsMessage then some f.typeName else none

def MessageDescriptor.skeleton (d : MessageDescriptor) : MessageSkeleton :=
  .of d.name (d.fields.map FieldDescriptor.skeleton)
    (d.nested.attach.map fun c => c.val.skeleton)
termination_by sizeOf d
decreasing_by exact MessageDescriptor.sizeOf_lt_of_mem_nested c.property

def FileDescriptor.skeleton (f : FileDescriptor) : FileSkeleton :=
  ⟨f.name, f.package, f.services.map ServiceDescriptor.skeleton,
    f.messages.map MessageDescriptor.skeleton⟩

theorem MessageDescriptor.skeleton_eq (d : MessageDescriptor) :
    d.skeleton = .of d.name (d.fields.map FieldDescriptor.skeleton) (d.nested.map skeleton) := by
  rw [skeleton, List.map_subtype fun _ _ => rfl, List.unattach_attach]

/-! ### Loops that see a part of each element -/

section

variable {α β γ : Type} {m : Type → Type} [Monad m] {part : α → β}

theorem foldl_of_map_eq {f : γ → α → γ} (hf : ∀ c a b, part a = part b → f c a = f c b)
    {l l' : List α} (h : l.map part = l'.map part) (c : γ) : l.foldl f c = l'.foldl f c := by
  induction l generalizing l' c with
  | nil =>
    obtain rfl : l' = [] := List.map_eq_nil_iff.mp h.symm
    rfl
  | cons a l ih =>
    obtain ⟨b, l', rfl, head, rest⟩ := List.map_eq_cons_iff.mp h.symm
    rw [List.foldl_cons, List.foldl_cons, hf c a b head.symm, ih rest.symm]

theorem forM_of_map_eq {f f' : α → m Unit} {l l' : List α} (h : l.map part = l'.map part)
    (hf : ∀ a ∈ l, ∀ b, part a = part b → f a = f' b) : l.forM f = l'.forM f' := by
  induction l generalizing l' with
  | nil =>
    obtain rfl : l' = [] := List.map_eq_nil_iff.mp h.symm
    rfl
  | cons a l ih =>
    obtain ⟨b, l', rfl, head, rest⟩ := List.map_eq_cons_iff.mp h.symm
    have later := ih rest.symm fun a ha => hf a (List.mem_cons_of_mem _ ha)
    simp only [List.forM_eq_forM, List.forM_cons] at later ⊢
    rw [hf a List.mem_cons_self b head.symm, later]

end

/-! ### The walk -/

section

variable {m : Type → Type} [Monad m]
  {visit : QualifiedName → MessageDescriptor → m Unit}
  (hv : ∀ name d d', MessageDescriptor.skeleton d = d'.skeleton → visit name d = visit name d')

include hv

/-- A walk whose visits see skeletons only sees nothing else either. -/
theorem MessageDescriptor.walk_of_skeleton_eq {d d' : MessageDescriptor}
    (h : d.skeleton = d'.skeleton) (scope : QualifiedName) :
    d.walk visit scope = d'.walk visit scope := by
  induction d using nested_induction generalizing d' scope with
  | step d ih =>
    have parts := h
    rw [skeleton_eq, skeleton_eq, MessageSkeleton.of.injEq] at parts
    obtain ⟨name, -, nested⟩ := parts
    rw [walk_eq, walk_eq, name, hv _ d d' h, forM_of_map_eq nested fun c hc c' hcc' => ?_]
    exact ih c hc hcc' _

theorem FileDescriptor.walk_of_skeleton_eq {f f' : FileDescriptor} (h : f.skeleton = f'.skeleton) :
    f.walk visit = f'.walk visit := by
  obtain ⟨-, package, -, messages⟩ := FileSkeleton.mk.inj h
  rw [walk, walk, package]
  exact forM_of_map_eq messages fun d _ d' hd => MessageDescriptor.walk_of_skeleton_eq hv hd _

end

/-! ### The statistics -/

theorem ServiceDescriptor.length_methods {s s' : ServiceDescriptor} (h : s.skeleton = s'.skeleton) :
    s.methods.length = s'.methods.length := by
  have methods := congrArg List.length (ServiceSkeleton.mk.inj h).2
  rwa [List.length_map, List.length_map] at methods

theorem MessageDescriptor.length_fields {d d' : MessageDescriptor} (h : d.skeleton = d'.skeleton) :
    d.fields.length = d'.fields.length := by
  rw [skeleton_eq, skeleton_eq, MessageSkeleton.of.injEq] at h
  have fields := congrArg List.length h.2.1
  rwa [List.length_map, List.length_map] at fields

namespace Stats

theorem addFile_of_skeleton_eq (s : Stats) (f f' : FileDescriptor)
    (h : f.skeleton = f'.skeleton) : s.addFile f = s.addFile f' := by
  obtain ⟨-, -, services, messages⟩ := FileSkeleton.mk.inj h
  have addService : ∀ (s : Stats) (d d' : ServiceDescriptor), d.skeleton = d'.skeleton →
      s.addService d = s.addService d' := by
    intro s d d' hd
    rw [Stats.addService, Stats.addService, ServiceDescriptor.length_methods hd]
  have addMessage : ∀ (s : Stats) (d d' : MessageDescriptor), d.skeleton = d'.skeleton →
      s.addMessage d = s.addMessage d' := by
    intro s d d' hd
    rw [Stats.addMessage, Stats.addMessage, MessageDescriptor.length_fields hd]
  rw [addFile, addFile, foldl_of_map_eq addService services, foldl_of_map_eq addMessage messages]

theorem ofFiles_of_skeletons_eq {fs fs' : List FileDescriptor}
    (h : fs.map FileDescriptor.skeleton = fs'.map FileDescriptor.skeleton) :
    ofFiles fs = ofFiles fs' :=
  foldl_of_map_eq addFile_of_skeleton_eq h zero

end Stats

/-! ### The graph -/

namespace Graph

theorem addMethod_of_skeleton_eq (service : QualifiedName) {m m' : MethodDescriptor}
    (h : m.skeleton = m'.skeleton) : addMethod service m = addMethod service m' := by
  obtain ⟨name, input, output⟩ := MethodSkeleton.mk.inj h
  rw [addMethod, addMethod, name, input, output]

theorem addService_of_skeleton_eq (package : QualifiedName) {s s' : ServiceDescriptor}
    (h : s.skeleton = s'.skeleton) : addService package s = addService package s' := by
  obtain ⟨name, methods⟩ := ServiceSkeleton.mk.inj h
  rw [addService, addService, name]
  rw [forM_of_map_eq methods fun m _ m' hm => addMethod_of_skeleton_eq _ hm]

/-- The edge of a field, if it names a message. -/
theorem connect_of_skeleton_eq (source : String) {f f' : FieldDescriptor}
    (h : f.skeleton = f'.skeleton) :
    (if f.holdsMessage && f.typeName ≠ "" then connect source f.typeName .field else pure ()) =
      if f'.holdsMessage && f'.typeName ≠ "" then connect source f'.typeName .field
      else pure () := by
  unfold FieldDescriptor.skeleton at h
  by_cases hf : f.holdsMessage <;> by_cases hf' : f'.holdsMessage <;>
    simp only [hf, hf', Bool.false_eq_true, if_true, if_false, reduceCtorEq, Option.some.injEq] at h
  · rw [hf, hf', h]
  · simp only [hf, hf', Bool.false_and, Bool.false_eq_true, if_false]

theorem addMessage_of_skeleton_eq (name : QualifiedName) (d d' : MessageDescriptor)
    (h : d.skeleton = d'.skeleton) : addMessage name d = addMessage name d' := by
  rw [MessageDescriptor.skeleton_eq, MessageDescriptor.skeleton_eq, MessageSkeleton.of.injEq] at h
  rw [addMessage, addMessage]
  rw [forM_of_map_eq h.2.1 fun f _ f' hf => connect_of_skeleton_eq _ hf]

theorem addFile_of_skeleton_eq {f f' : FileDescriptor} (h : f.skeleton = f'.skeleton) :
    addFile f = addFile f' := by
  obtain ⟨name, package, services, -⟩ := FileSkeleton.mk.inj h
  rw [addFile, addFile, FileDescriptor.walk_of_skeleton_eq addMessage_of_skeleton_eq h, name,
    package, forM_of_map_eq services fun s _ s' hs => addService_of_skeleton_eq _ hs]

theorem ofFiles_of_skeletons_eq {fs fs' : List FileDescriptor}
    (h : fs.map FileDescriptor.skeleton = fs'.map FileDescriptor.skeleton) :
    ofFiles fs = ofFiles fs' := by
  rw [ofFiles, ofFiles, build, build, forM_of_map_eq h fun f _ f' hf => addFile_of_skeleton_eq hf]

end Graph

/-! ### Requests -/

/-- The same files are selected, as far as their skeletons go. -/
theorem Options.files_of_skeletons_eq {r r' : Request}
    (listed : r.filesToGenerate = r'.filesToGenerate)
    (files : r.protoFiles.map FileDescriptor.skeleton = r'.protoFiles.map FileDescriptor.skeleton)
    (o : Options) : (o.files r).map FileDescriptor.skeleton =
      (o.files r').map FileDescriptor.skeleton := by
  unfold Options.files
  cases o.scope with
  | all => exact files
  | generate =>
    have selected : ∀ fs : List FileDescriptor,
        (fs.filter fun f => r'.filesToGenerate.contains f.name).map FileDescriptor.skeleton =
          (fs.map FileDescriptor.skeleton).filter fun s => r'.filesToGenerate.contains s.name := by
      intro fs
      rw [List.filter_map]
      rfl
    simp only [listed, selected, files]

/-- Requests with the same list of files to generate and the same skeletons of files, in their
order, have the same statistics and the same graph under all options. -/
theorem reports_of_skeletons {r r' : Request}
    (listed : r.filesToGenerate = r'.filesToGenerate)
    (files : r.protoFiles.map FileDescriptor.skeleton = r'.protoFiles.map FileDescriptor.skeleton)
    (o : Options) : ∀ g ∈ [Stats.generator, Graph.generator], g.generate r o = g.generate r' o := by
  have selected := Options.files_of_skeletons_eq listed files o
  intro g hg
  obtain rfl | rfl : g = Stats.generator ∨ g = Graph.generator := by simpa using hg
  · simp only [Stats.generator, Stats.ofFiles_of_skeletons_eq selected]
  · simp only [Graph.generator, Graph.ofFiles_of_skeletons_eq selected]

/-! A message in another one, with a field that names its type and one that does not. What is no part
of the skeleton is given in the request if `dressed`, and left out otherwise. -/

def given {s : Scalar} (dressed : Bool) (v : s.Value) : Slot (.optional s) :=
  .optional (if dressed then some v else none)

def referringField : FieldDescriptor :=
  ((Message.empty .field).put (.optional 5 "type" "type" (.enum .fieldType))
    (.optional (some (11 : Int32)))).put (.optional 6 "type_name" "typeName" .string)
    (.optional (some ".Outer"))

/-- A type that is not declared reads like one that is left out, and its name is not looked at. -/
def unknownField (dressed : Bool) : FieldDescriptor :=
  ((Message.empty .field).put (.optional 5 "type" "type" (.enum .fieldType))
    (given (s := .enum .fieldType) dressed (99 : Int32))).put
    (.optional 6 "type_name" "typeName" .string) (given (s := .string) dressed ".Gone")

def innerMessage (dressed : Bool) : MessageDescriptor :=
  ((Message.empty .message).put (.optional 1 "name" "name" .string)
    (.optional (some "Inner"))).put (.messages 2 "field" "field" .field)
    (.messages (.ofList [referringField, unknownField dressed]))

def outerMessage (dressed : Bool) : MessageDescriptor :=
  (((Message.empty .message).put (.optional 1 "name" "name" .string)
    (.optional (some "Outer"))).put (.messages 3 "nested_type" "nestedType" .message)
    (.messages (.ofList [innerMessage dressed]))).put
    (.repeated 10 "reserved_name" "reservedName" .string) (.repeated (if dressed then ["old"] else []))

def fileOfOuter (dressed : Bool) : FileDescriptor :=
  (((Message.empty .file).put (.optional 2 "package" "package" .string)
    (given (s := .string) dressed "")).put (.optional 12 "syntax" "syntax" .string)
    (given (s := .string) dressed "proto3")).put (.messages 4 "message_type" "messageType" .message)
    (.messages (.ofList [outerMessage dressed]))

def requestOfOuter (dressed : Bool) : Request :=
  (Message.empty .request).put (.messages 15 "proto_file" "protoFile" .file)
    (.messages (.ofList [fileOfOuter dressed]))

theorem skeleton_innerMessage (dressed : Bool) :
    (innerMessage dressed).skeleton = .of "Inner" [some ".Outer", none] [] := by
  have fields : (innerMessage dressed).fields = [referringField, unknownField dressed] := rfl
  have named : referringField.skeleton = some ".Outer" := rfl
  have unnamed : (unknownField dressed).skeleton = none := by cases dressed <;> rfl
  rw [MessageDescriptor.skeleton_eq, fields, List.map_cons, List.map_cons, named, unnamed]
  rfl

theorem skeleton_fileOfOuter (dressed : Bool) : (fileOfOuter dressed).skeleton =
    ⟨"", "", [], [.of "Outer" [] [.of "Inner" [some ".Outer", none] []]]⟩ := by
  have messages : (fileOfOuter dressed).messages = [outerMessage dressed] := rfl
  have nested : (outerMessage dressed).nested = [innerMessage dressed] := rfl
  rw [FileDescriptor.skeleton, messages, List.map_cons, MessageDescriptor.skeleton_eq, nested,
    List.map_cons, skeleton_innerMessage]
  cases dressed <;> rfl

theorem reports_of_requestOfOuter :
    (requestOfOuter true).filesToGenerate = (requestOfOuter false).filesToGenerate ∧
      (requestOfOuter true).protoFiles.map FileDescriptor.skeleton =
        (requestOfOuter false).protoFiles.map FileDescriptor.skeleton ∧
      (requestOfOuter true).same (requestOfOuter false) = false ∧
      ∀ g ∈ [Stats.generator, Graph.generator],
        g.generate (requestOfOuter true) .standard = g.generate (requestOfOuter false) .standard := by
  have listed (dressed : Bool) : (requestOfOuter dressed).filesToGenerate = [] := rfl
  have protoFiles (dressed : Bool) : (requestOfOuter dressed).protoFiles = [fileOfOuter dressed] :=
    rfl
  have listed : (requestOfOuter true).filesToGenerate = (requestOfOuter false).filesToGenerate :=
    (listed true).trans (listed false).symm
  have files : (requestOfOuter true).protoFiles.map FileDescriptor.skeleton =
      (requestOfOuter false).protoFiles.map FileDescriptor.skeleton := by
    rw [protoFiles, protoFiles, List.map_cons, List.map_cons, skeleton_fileOfOuter,
      skeleton_fileOfOuter]
  exact ⟨listed, files, by decide, reports_of_skeletons listed files .standard⟩

end SchemaReport
