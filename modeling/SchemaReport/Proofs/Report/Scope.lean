import SchemaReport.Proofs.Message.Slots
import SchemaReport.Proofs.Report.Stats
import SchemaReport.Report.Dump
import SchemaReport.Report.Graph

/-! The scope of the reports. The statistics and the graph see nothing of a request but the files
that the options select, so the narrow scope is the wide one on a request that has only the listed
files. The order of the list and repetitions in it do not matter. The dump sees no scope at all. -/

namespace SchemaReport

namespace Record

variable {fs : List Field} {f : Field}

theorem slot_put (r : Record fs) (h : kindOf? fs f.number = some f.kind) (s : Slot f.kind) :
    (r.put f s).slot f.number h = s := by
  rw [put, dif_pos h, slot_setSlot]

theorem slot_put_of_ne {k : Kind} {n : ℕ} (r : Record fs) (h : kindOf? fs n = some k)
    (s : Slot f.kind) (hne : n ≠ f.number) : (r.put f s).slot n h = r.slot n h := by
  by_cases hf : kindOf? fs f.number = some f.kind
  · rw [put, dif_pos hf, slot_setSlot_of_ne _ _ _ _ hne]
  · rw [put, dif_neg hf]

end Record

namespace Request

/-! ### Requests with other files -/

/-- The request with other files, and everything else as it is. -/
def withFiles (r : Request) (fs : List FileDescriptor) : Request :=
  r.put (.messages 15 "proto_file" "protoFile" .file) (.messages (.ofList fs))

/-- The request with another list of files to generate, and everything else as it is. -/
def withFilesToGenerate (r : Request) (names : List String) : Request :=
  r.put (.repeated 1 "file_to_generate" "fileToGenerate" .string) (.repeated names)

@[simp] theorem protoFiles_withFiles (r : Request) (fs : List FileDescriptor) :
    (r.withFiles fs).protoFiles = fs := by
  have slot : (r.withFiles fs).slot 15 rfl = .messages (.ofList fs) := Record.slot_put r rfl _
  exact (congrArg Slot.toList slot).trans (Messages.toList_ofList fs)

@[simp] theorem filesToGenerate_withFilesToGenerate (r : Request) (names : List String) :
    (r.withFilesToGenerate names).filesToGenerate = names := by
  have slot : (r.withFilesToGenerate names).slot (k := .repeated .string false) 1 rfl =
      .repeated names := Record.slot_put r rfl _
  exact congrArg Slot.values slot

@[simp] theorem protoFiles_withFilesToGenerate (r : Request) (names : List String) :
    (r.withFilesToGenerate names).protoFiles = r.protoFiles := by
  have slot : (r.withFilesToGenerate names).slot (k := .messages .file) 15 rfl = r.slot 15 rfl :=
    Record.slot_put_of_ne r rfl _ (by decide)
  exact congrArg Slot.toList slot

/-! ### Listed files -/

/-- The file is to be generated. An unset name reads as the empty text. -/
def Lists (r : Request) (f : FileDescriptor) : Prop := f.name?.getD "" ∈ r.filesToGenerate

instance (r : Request) (f : FileDescriptor) : Decidable (r.Lists f) :=
  inferInstanceAs (Decidable (_ ∈ r.filesToGenerate))

/-- The files that are to be generated, in the order of the request. -/
def listedFiles (r : Request) : List FileDescriptor := r.protoFiles.filter fun f => r.Lists f

theorem listedFiles_sublist (r : Request) : r.listedFiles.Sublist r.protoFiles :=
  List.filter_sublist

theorem listedFiles_eq_protoFiles {r : Request} (h : ∀ f ∈ r.protoFiles, r.Lists f) :
    r.listedFiles = r.protoFiles :=
  List.filter_eq_self.mpr fun f hf => decide_eq_true (h f hf)

/-- Only membership in the list counts. -/
theorem listedFiles_withFilesToGenerate {r : Request} {names : List String}
    (h : ∀ n, n ∈ names ↔ n ∈ r.filesToGenerate) :
    (r.withFilesToGenerate names).listedFiles = r.listedFiles := by
  have same : ∀ f, (r.withFilesToGenerate names).Lists f ↔ r.Lists f := by
    intro f
    rw [Lists, filesToGenerate_withFilesToGenerate]
    exact h _
  rw [listedFiles, protoFiles_withFilesToGenerate]
  exact List.filter_congr fun f _ => decide_eq_decide.mpr (same f)

end Request

namespace Options

variable {o : Options} {r : Request}

theorem files_of_all (h : o.scope = .all) : o.files r = r.protoFiles := by
  rw [files, h]

theorem files_of_generate (h : o.scope = .generate) : o.files r = r.listedFiles := by
  rw [files, h]
  refine List.filter_congr fun f _ => ?_
  rw [Bool.eq_iff_iff, List.contains_iff_mem, decide_eq_true_iff]
  exact Iff.rfl

end Options

/-- A generator that sees nothing of a request but the selected files, and nothing of the options
but the selection and the name of the graph. -/
def Generator.SeesFiles (g : Generator) : Prop :=
  ∀ ⦃r r' : Request⦄ ⦃o o' : Options⦄, o.files r = o'.files r' → o.graphName = o'.graphName →
    g.generate r o = g.generate r' o'

theorem Stats.seesFiles : Stats.generator.SeesFiles := by
  intro r r' o o' files _
  simp only [Stats.generator, files]

theorem Graph.seesFiles : Graph.generator.SeesFiles := by
  intro r r' o o' files name
  simp only [Graph.generator, files, name]

/-- Under the narrow scope, the statistics and the graph of a request are those of the request with
the listed files alone under the wide scope. They stay the same for every list with these members,
and nothing is lost if all files are listed. No counter is above the one of the wide scope, and the
dump is the same. -/
theorem reports_of_scope (r : Request) (o : Options) (h : o.scope = .generate) :
    let wide := { o with scope := .all }
    (∀ g ∈ [Stats.generator, Graph.generator],
      g.generate r o = g.generate (r.withFiles r.listedFiles) wide ∧
      (∀ names, (∀ n, n ∈ names ↔ n ∈ r.filesToGenerate) →
        g.generate (r.withFilesToGenerate names) o = g.generate r o) ∧
      ((∀ f ∈ r.protoFiles, r.Lists f) → g.generate r o = g.generate r wide)) ∧
    (Stats.ofFiles (o.files r)).IsWithin (Stats.ofFiles (wide.files r)) ∧
    Dump.generator.generate r o = Dump.generator.generate r wide := by
  intro wide
  have narrow : ∀ r : Request, o.files r = r.listedFiles := fun _ => Options.files_of_generate h
  have all : ∀ r : Request, wide.files r = r.protoFiles := fun _ => Options.files_of_all rfl
  refine ⟨fun g hg => ?_, ?_, rfl⟩
  · have sees : g.SeesFiles := by
      obtain rfl | rfl : g = Stats.generator ∨ g = Graph.generator := by simpa using hg
      · exact Stats.seesFiles
      · exact Graph.seesFiles
    refine ⟨sees ?_ rfl, fun names same => sees ?_ rfl, fun listed => sees ?_ rfl⟩
    · rw [narrow, all, Request.protoFiles_withFiles]
    · rw [narrow, narrow, Request.listedFiles_withFilesToGenerate same]
    · rw [narrow, all, Request.listedFiles_eq_protoFiles listed]
  · rw [narrow, all]
    exact Stats.ofFiles_isWithin r.listedFiles_sublist

/-- Three files, each with one message, of which the list names two. One of these has no name. -/
def partlyListed : Request :=
  let file (name : Option String) (message : String) : FileDescriptor :=
    let message : MessageDescriptor :=
      (Message.empty .message).put (.optional 1 "name" "name" .string) (.optional (some message))
    ((Message.empty .file).put (.optional 1 "name" "name" .string) (.optional name)).put
      (.messages 4 "message_type" "messageType" .message) (.messages (.ofList [message]))
  let request : Request := Message.empty .request
  (request.withFilesToGenerate ["b.proto", ""]).withFiles
    [file none "A", file (some "c.proto") "C", file (some "b.proto") "B"]

theorem reports_of_partlyListed :
    let o := { Options.standard with scope := .generate }
    let wide := { o with scope := .all }
    let names := ["", "b.proto", ""]
    let listed := partlyListed.withFiles partlyListed.listedFiles
    o.scope = .generate ∧ (∀ n, n ∈ names ↔ n ∈ partlyListed.filesToGenerate) ∧
      (∀ f ∈ listed.protoFiles, listed.Lists f) ∧
      Graph.generator.generate partlyListed o = Graph.generator.generate listed wide ∧
      Stats.generator.generate (partlyListed.withFilesToGenerate names) o =
        Stats.generator.generate partlyListed o ∧
      Graph.generator.generate listed o = Graph.generator.generate listed wide ∧
      (o.files partlyListed).map (·.name) = ["", "b.proto"] := by
  intro o wide names listed
  have same : ∀ n, n ∈ names ↔ n ∈ partlyListed.filesToGenerate := by
    have list : partlyListed.filesToGenerate = ["b.proto", ""] := by decide +kernel
    intro n
    rw [list]
    simp [names, or_comm]
  have all : ∀ f ∈ listed.protoFiles, listed.Lists f := by decide +kernel
  obtain ⟨part, -⟩ := reports_of_scope partlyListed o rfl
  obtain ⟨whole, -⟩ := reports_of_scope listed o rfl
  refine ⟨rfl, same, all, (part _ (by simp)).1, ?_, (whole _ (by simp)).2.2 all, ?_⟩
  · exact (part _ List.mem_cons_self).2.1 names same
  · decide +kernel

end SchemaReport
