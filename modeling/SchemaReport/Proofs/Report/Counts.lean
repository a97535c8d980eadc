import Mathlib.Data.List.Flatten
import SchemaReport.Proofs.Report.Sections
import SchemaReport.Proofs.Report.Stats
import SchemaReport.Proofs.Walk.Below

/-! The statistics and the graph of the same files, count by count. Both go over the same services
and methods, but the statistics see only the messages at the top and the graph has one node for each
name: it has a node for every declaration if no two of them share a name, and fewer otherwise. -/

namespace SchemaReport

/-- Whether an edge is written as a dashed line. -/
def EdgeStyle.isDashed (s : EdgeStyle) : Bool :=
  match s.attributes? with
  | some a => "style=dashed".toList.isPrefixOf a.toList
  | none => false

namespace Graph

/-! ### First nodes and repeated ones -/

/-- The nodes whose name was there before them. -/
def repeats (ns : List Node) : List Node :=
  (ns.zipIdx.filter fun p => p.1.name ∈ (ns.take p.2).map (·.name)).map Prod.fst

theorem repeats_concat (ns : List Node) (n : Node) :
    repeats (ns ++ [n]) = repeats ns ++ if n.name ∈ ns.map (·.name) then [n] else [] := by
  have before : ∀ p ∈ ns.zipIdx, (ns ++ [n]).take p.2 = ns.take p.2 := by
    intro p hp
    have := List.snd_lt_of_mem_zipIdx hp
    exact List.take_append_of_le_length (by omega)
  have old : ns.zipIdx.filter (fun p => p.1.name ∈ ((ns ++ [n]).take p.2).map (·.name)) =
      ns.zipIdx.filter (fun p => p.1.name ∈ (ns.take p.2).map (·.name)) := by
    refine List.filter_congr fun p hp => ?_
    rw [before p hp]
  have new : [n].zipIdx ns.length = [(n, ns.length)] := rfl
  rw [repeats, List.zipIdx_append, List.filter_append, List.map_append, old, Nat.zero_add, new,
    List.filter_singleton, List.take_left]
  split_ifs with h <;> simp [repeats, h]

theorem firstNodes_concat (ns : List Node) (n : Node) :
    firstNodes (ns ++ [n]) = firstNodes ns ++ if n.name ∈ ns.map (·.name) then [] else [n] := by
  induction ns with
  | nil => rfl
  | cons m ns ih =>
    rw [List.cons_append, firstNodes, ih, firstNodes, List.filter_append, List.map_cons]
    by_cases hm : n.name = m.name
    · simp [hm]
    · by_cases hns : n.name ∈ ns.map (·.name)
      · simp [hns]
      · simp [hns, hm]

theorem length_firstNodes_add_length_repeats (ns : List Node) :
    (firstNodes ns).length + (repeats ns).length = ns.length := by
  induction ns using List.reverseRecOn with
  | nil => rfl
  | append_singleton ns n ih =>
    rw [firstNodes_concat, repeats_concat, List.length_append, List.length_append,
      List.length_append, List.length_singleton, ← ih]
    split_ifs
    · simp only [List.length_nil, List.length_singleton]
      omega
    · simp only [List.length_nil, List.length_singleton]
      omega

theorem firstNodes_eq_self {ns : List Node} (h : (ns.map (·.name)).Nodup) : firstNodes ns = ns := by
  induction ns with
  | nil => rfl
  | cons n ns ih =>
    rw [List.map_cons, List.nodup_cons] at h
    have others : ∀ m ∈ ns, decide (m.name ≠ n.name) = true := fun m hm =>
      decide_eq_true fun e => h.1 (e ▸ List.mem_map_of_mem hm)
    rw [firstNodes, ih h.2, List.filter_eq_self.mpr others]

/-- Every node is a first one exactly if no two of them share a name. -/
theorem length_firstNodes_eq_iff {ns : List Node} :
    (firstNodes ns).length = ns.length ↔ (ns.map (·.name)).Nodup := by
  constructor
  · intro h
    have same := (firstNodes_sublist ns).eq_of_length h
    have distinct := nodup_firstNodes ns
    rwa [same] at distinct
  · intro h
    rw [firstNodes_eq_self h]

/-! ### Tallies -/

namespace Declaration

/-- How many declarations there are, and how many edges of each kind they draw. -/
structure Tally (ds : List Declaration) (declared methods references : ℕ) : Prop where
  declared : ds.length = declared
  dashed : (ds.flatMap (·.edges)).countP (·.style.isDashed) = 3 * methods
  plain : (ds.flatMap (·.edges)).countP (¬ ·.style.isDashed) = references

namespace Tally

variable {ds es : List Declaration} {n m k n' m' k' : ℕ}

theorem nil : Tally [] 0 0 0 := ⟨rfl, rfl, rfl⟩

theorem of_eq (h : Tally ds n m k) (hn : n = n') (hm : m = m') (hk : k = k') :
    Tally ds n' m' k' := by
  subst hn hm hk
  exact h

theorem append (h : Tally ds n m k) (h' : Tally es n' m' k') :
    Tally (ds ++ es) (n + n') (m + m') (k + k') where
  declared := by rw [List.length_append, h.declared, h'.declared]
  dashed := by rw [List.flatMap_append, List.countP_append, h.dashed, h'.dashed, Nat.mul_add]
  plain := by rw [List.flatMap_append, List.countP_append, h.plain, h'.plain]

theorem length_edges (h : Tally ds n m k) : (ds.flatMap (·.edges)).length = 3 * m + k := by
  rw [List.length_eq_countP_add_countP (·.style.isDashed), h.dashed, h.plain]

end Tally

theorem tally_methods (service : QualifiedName) (ms : List MethodDescriptor) :
    Tally (ms.map (ofMethod service)) ms.length ms.length 0 := by
  induction ms with
  | nil => exact Tally.nil
  | cons m ms ih =>
    have one : Tally [ofMethod service m] 1 1 0 := ⟨rfl, rfl, rfl⟩
    rw [List.length_cons, Nat.add_comm]
    exact one.append ih

theorem tally_services (package : QualifiedName) (ss : List ServiceDescriptor) :
    Tally (ss.flatMap (ofService package)) (ss.length + (ss.flatMap (·.methods)).length)
      (ss.flatMap (·.methods)).length 0 := by
  induction ss with
  | nil => exact Tally.nil
  | cons s ss ih =>
    have own : Tally [⟨⟨package.join s.name, .diamond⟩, []⟩] 1 0 0 := ⟨rfl, rfl, rfl⟩
    have whole := (own.append (tally_methods (package.join s.name) s.methods)).append ih
    rw [List.flatMap_cons, List.flatMap_cons, List.length_append, List.length_cons]
    exact whole.of_eq (by omega) (by omega) rfl

theorem tally_message (name : QualifiedName) (d : MessageDescriptor) :
    Tally [ofMessage name d] 1 0 d.references.length where
  declared := rfl
  dashed := by
    rw [List.flatMap_singleton, List.countP_eq_zero]
    intro e he
    obtain ⟨f, -, rfl⟩ := List.mem_map.mp he
    exact Bool.false_ne_true
  plain := by
    rw [List.flatMap_singleton, ofMessage, List.countP_map]
    exact List.countP_eq_length.mpr fun _ _ => rfl

theorem tally_messages (ps : List (QualifiedName × MessageDescriptor)) :
    Tally (ps.map fun p => ofMessage p.1 p.2) ps.length 0
      ((ps.map Prod.snd).flatMap (·.references)).length := by
  induction ps with
  | nil => exact Tally.nil
  | cons p ps ih =>
    have whole := (tally_message p.1 p.2).append ih
    rw [List.map_cons, List.map_cons, List.flatMap_cons, List.length_append, List.length_cons]
    exact whole.of_eq (by omega) rfl rfl

theorem tally_file (f : FileDescriptor) :
    Tally (ofFile f)
      (f.services.length + (f.services.flatMap (·.methods)).length + f.allMessages.length)
      (f.services.flatMap (·.methods)).length
      (f.allMessages.flatMap (·.references)).length := by
  have whole := (tally_services (.ofPackage f.package) f.services).append
    (tally_messages f.preorder)
  have visits : f.preorder.length = f.allMessages.length := by
    rw [← f.map_snd_preorder, List.length_map]
  rw [f.map_snd_preorder, visits] at whole
  exact whole.of_eq rfl rfl (by omega)

/-- Services, methods and the messages at every depth are declared. Each method draws three dashed
edges, and each reference a plain one. -/
theorem tally_files (fs : List FileDescriptor) :
    Tally (ofFiles fs)
      ((fs.flatMap (·.services)).length + ((fs.flatMap (·.services)).flatMap (·.methods)).length +
        (fs.flatMap (·.allMessages)).length)
      ((fs.flatMap (·.services)).flatMap (·.methods)).length
      ((fs.flatMap (·.allMessages)).flatMap (·.references)).length := by
  induction fs with
  | nil => exact Tally.nil
  | cons f fs ih =>
    have whole := (tally_file f).append ih
    simp only [List.flatMap_cons, List.flatMap_append, List.length_append]
    exact whole.of_eq (by omega) rfl rfl

end Declaration

/-! ### Report and graph -/

/-- The sections that the text of the graph has under every name. -/
theorem generate_eq_sections (r : Request) (o : Options) :
    let g := ofDeclarations (Declaration.ofFiles (o.files r))
    (generator.generate r o).value =
        .ok (String.ofList (head o.graphName ++ "\n\n".toList ++ g.sections)) ∧
      readSections g.sections = some (g.nodes.map fun n => (n.name.text, n.shape), g.edges) := by
  intro g
  refine ⟨?_, readSections_sections g⟩
  show Except.ok (String.ofList ((ofFiles (o.files r)).value.text o.graphName)) = _
  rw [value_ofFiles, text_eq_sections]

/-- The report of the statistics reads back to the lengths of the lists that its counters are about.
In the graph of the same files, three dashed edges stand for each method that is counted. There are
no more nodes than services, methods, messages and nested messages, and there are as many exactly if
no two declarations have the same name. -/
theorem statistics_fit_graph (r : Request) (o : Options) :
    let fs := o.files r
    let s : Stats := {
      files := fs.length
      services := (fs.flatMap (·.services)).length
      methods := ((fs.flatMap (·.services)).flatMap (·.methods)).length
      messages := (fs.flatMap (·.messages)).length
      fields := ((fs.flatMap (·.messages)).flatMap (·.fields)).length }
    let declared := s.services + s.methods + s.messages + (fs.flatMap (·.nestedMessages)).length
    ∃ report body nodes edges,
      (Stats.generator.generate r o).value = .ok report ∧ Stats.read report.toList = some s ∧
      (generator.generate r o).value =
        .ok (String.ofList (head o.graphName ++ "\n\n".toList ++ body)) ∧
      readSections body = some (nodes, edges) ∧
      edges.countP (·.style.isDashed) = 3 * s.methods ∧
      nodes.length ≤ declared ∧
      (nodes.length = declared ↔
        ((Declaration.ofFiles fs).map fun d => d.node.name).Nodup) := by
  intro fs s declared
  obtain ⟨written, sections⟩ := generate_eq_sections r o
  have counts := Declaration.tally_files fs
  have all : ((Declaration.ofFiles fs).map (·.node)).length = declared := by
    rw [List.length_map, counts.declared, FileDescriptor.length_allMessages, ← Nat.add_assoc]
  have nodes := firstNodes_sublist ((Declaration.ofFiles fs).map (·.node))
  refine ⟨_, _, _, _, rfl, ?_, written, sections, counts.dashed, ?_, ?_⟩
  · exact (Stats.read_text _).trans (congrArg some (Stats.ofFiles_eq_counted fs))
  · rw [List.length_map, ← all]
    exact nodes.length_le
  · rw [List.length_map, ← all]
    have names : (firstNodes ((Declaration.ofFiles fs).map (·.node))).length = _ ↔ _ :=
      length_firstNodes_eq_iff
    rwa [List.map_map] at names

end Graph

end SchemaReport
