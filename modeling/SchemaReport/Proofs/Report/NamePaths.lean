import Mathlib.Data.List.Dedup
import SchemaReport.Proofs.Report.EdgeEnds

/-! Names cut at their dots. A qualified name holds the segments that it was joined from, as long as
none of them has a dot in it: the pieces between its dots are those of the package that are not
empty, and then the names on the path. So two elements have the same qualified name only if they
stand at the end of the same path, and what the graph draws once was declared under one path. -/

namespace SchemaReport

/-- The text is one piece of a qualified name. -/
def IsName (s : String) : Prop := s ≠ "" ∧ '.' ∉ s.toList

instance (s : String) : Decidable (IsName s) := inferInstanceAs (Decidable (_ ∧ _))

theorem IsName.isSegment {s : String} (h : IsName s) : IsSegment s :=
  ⟨h.1, fun e => h.2 (List.mem_of_mem_head? e), fun e => h.2 (List.mem_of_getLast? e)⟩

namespace QualifiedName

/-- The scopes of a package: its pieces between dots that are not empty. -/
def scopes (package : String) : List String :=
  ((package.toList.splitOn '.').filter (· ≠ [])).map String.ofList

/-- The pieces of a name between its dots. -/
def pieces (n : QualifiedName) : List String := (n.text.toList.splitOn '.').map String.ofList

section

variable {package package' : String} {names names' : List String}

/-- Of dot-free names all characters count. -/
theorem kept_eq (h : ∀ s ∈ names, IsName s) :
    kept package names = (scopes package ++ names).map String.toList := by
  have plain : ∀ cs ∈ package.toList.splitOn '.' ++ names.map String.toList, '.' ∉ cs := by
    intro cs hcs
    rcases List.mem_append.mp hcs with hcs | hcs
    · exact notMem_of_mem_splitOn hcs
    · obtain ⟨s, hs, rfl⟩ := List.mem_map.mp hcs
      exact (h s hs).2
  have counts : (names.map String.toList).filter (· ≠ []) = names.map String.toList := by
    rw [List.filter_eq_self]
    intro cs hcs
    obtain ⟨s, hs, rfl⟩ := List.mem_map.mp hcs
    simpa using (h s hs).1
  have whole : ∀ cs ∈ package.toList.splitOn '.' ++ names.map String.toList,
      Text.trimBoth (· = '.') cs = cs := fun cs hcs =>
    Text.trimBoth_eq_self fun c hc => decide_eq_false fun e => plain cs hcs (e ▸ hc)
  rw [kept, List.map_congr_left whole, List.map_id', List.filter_append, counts, scopes,
    List.map_append, List.map_map]
  simp

theorem isName_of_mem_scopes {s : String} (hs : s ∈ scopes package) : IsName s := by
  obtain ⟨cs, hcs, rfl⟩ := List.mem_map.mp hs
  obtain ⟨hcs, hne⟩ := List.mem_filter.mp hcs
  refine ⟨by simpa using hne, ?_⟩
  rw [String.toList_ofList]
  exact notMem_of_mem_splitOn hcs

/-- The segments of a name that is joined are names themselves. -/
theorem isName_of_mem (h : ∀ s ∈ names, IsName s) :
    ∀ cs ∈ (scopes package ++ names).map String.toList, cs ≠ [] ∧ '.' ∉ cs := by
  intro cs hcs
  obtain ⟨s, hs, rfl⟩ := List.mem_map.mp hcs
  have name : IsName s := (List.mem_append.mp hs).elim isName_of_mem_scopes (h s)
  exact ⟨by simpa using name.1, name.2⟩

theorem toList_text_joined (h : ∀ s ∈ names, IsName s) :
    (names.foldl join (ofPackage package)).text.toList =
      '.' :: ['.'].intercalate ((scopes package ++ names).map String.toList) := by
  rw [foldl_join_eq_ofSegments package fun s hs => (h s hs).isSegment, toList_text_ofSegments,
    kept_eq h]

theorem pieces_joined (h : ∀ s ∈ names, IsName s) (hne : scopes package ++ names ≠ []) :
    (names.foldl join (ofPackage package)).pieces = "" :: (scopes package ++ names) := by
  have cut := List.splitOn_intercalate '.' (fun cs hcs => (isName_of_mem h cs hcs).2)
    (by simpa using hne)
  rw [pieces, toList_text_joined h, List.splitOn_cons_eq_if_modifyHead,
    if_pos (beq_self_eq_true '.'), cut, List.map_cons, List.map_map]
  simp [Function.comp_def]

theorem joined_eq_joined_iff (h : ∀ s ∈ names, IsName s) (h' : ∀ s ∈ names', IsName s) :
    names.foldl join (ofPackage package) = names'.foldl join (ofPackage package') ↔
      scopes package ++ names = scopes package' ++ names' := by
  have injective : Function.Injective (List.map String.toList) :=
    List.map_injective_iff.mpr fun _ _ => String.toList_inj.mp
  rw [QualifiedName.ext_iff, ← String.toList_inj, toList_text_joined h, toList_text_joined h',
    List.cons_inj_right, intercalate_inj (isName_of_mem h) (isName_of_mem h'), injective.eq_iff]

end

end QualifiedName

/-! ### The elements of a file -/

namespace FileDescriptor

/-- The qualified name of a path of names in a file. -/
def nameOf (f : FileDescriptor) (path : List String) : QualifiedName :=
  path.foldl .join (.ofPackage f.package)

/-- What a file declares, each under the names on the path to it: the services, each before its
methods, and then the messages at every depth. -/
def elements (f : FileDescriptor) : List (List String × Shape) :=
  f.services.flatMap (fun s =>
    ([s.name], .diamond) :: s.methods.map fun m => ([s.name, m.name], .circle)) ++
    f.paths.map fun x => (x.1, .square)

/-- The graph asks for one node for each element, under the qualified name of its path. -/
theorem nodes_ofFile (f : FileDescriptor) : (Graph.Declaration.ofFile f).map (·.node) =
    f.elements.map fun x => ⟨f.nameOf x.1, x.2⟩ := by
  rw [Graph.Declaration.ofFile, elements, List.map_append, List.map_append, List.map_flatMap,
    List.map_flatMap, preorder_eq_map_paths]
  simp only [Graph.Declaration.ofService, Graph.Declaration.ofMethod, Graph.Declaration.ofMessage,
    nameOf, List.map_map, List.map_cons, List.foldl_cons, List.foldl_nil, Function.comp_def]

theorem nameOf_eq_nameOf_iff (f : FileDescriptor) {p q : List String} (hp : ∀ s ∈ p, IsName s)
    (hq : ∀ s ∈ q, IsName s) : f.nameOf p = f.nameOf q ↔ p = q := by
  rw [nameOf, nameOf, QualifiedName.joined_eq_joined_iff hp hq, List.append_cancel_left_eq]

/-- The nodes that are drawn are those of the paths, each path taken once. -/
theorem names_firstNodes_perm {f : FileDescriptor} (h : ∀ x ∈ f.elements, ∀ s ∈ x.1, IsName s) :
    ((Graph.firstNodes ((Graph.Declaration.ofFile f).map (·.node))).map (·.name)).Perm
      ((f.elements.map Prod.fst).dedup.map f.nameOf) := by
  have plain : ∀ p ∈ (f.elements.map Prod.fst).dedup, ∀ s ∈ p, IsName s := by
    intro p hp
    obtain ⟨x, hx, rfl⟩ := List.mem_map.mp (List.mem_dedup.mp hp)
    exact h x hx
  have once : ((f.elements.map Prod.fst).dedup.map f.nameOf).Nodup :=
    (List.nodup_dedup _).map_on fun p hp q hq =>
      (f.nameOf_eq_nameOf_iff (plain p hp) (plain q hq)).mp
  refine (List.perm_ext_iff_of_nodup (Graph.nodup_firstNodes _) once).mpr fun n => ?_
  have declared : n ∈ ((Graph.Declaration.ofFile f).map (·.node)).map (·.name) ↔
      n ∈ (f.elements.map Prod.fst).dedup.map f.nameOf := by
    simp only [nodes_ofFile, List.map_map, List.mem_map, List.mem_dedup, Function.comp_apply,
      exists_exists_and_eq_and]
  rw [← declared]
  constructor
  · exact fun hn => ((Graph.firstNodes_sublist _).map _).subset hn
  · intro hn
    obtain ⟨m, hm, rfl⟩ := List.mem_map.mp hn
    exact Graph.mem_map_name_firstNodes hm

end FileDescriptor

open QualifiedName in
/-- A qualified name that was joined from names without dots falls apart at its dots into the scopes
of the package and these names, behind an empty piece. So elements of any two packages have the same
name exactly if the scopes and names on the way to them are the same, and those of one file if their
paths are: of its elements the graph draws each path once, and none that is another one's. -/
theorem name_tells_path :
    (∀ package names, (∀ s ∈ names, IsName s) → scopes package ++ names ≠ [] →
      (names.foldl join (ofPackage package)).pieces = "" :: (scopes package ++ names)) ∧
    (∀ package package' names names', (∀ s ∈ names, IsName s) → (∀ s ∈ names', IsName s) →
      (names.foldl join (ofPackage package) = names'.foldl join (ofPackage package') ↔
        scopes package ++ names = scopes package' ++ names')) ∧
    ∀ f : FileDescriptor, (∀ x ∈ f.elements, ∀ s ∈ x.1, IsName s) →
      let nodes := (Graph.Declaration.ofFile f).map (·.node)
      nodes = f.elements.map (fun x => ⟨f.nameOf x.1, x.2⟩) ∧
      (∀ x ∈ f.elements, ∀ y ∈ f.elements, f.nameOf x.1 = f.nameOf y.1 ↔ x.1 = y.1) ∧
      ((Graph.firstNodes nodes).map (·.name)).Perm
        ((f.elements.map Prod.fst).dedup.map f.nameOf) := by
  refine ⟨fun _ _ => pieces_joined, fun _ _ _ _ => joined_eq_joined_iff, fun f h => ?_⟩
  refine ⟨f.nodes_ofFile, fun x hx y hy => ?_, FileDescriptor.names_firstNodes_perm h⟩
  exact f.nameOf_eq_nameOf_iff (h x hx) (h y hy)

/-- A package may end where a message begins, and then two different paths have the same name; in
the second file with dots too many they have not. -/
theorem name_tells_path_dotted :
    (["Inner"].foldl QualifiedName.join (.ofPackage ".a..Outer")).pieces =
        ["", "a", "Outer", "Inner"] ∧
      ["Inner"].foldl QualifiedName.join (.ofPackage ".a..Outer") =
        ["Outer", "Inner"].foldl QualifiedName.join (.ofPackage "a.") ∧
      ∀ f ∈ Graph.dotted.protoFiles, ∀ x ∈ f.elements, ∀ y ∈ f.elements,
        f.nameOf x.1 = f.nameOf y.1 ↔ x.1 = y.1 := by
  have inner : ∀ s ∈ ["Inner"], IsName s := by decide
  have outer : ∀ s ∈ ["Outer", "Inner"], IsName s := by decide
  have files : ∀ f ∈ Graph.dotted.protoFiles, ∀ x ∈ f.elements, ∀ s ∈ x.1, IsName s := by
    decide +kernel
  have left : QualifiedName.scopes ".a..Outer" = ["a", "Outer"] := by decide
  have right : QualifiedName.scopes "a." = ["a"] := by decide
  obtain ⟨split, same, within⟩ := name_tells_path
  refine ⟨?_, ?_, fun f hf => (within f (files f hf)).2.1⟩
  · rw [split _ _ inner (by simp), left]
    rfl
  · rw [same _ _ _ _ inner outer, left, right]
    rfl

end SchemaReport
