import Mathlib.Data.List.Basic
import SchemaReport.Walk

/-! The walk as a loop over a list: in every lawful monad a visit to all messages of a file is a
visit to each of them in turn, in pre-order. The name of a visit comes of joining the names on the
path to the message, from the outermost one on, to that of the package. -/

namespace SchemaReport

variable {α β : Type} {m : Type → Type} [Monad m] [LawfulMonad m]

theorem forM_flatMap (l : List α) (g : α → List β) (f : β → m Unit) :
    (l.flatMap g).forM f = l.forM fun a => (g a).forM f := by
  induction l with
  | nil => rfl
  | cons a l ih =>
    rw [List.flatMap_cons]
    simp only [List.forM_eq_forM, List.forM_append, List.forM_cons] at ih ⊢
    rw [ih]

omit [LawfulMonad m] in
theorem forM_attach (l : List α) (f : α → m Unit) :
    (l.attach.forM fun a => f a.val) = l.forM f := by
  have all : ∀ ys : List { a // a ∈ l },
      (ys.forM fun a => f a.val) = (ys.map (·.val)).forM f := by
    intro ys
    induction ys with
    | nil => rfl
    | cons y ys ih =>
      simp only [List.forM_eq_forM, List.map_cons, List.forM_cons] at ih ⊢
      rw [ih]
  rw [all, List.attach_map_subtype_val]

namespace MessageDescriptor

/-- What is true of a message if it is true of those nested in it is true of all messages. -/
theorem nested_induction {P : MessageDescriptor → Prop}
    (step : ∀ d : MessageDescriptor, (∀ c ∈ d.nested, P c) → P d) (d : MessageDescriptor) : P d :=
  step d fun c _ => nested_induction step c
termination_by sizeOf d
decreasing_by exact sizeOf_lt_of_mem_nested ‹_›

/-- A message of `scope` and everything nested in it, under their qualified names. -/
def preorder (scope : QualifiedName) (d : MessageDescriptor) :
    List (QualifiedName × MessageDescriptor) :=
  let name := scope.join d.name
  (name, d) :: d.nested.attach.flatMap fun c => c.val.preorder name
termination_by sizeOf d
decreasing_by exact MessageDescriptor.sizeOf_lt_of_mem_nested c.property

theorem preorder_eq (scope : QualifiedName) (d : MessageDescriptor) :
    d.preorder scope =
      (scope.join d.name, d) :: d.nested.flatMap (preorder (scope.join d.name)) := by
  rw [preorder, List.flatMap_subtype fun _ _ => rfl, List.unattach_attach]

omit [LawfulMonad m] in
theorem walk_eq (visit : QualifiedName → MessageDescriptor → m Unit) (scope : QualifiedName)
    (d : MessageDescriptor) : d.walk visit scope = (do
      visit (scope.join d.name) d
      d.nested.forM (walk visit (scope.join d.name))) := by
  rw [walk, forM_attach]

theorem walk_eq_forM (visit : QualifiedName → MessageDescriptor → m Unit) (scope : QualifiedName)
    (d : MessageDescriptor) :
    d.walk visit scope = (d.preorder scope).forM fun p => visit p.1 p.2 := by
  induction d using nested_induction generalizing scope with
  | step d ih =>
    have nested : (d.nested.forM (walk visit (scope.join d.name))) =
        (d.nested.flatMap (preorder (scope.join d.name))).forM fun p => visit p.1 p.2 := by
      rw [forM_flatMap, ← forM_attach, ← forM_attach (m := m) d.nested]
      congr 1
      funext c
      exact ih c.val c.property _
    rw [walk_eq, preorder_eq, nested]
    rfl

/-- A message and everything nested in it, each under the names on the path to it. The path begins
with the messages around the first one, and it ends with the name of the message itself. -/
def paths (outer : List String) (d : MessageDescriptor) :
    List (List String × MessageDescriptor) :=
  let path := outer ++ [d.name]
  (path, d) :: d.nested.attach.flatMap fun c => c.val.paths path
termination_by sizeOf d
decreasing_by exact MessageDescriptor.sizeOf_lt_of_mem_nested c.property

theorem paths_eq (outer : List String) (d : MessageDescriptor) :
    d.paths outer = (outer ++ [d.name], d) :: d.nested.flatMap (paths (outer ++ [d.name])) := by
  rw [paths, List.flatMap_subtype fun _ _ => rfl, List.unattach_attach]

/-- A message is visited under the names on its path, joined to the scope of the walk. -/
theorem preorder_eq_map_paths (scope : QualifiedName) (outer : List String)
    (d : MessageDescriptor) : d.preorder (outer.foldl .join scope) =
      (d.paths outer).map fun x => (x.1.foldl .join scope, x.2) := by
  induction d using nested_induction generalizing outer with
  | step d ih =>
    have name : (outer.foldl .join scope).join d.name = (outer ++ [d.name]).foldl .join scope := by
      rw [List.foldl_append, List.foldl_cons, List.foldl_nil]
    rw [preorder_eq, paths_eq, List.map_cons, List.map_flatMap, name]
    congr 1
    exact List.flatMap_congr fun c hc => ih c hc (outer ++ [d.name])

/-- What stands on a path, beside what is around the first message, is the name of a message. -/
theorem exists_name_of_mem_path {outer : List String} {d : MessageDescriptor}
    {x : List String × MessageDescriptor} (hx : x ∈ d.paths outer) {s : String} (hs : s ∈ x.1) :
    s ∈ outer ∨ ∃ y ∈ d.paths outer, y.2.name = s := by
  induction d using nested_induction generalizing outer with
  | step d ih =>
    have named : s ∈ outer ++ [d.name] → s ∈ outer ∨ ∃ y ∈ d.paths outer, y.2.name = s := by
      intro h
      rw [List.mem_append, List.mem_singleton] at h
      refine h.imp_right fun e => ⟨(outer ++ [d.name], d), ?_, e.symm⟩
      rw [paths_eq]
      exact List.mem_cons_self
    rw [paths_eq, List.mem_cons, List.mem_flatMap] at hx
    obtain rfl | ⟨c, hc, hx⟩ := hx
    · exact named hs
    · obtain h | ⟨y, hy, rfl⟩ := ih c hc hx
      · exact named h
      · refine .inr ⟨y, ?_, rfl⟩
        rw [paths_eq]
        exact List.mem_cons_of_mem _ (List.mem_flatMap_of_mem hc hy)

end MessageDescriptor

/-- All messages of a file, each before those nested in it. -/
def FileDescriptor.preorder (f : FileDescriptor) : List (QualifiedName × MessageDescriptor) :=
  f.messages.flatMap (MessageDescriptor.preorder (.ofPackage f.package))

theorem FileDescriptor.walk_eq_forM (visit : QualifiedName → MessageDescriptor → m Unit)
    (f : FileDescriptor) : f.walk visit = f.preorder.forM fun p => visit p.1 p.2 := by
  rw [walk, preorder, forM_flatMap]
  congr 1
  funext d
  exact d.walk_eq_forM visit _

/-- All messages of a file under their paths, each before those nested in it. -/
def FileDescriptor.paths (f : FileDescriptor) : List (List String × MessageDescriptor) :=
  f.messages.flatMap (MessageDescriptor.paths [])

theorem FileDescriptor.preorder_eq_map_paths (f : FileDescriptor) :
    f.preorder = f.paths.map fun x => (x.1.foldl .join (.ofPackage f.package), x.2) := by
  rw [preorder, paths, List.map_flatMap]
  exact List.flatMap_congr fun d _ => d.preorder_eq_map_paths (.ofPackage f.package) []

theorem FileDescriptor.exists_name_of_mem_path {f : FileDescriptor}
    {x : List String × MessageDescriptor} (hx : x ∈ f.paths) {s : String} (hs : s ∈ x.1) :
    ∃ y ∈ f.paths, y.2.name = s := by
  obtain ⟨d, hd, hx⟩ := List.mem_flatMap.mp hx
  obtain h | ⟨y, hy, hname⟩ := MessageDescriptor.exists_name_of_mem_path hx hs
  · exact absurd h List.not_mem_nil
  · exact ⟨y, List.mem_flatMap_of_mem hd hy, hname⟩

end SchemaReport
