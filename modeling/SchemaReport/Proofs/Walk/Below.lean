import SchemaReport.Proofs.Walk

/-! The messages of a file without their names. Those at the top are in the list of the file, and
the others are nested in them at some depth; the walk visits all of them, and each of them once. -/

namespace SchemaReport

namespace MessageDescriptor

/-- A message and everything nested in it, each message before those nested in it. -/
def family (d : MessageDescriptor) : List MessageDescriptor :=
  d :: d.nested.attach.flatMap fun c => c.val.family
termination_by sizeOf d
decreasing_by exact MessageDescriptor.sizeOf_lt_of_mem_nested c.property

/-- What is nested in a message at every depth. -/
def below (d : MessageDescriptor) : List MessageDescriptor := d.nested.flatMap family

theorem family_eq (d : MessageDescriptor) : d.family = d :: d.below := by
  rw [family, below, List.flatMap_subtype fun _ _ => rfl, List.unattach_attach]

theorem map_snd_preorder (scope : QualifiedName) (d : MessageDescriptor) :
    (d.preorder scope).map Prod.snd = d.family := by
  induction d using nested_induction generalizing scope with
  | step d ih =>
    rw [preorder_eq, family_eq, below, List.map_cons, List.map_flatMap]
    exact congrArg (d :: ·) (List.flatMap_congr fun c hc => ih c hc _)

theorem length_flatMap_family (ds : List MessageDescriptor) :
    (ds.flatMap family).length = ds.length + (ds.flatMap below).length := by
  induction ds with
  | nil => rfl
  | cons d ds ih =>
    rw [List.flatMap_cons, List.flatMap_cons, List.length_append, List.length_append, ih,
      family_eq, List.length_cons, List.length_cons]
    omega

/-- The fields that refer to another message. -/
def references (d : MessageDescriptor) : List FieldDescriptor :=
  d.fields.filter fun f => f.holdsMessage && f.typeName ≠ ""

end MessageDescriptor

namespace FileDescriptor

/-- The messages of a file at every depth, in the order of the walk. -/
def allMessages (f : FileDescriptor) : List MessageDescriptor :=
  f.messages.flatMap MessageDescriptor.family

/-- The messages of a file that are nested in others, at every depth. -/
def nestedMessages (f : FileDescriptor) : List MessageDescriptor :=
  f.messages.flatMap MessageDescriptor.below

theorem map_snd_preorder (f : FileDescriptor) : f.preorder.map Prod.snd = f.allMessages := by
  rw [preorder, allMessages, List.map_flatMap]
  exact List.flatMap_congr fun d _ => d.map_snd_preorder _

theorem length_allMessages (fs : List FileDescriptor) : (fs.flatMap allMessages).length =
    (fs.flatMap messages).length + (fs.flatMap nestedMessages).length := by
  have all : fs.flatMap allMessages = (fs.flatMap messages).flatMap MessageDescriptor.family :=
    List.flatMap_assoc.symm
  have nested : fs.flatMap nestedMessages = (fs.flatMap messages).flatMap MessageDescriptor.below :=
    List.flatMap_assoc.symm
  rw [all, nested, MessageDescriptor.length_flatMap_family]

end FileDescriptor

end SchemaReport
