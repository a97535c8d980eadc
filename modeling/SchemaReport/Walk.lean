import SchemaReport.Descriptor
import SchemaReport.QualifiedName

/-! Visits to all messages of a file, each under its qualified name: a message before the messages
nested in it, and those before its next sibling. Only nesting is followed, never the type of a
field. What a visit may do is up to the monad; in one that can fail the walk ends at a failure. -/

namespace SchemaReport

variable {m : Type → Type} [Monad m]

/-- A message of `scope` and everything nested in it. -/
def MessageDescriptor.walk (visit : QualifiedName → MessageDescriptor → m Unit)
    (scope : QualifiedName) (d : MessageDescriptor) : m Unit := do
  let name := scope.join d.name
  visit name d
  d.nested.attach.forM fun c => c.val.walk visit name
termination_by sizeOf d
decreasing_by exact MessageDescriptor.sizeOf_lt_of_mem_nested c.property

def FileDescriptor.walk (visit : QualifiedName → MessageDescriptor → m Unit) (f : FileDescriptor) :
    m Unit :=
  f.messages.forM fun d => MessageDescriptor.walk visit (.ofPackage f.package) d

end SchemaReport
