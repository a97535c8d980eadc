import SchemaReport.Message.Getter

/-! The messages that the reports look into, with the fields they read. -/

namespace SchemaReport

abbrev Request := Message .request
abbrev FileDescriptor := Message .file
abbrev MessageDescriptor := Message .message
abbrev FieldDescriptor := Message .field
abbrev ServiceDescriptor := Message .service
abbrev MethodDescriptor := Message .method

namespace Request

def filesToGenerate (r : Request) : List String :=
  (r.slot (k := .repeated .string false) 1 rfl).values

def parameter (r : Request) : String := r.text 2 rfl

def protoFiles (r : Request) : List FileDescriptor := r.children 15 rfl

end Request

namespace FileDescriptor

def name? (f : FileDescriptor) : Option String := f.text? 1 rfl

def name (f : FileDescriptor) : String := f.text 1 rfl

def package (f : FileDescriptor) : String := f.text 2 rfl

def messages (f : FileDescriptor) : List MessageDescriptor := f.children 4 rfl

def services (f : FileDescriptor) : List ServiceDescriptor := f.children 6 rfl

end FileDescriptor

namespace MessageDescriptor

def name (m : MessageDescriptor) : String := m.text 1 rfl

def fields (m : MessageDescriptor) : List FieldDescriptor := m.children 2 rfl

def nested (m : MessageDescriptor) : List MessageDescriptor := m.children 3 rfl

theorem sizeOf_lt_of_mem_nested {c m : MessageDescriptor} (h : c ∈ m.nested) :
    sizeOf c < sizeOf m :=
  Record.sizeOf_lt_of_mem_children h

end MessageDescriptor

namespace FieldDescriptor

def typeName (f : FieldDescriptor) : String := f.text 6 rfl

/-- Whether the declared type of the field is `TYPE_MESSAGE`. -/
def holdsMessage (f : FieldDescriptor) : Bool := f.number (e := .fieldType) 5 rfl = 11

end FieldDescriptor

namespace ServiceDescriptor

def name (s : ServiceDescriptor) : String := s.text 1 rfl

def methods (s : ServiceDescriptor) : List MethodDescriptor := s.children 2 rfl

end ServiceDescriptor

namespace MethodDescriptor

def name (m : MethodDescriptor) : String := m.text 1 rfl

def inputType (m : MethodDescriptor) : String := m.text 2 rfl

def outputType (m : MethodDescriptor) : String := m.text 3 rfl

end MethodDescriptor

end SchemaReport
