import SchemaReport.Message.Getter

/-! The answer to the compiler: an error, or the files that were generated, with the features that
the plugin supports. -/

namespace SchemaReport

abbrev Response := Message .response
abbrev GeneratedFile := Message .generatedFile

namespace GeneratedFile

def of (name? insertionPoint? content? : Option String) : GeneratedFile :=
  .cons (.optional name?) (.cons (.optional insertionPoint?) (.cons (.optional content?) .nil))

def new (name content : String) : GeneratedFile := of (some name) none (some content)

def name? (f : GeneratedFile) : Option String := f.text? 1 rfl

def insertionPoint? (f : GeneratedFile) : Option String := f.text? 2 rfl

def content? (f : GeneratedFile) : Option String := f.text? 15 rfl

end GeneratedFile

namespace Response

def of (error? : Option String) (features? : Option UInt64) (files : List GeneratedFile) :
    Response :=
  .cons (.optional error?) (.cons (.optional features?) (.cons (.messages (.ofList files)) .nil))

def error? (r : Response) : Option String := r.text? 1 rfl

/-- Features are the bits of this number. -/
def features? (r : Response) : Option UInt64 := (r.slot (k := .optional .uint64) 2 rfl).value?

def files (r : Response) : List GeneratedFile := r.children 15 rfl

/-- The feature of plugins that know fields which are declared optional. -/
def proto3Optional : UInt64 := 1

end Response

end SchemaReport
