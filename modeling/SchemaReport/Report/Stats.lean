import SchemaReport.Report.Generator

/-! Counts of what the files declare. Only messages at the top level are counted, and the fields
of these. -/

namespace SchemaReport

structure Stats where
  files : Nat
  services : Nat
  methods : Nat
  messages : Nat
  fields : Nat
  deriving DecidableEq

namespace Stats

def zero : Stats := ⟨0, 0, 0, 0, 0⟩

def addService (s : Stats) (d : ServiceDescriptor) : Stats :=
  { s with services := s.services + 1, methods := s.methods + d.methods.length }

def addMessage (s : Stats) (d : MessageDescriptor) : Stats :=
  { s with messages := s.messages + 1, fields := s.fields + d.fields.length }

def addFile (s : Stats) (f : FileDescriptor) : Stats :=
  f.messages.foldl addMessage (f.services.foldl addService { s with files := s.files + 1 })

def ofFiles (fs : List FileDescriptor) : Stats := fs.foldl addFile zero

def text (s : Stats) : String :=
  "stats for code generation request\n" ++ s!"num files: {s.files}\n" ++
    s!"num services: {s.services}\n" ++ s!"num methods: {s.methods}\n" ++
    s!"num messages: {s.messages}\n" ++ s!"num fields: {s.fields}\n"

def describe (s : Stats) : String :=
  "Stats \x7b " ++ s!"files: {s.files}, services: {s.services}, methods: {s.methods}, " ++
    s!"messages: {s.messages}, fields: {s.fields}" ++ " \x7d"

def generator : Generator where
  fileName := "request_stats.txt"
  generate r o := do
    let s := ofFiles (o.files r)
    Logged.note .debug .stats s.describe
    return .ok s.text

end Stats

end SchemaReport
