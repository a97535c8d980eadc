import SchemaReport.Json.Write
import SchemaReport.Report.Generator

/-! The dump: the whole request as JSON, with a newline at the end. -/

namespace SchemaReport.Dump

/-- One line, or lines that are indented up to the widest indentation. -/
def layout (o : Options) : Json.Layout :=
  if o.dumpIndent = 0 then none else some (min o.dumpIndent Options.maxDumpIndent)

def text (r : Request) (o : Options) : String :=
  String.ofList (Json.write (layout o) r ++ ['\n'])

def generator : Generator where
  fileName := "request_dump.json"
  generate r o := do
    let t := text r o
    Logged.note .debug .dump s!"request dump: {t.utf8ByteSize} bytes"
    return .ok t

end SchemaReport.Dump
