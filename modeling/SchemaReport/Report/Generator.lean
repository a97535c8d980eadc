import SchemaReport.Log
import SchemaReport.Options

/-! Generators: each renders one file from the request and the options, or fails. -/

namespace SchemaReport

/-- Why the text of a file could not be made. -/
inductive GenerationError
  | render (file reason : String)
  | write (file : String)
  deriving DecidableEq

def GenerationError.message : GenerationError → String
  | .render file reason => "failed to render " ++ file ++ ": " ++ reason
  | .write file =>
    "failed to write " ++ file ++ ": an error occurred when formatting an argument"

structure Generator where
  fileName : String
  generate : Request → Options → Logged (Except GenerationError String)

end SchemaReport
