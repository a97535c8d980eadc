import SchemaReport.Proofs.Invocation

/-! Generation is all or nothing. Generators run one after the other, and any of them may fail. Each
that succeeds leaves its own records in the log and one for its file; the first that fails is the
last that runs. The response then has its error alone, and otherwise one file of each. -/

namespace SchemaReport

/-- A generator with the text that it made. -/
structure Rendering where
  generator : Generator
  text : String

namespace Rendering

def file (d : Rendering) : GeneratedFile := .new d.generator.fileName d.text

/-- The record of a file that was made. -/
def announced (d : Rendering) : LogRecord :=
  ⟨.debug, .plugin, s!"generated {d.generator.fileName} ({d.text.utf8ByteSize} bytes)"⟩

/-- What generators that succeed leave in the log, one after the other. -/
def trail (r : Request) (o : Options) (ds : List Rendering) : List LogRecord :=
  ds.flatMap fun d => (d.generator.generate r o).log ++ [d.announced]

end Rendering

section Run

variable {r : Request} {o : Options} {g : Generator} {ds : List Rendering}

end Run

/-! ### The files and the response -/

/-- The options of the request, and what they leave in the log. -/
def opening (r : Request) : List LogRecord :=
  (Options.ofParameter r.parameter).log ++
    [⟨.debug, .plugin, (Options.ofParameter r.parameter).value.describe⟩]

/-- Always fails. -/
def broken : Generator := ⟨"broken.txt", fun _ _ => return .error (.write "broken.txt")⟩

/-- The statistics are made, and yet there is no file of them. -/
example :
    let p := respondWith [Stats.generator, broken, Graph.generator] (.empty .request)
    p.value.files = [] ∧ p.value.error? = some
      "failed to write broken.txt: an error occurred when formatting an argument" ∧
    (p.log.filter fun x => x.origin = .plugin).map (·.text) = [
      "Config \x7b graph_name: \"entities\", scope: All, dump_indent: 2 \x7d",
      "generated request_stats.txt (108 bytes)", "generation failed: " ++
        "failed to write broken.txt: an error occurred when formatting an argument"] := by
  decide +kernel

end SchemaReport
