import SchemaReport.Report.Dump
import SchemaReport.Report.Graph
import SchemaReport.Report.Stats
import SchemaReport.Response

/-! The plugin: one response for a request. Either all generators succeed and the response has one
file of each, or it has the error of the first that fails and no files. -/

namespace SchemaReport

/-- All generators, in the order of their files. -/
def generators : List Generator := [Dump.generator, Stats.generator, Graph.generator]

def Generator.run (g : Generator) (r : Request) (o : Options) :
    Logged (Except GenerationError GeneratedFile) := do
  match ← g.generate r o with
  | .error e => return .error e
  | .ok text =>
    Logged.note .debug .plugin s!"generated {g.fileName} ({text.utf8ByteSize} bytes)"
    return .ok (.new g.fileName text)

/-- Runs generators in order, up to the first that fails. -/
def runAll (r : Request) (o : Options) :
    List Generator → Logged (Except GenerationError (List GeneratedFile))
  | [] => return .ok []
  | g :: gs => do
    match ← g.run r o with
    | .error e => return .error e
    | .ok f => return (← runAll r o gs).map (f :: ·)

/-- The files of the request, under the options that it carries. -/
def generateFiles (r : Request) (gs : List Generator) :
    Logged (Except GenerationError (List GeneratedFile)) := do
  let o ← Options.ofParameter r.parameter
  Logged.note .debug .plugin o.describe
  runAll r o gs

def respondWith (gs : List Generator) (r : Request) : Logged Response := do
  match ← generateFiles r gs with
  | .ok files => return .of none (some Response.proto3Optional) files
  | .error e =>
    Logged.note .warn .plugin ("generation failed: " ++ e.message)
    return .of (some e.message) (some Response.proto3Optional) []

def respond (r : Request) : Logged Response := respondWith generators r

end SchemaReport
