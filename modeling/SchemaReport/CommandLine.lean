import SchemaReport.Invocation
import SchemaReport.LogFilter

/-! The plugin as a command: the response goes to standard output, and the log and the error, if
there is one, to standard error. A filter says which log records are shown, and what of it cannot be
read is reported before them. -/

namespace SchemaReport

-- Powers are those of the core library, also where an algebraic hierarchy brings its own.
attribute [local instance (high)] instPowNat

/-- A record on a line of its own; further lines of its text are indented. -/
def LogRecord.line (r : LogRecord) : String :=
  let level := String.ofList (r.level.name.toList.rightpad 5 ' ')
  let text := r.text.toList.flatMap fun c => if c = '\n' then "\n    ".toList else [c]
  "[" ++ level ++ " " ++ r.origin.target ++ "] " ++ String.ofList text ++ "\n"

structure CommandResult where
  exitCode : UInt8
  output : List UInt8
  errorText : String

/-- An output that never fails. -/
def Sink.ready : Sink := ⟨fun _ => .upTo (2 ^ (32 : Nat)), none⟩

/-- The lines about what cannot be read of the text of a filter. -/
def LogFilter.complaintLines (filter? : Option String) : List String :=
  ((filter?.map complaints).getD []).map (· ++ "\n")

/-- The command on the bytes of standard input, with the text of a log filter if there is one. -/
def command (filter? : Option String) (input : List UInt8) : CommandResult :=
  let filter := (filter?.map LogFilter.ofText).getD .standard
  let run := execute [.bytes input] .ready
  let records := (run.log.filter filter.shows).map LogRecord.line
  let shown := String.join (LogFilter.complaintLines filter? ++ records)
  match run.value.result with
  | .ok () => ⟨0, run.value.output, shown⟩
  | .error e => ⟨1, run.value.output, shown ++ ("protoc-gen-pluginexample: " ++ e.message ++ "\n")⟩

end SchemaReport
