import SchemaReport.Plugin
import SchemaReport.Stream
import SchemaReport.Wire.Encode

/-! One invocation: the request is all that the input holds, and the response is all that is written
to the output. Nothing is written before the request has been read and answered. -/

namespace SchemaReport

/-- A failure that ends the invocation without a response. -/
inductive InvocationError
  | stream (e : StreamError)
  | request (e : Wire.DecodeError)

def InvocationError.message : InvocationError → String
  | .stream e => "failed to read or write the plugin stream: " ++ e.message
  | .request e => "invalid CodeGeneratorRequest: " ++ e.message

def decodeRequest (bs : List UInt8) : Logged (Except InvocationError Request) := do
  match Wire.decode .request bs with
  | .error e => return .error (.request e)
  | .ok r =>
    let files := (Request.protoFiles r).length
    let chosen := (Request.filesToGenerate r).length
    Logged.note .debug .transport s!"decoded request: {files} files, {chosen} to generate"
    return .ok r

structure Outcome where
  result : Except InvocationError Unit
  /-- The bytes that reached the output. -/
  output : List UInt8
  flushed : Bool

def send (s : Sink) (bs : List UInt8) : Outcome :=
  let w := s.writeAll bs
  match w.result with
  | .error e => ⟨.error (.stream e), w.bytes, false⟩
  | .ok () => match s.flush with
    | .error e => ⟨.error (.stream e), w.bytes, false⟩
    | .ok () => ⟨.ok (), w.bytes, true⟩

def execute (input : Source) (output : Sink) : Logged Outcome := do
  match input.readAll with
  | .error e => return ⟨.error (.stream e), [], false⟩
  | .ok bs => match ← decodeRequest bs with
    | .error e => return ⟨.error e, [], false⟩
    | .ok r => return send output (Wire.encode (← respond r))

end SchemaReport
