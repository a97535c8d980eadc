import SchemaReport.CommandLine

/-! The command line of the plugin. -/

namespace SchemaReport

partial def readToEnd (s : IO.FS.Stream) (bytes : ByteArray) : IO ByteArray := do
  let piece ← s.read 65536
  if piece.isEmpty then return bytes else readToEnd s (bytes ++ piece)

end SchemaReport

def main : IO UInt32 := do
  let input ← SchemaReport.readToEnd (← IO.getStdin) .empty
  let result := SchemaReport.command (← IO.getEnv "RUST_LOG") input.toList
  let output ← IO.getStdout
  output.write result.output.toByteArray
  output.flush
  (← IO.getStderr).putStr result.errorText
  return result.exitCode.toUInt32
