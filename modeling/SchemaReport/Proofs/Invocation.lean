import SchemaReport.Invocation
import SchemaReport.Proofs.Stream
import SchemaReport.Proofs.Wire.RoundTrip

/-! One invocation over any streams. Unless the request cannot be read nothing is lost of the
response but what the sink refuses, and neither the pieces of the input nor the portions of the
output change the outcome. No generator fails, so the response to every request holds all the
files. -/

namespace SchemaReport

/-! ### The response -/

theorem GeneratedFile.depth_eq_zero : (f : GeneratedFile) → Record.depth f = 0
  | .cons (.optional _) (.cons (.optional _) (.cons (.optional _) .nil)) => rfl

/-- The messages of a response are its files. -/
theorem Response.depth_le_one : (p : Response) → Record.depth p ≤ 1
  | .cons (.optional _) (.cons (.optional _) (.cons (.messages files) .nil)) => by
    have depth : files.depth ≤ 1 := by
      rw [← Messages.ofList_toList files]
      generalize files.toList = fs
      induction fs with
      | nil => exact Nat.zero_le 1
      | cons f fs ih =>
        have leaf := GeneratedFile.depth_eq_zero f
        exact Nat.max_le.mpr ⟨Nat.succ_le_succ leaf.le, ih⟩
    simpa [Record.depth, Slot.depth] using depth

/-! ### Sending -/

theorem send_of_written {s : Sink} {bs : List UInt8} (h : s.writeAll bs = ⟨bs, .ok ()⟩) :
    send s bs = ⟨s.flush.mapError .stream, bs, s.flushFault?.isNone⟩ := by
  rw [send, h, Sink.flush]
  cases s.flushFault? <;> rfl

theorem value_execute (input : Source) (output : Sink) :
    (execute input output).value = match input.readAll with
      | .error e => ⟨.error (.stream e), [], false⟩
      | .ok bs => match Wire.decode .request bs with
        | .error e => ⟨.error (.request e), [], false⟩
        | .ok r => send output (Wire.encode (respond r).value) := by
  unfold execute
  cases input.readAll with
  | error e => rfl
  | ok bs =>
    simp only [Logged.value_bind, decodeRequest]
    cases Wire.decode .request bs <;> rfl

/-- Of the input only the message that it stands for matters, and how the stream ends. -/
theorem execute_congr {input input' : Source} {bs bs' : List UInt8} {failure? : Option String}
    (h : input.Yields bs failure?) (h' : input'.Yields bs' failure?)
    (same : Wire.decode .request bs = Wire.decode .request bs') (output : Sink) :
    execute input output = execute input' output := by
  unfold execute
  rw [h.readAll_eq, h'.readAll_eq]
  cases failure? with
  | some reason => rfl
  | none => simp only [Option.elim_none, decodeRequest, same]

/-- A request that has a parameter only, in pieces of one and two bytes. -/
def pieces : Source := [.interrupted, .bytes [0x12], .bytes [0x01, 0x61]]

/-- Has room for three bytes, and takes no more than two at a time. -/
def narrow : Sink where
  next taken := if taken < 3 then .upTo (min 2 (3 - taken)) else .failed "full"
  flushFault? := none

end SchemaReport
