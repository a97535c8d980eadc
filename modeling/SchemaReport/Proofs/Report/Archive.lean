import SchemaReport.Proofs.Json.Accepted
import SchemaReport.Proofs.Report.Dump
import SchemaReport.Proofs.Wire.RoundTrip

/-! Requests between bytes and dumps. The two readers have limits that do not agree: bytes may nest
messages a hundred deep, but a dump takes about two levels of arrays and objects for each, and of
those its reader allows no more than 127. So a request from a text always passes through both
formats, and one from bytes comes back from its dump only if it stands at most about 63 deep. -/

namespace SchemaReport.Dump

theorem read_text (r : Request) (o : Options) : Json.read .request (text r o).toList =
    Json.within Json.depthLimit (Json.ofMessage r).nesting r.standard := by
  rw [toList_text, Json.read_write, Json.write, Json.nesting_print]

theorem read_text_of_nesting_le {r : Request} (h : (Json.ofMessage r).nesting ≤ 127)
    (o : Options) : Json.read .request (text r o).toList = .ok r.standard := by
  rw [read_text]
  exact if_pos h

theorem read_text_of_lt_nesting {r : Request} (h : 127 < (Json.ofMessage r).nesting)
    (o : Options) : Json.read .request (text r o).toList = .error (.fault .tooDeep) := by
  rw [read_text]
  exact if_neg (Nat.not_le.mpr h)

/-- A request that was read from a text comes back, bit for bit, from its bytes and from its dump in
any layout. Lengths are integers of 64 bits: no message is longer. -/
theorem request_of_text_survives {cs : List Char} {r : Request}
    (h : Json.read .request cs = .ok r) :
    ((Wire.encode r).length < 2 ^ 64 → Wire.decode .request (Wire.encode r) = .ok r) ∧
      ∀ o, ∃ t, (generator.generate r o).value = .ok t ∧ Json.read .request t.toList = .ok r := by
  refine ⟨fun fits => ?_, fun o => ⟨text r o, rfl, ?_⟩⟩
  · have shallow : Record.depth r ≤ Wire.depthLimit := by
      have half := Json.depth_of_read h
      simp only [Json.depthLimit, MessageType.singles, Wire.depthLimit] at half ⊢
      omega
    exact Wire.mergeWithin_encode r shallow fits
  · rw [toList_text]
    exact Json.read_write_of_read h (layout o)

/-- The first two fields in their order: no files to generate, and a parameter. -/
def textOfParameter : List Char := "[[], \"a\"]".toList

def withParameter : Request :=
  (Message.empty .request).put (.optional 2 "parameter" "parameter" .string) (.optional (some "a"))

theorem request_of_text_survives_parameter :
    Json.read .request textOfParameter = .ok withParameter ∧
      Wire.decode .request (Wire.encode withParameter) = .ok withParameter ∧
      ∀ o, ∃ t, (generator.generate withParameter o).value = .ok t ∧
        Json.read .request t.toList = .ok withParameter := by
  have read : Json.read .request textOfParameter = .ok withParameter := by cbv
  obtain ⟨bytes, dump⟩ := request_of_text_survives read
  exact ⟨read, bytes (by decide +kernel), dump⟩

/-- A request from bytes comes back from its dump with its NaNs made standard, unless the dump nests
too deep to be read. It never does if messages stand at most 62 deep, and always if they stand more
than 64 deep, though bytes may hold messages that stand 100 deep. -/
theorem dump_of_bytes_by_depth {bs : List UInt8} {r : Request}
    (h : Wire.decode .request bs = .ok r) (o : Options) :
    Record.depth r ≤ 100 ∧ ∃ t, (generator.generate r o).value = .ok t ∧
      ((Json.read .request t.toList = .ok r.standard ∧ Json.nesting t.toList ≤ 127) ∨
        (Json.read .request t.toList = .error (.fault .tooDeep) ∧ 127 < Json.nesting t.toList)) ∧
      (Record.depth r ≤ 62 → Json.read .request t.toList = .ok r.standard) ∧
      (64 < Record.depth r → Json.read .request t.toList = .error (.fault .tooDeep)) := by
  have nesting : Json.nesting (text r o).toList = (Json.ofMessage r).nesting := by
    rw [toList_text, Json.write, Json.nesting_print]
  refine ⟨Wire.depth_le_of_decode h, text r o, rfl, ?_, fun shallow => ?_, fun deep => ?_⟩
  · rw [nesting]
    rcases Nat.lt_or_ge 127 (Json.ofMessage r).nesting with deep | shallow
    · exact .inr ⟨read_text_of_lt_nesting deep o, deep⟩
    · exact .inl ⟨read_text_of_nesting_le shallow o, shallow⟩
  · refine read_text_of_nesting_le ?_ o
    have above := Json.ofMessage_nesting_le r
    omega
  · refine read_text_of_lt_nesting ?_ o
    have below := Json.two_mul_depth_lt_nesting r
    rw [MessageType.singles] at below
    omega

/-- A message with `n` others inside each other. -/
def chain : (n : ℕ) → MessageDescriptor
  | 0 => Message.empty .message
  | n + 1 =>
    (Message.empty .message).put (.messages 3 "nested_type" "nestedType" .message)
      (.messages (.ofList [chain n]))

/-- The chain of 64 messages, in a file. -/
def chained : Request :=
  let file : FileDescriptor :=
    (Message.empty .file).put (.messages 4 "message_type" "messageType" .message)
      (.messages (.ofList [chain 63]))
  (Message.empty .request).put (.messages 15 "proto_file" "protoFile" .file)
    (.messages (.ofList [file]))

theorem decode_encode_chained : Wire.decode .request (Wire.encode chained) = .ok chained := by
  have shallow : Record.depth chained ≤ 100 := by decide +kernel
  exact Wire.mergeWithin_encode chained shallow (by decide +kernel)

theorem dump_of_chained : Wire.decode .request (Wire.encode chained) = .ok chained ∧
    ∀ o, ∃ t, (generator.generate chained o).value = .ok t ∧
      Json.read .request t.toList = .error (.fault .tooDeep) := by
  have deep : 64 < Record.depth chained := by decide +kernel
  refine ⟨decode_encode_chained, fun o => ?_⟩
  obtain ⟨-, t, ht, -, -, refused⟩ := dump_of_bytes_by_depth decode_encode_chained o
  exact ⟨t, ht, refused deep⟩

/-- Bytes that are accepted do not always have a dump that is. -/
theorem not_forall_dump_is_read : ¬ ∀ bs r o, Wire.decode .request bs = .ok r →
    ∃ t r', (generator.generate r o).value = .ok t ∧ Json.read .request t.toList = .ok r' := by
  intro all
  have deep : 127 < (Json.ofMessage chained).nesting := by decide +kernel
  obtain ⟨t, r', ht, hr⟩ := all _ chained .standard decode_encode_chained
  obtain rfl : text chained .standard = t := Except.ok.inj ht
  rw [read_text_of_lt_nesting deep] at hr
  cases hr

end SchemaReport.Dump
