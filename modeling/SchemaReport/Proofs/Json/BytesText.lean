import SchemaReport.Proofs.Json.Member

/-! Bytes in JSON. Every list of bytes has one text, which is read as these bytes wherever bytes are
asked for, and no other text is read as them: what is no canonical base64 is a wrong value. -/

namespace SchemaReport.Json

open Text

/-- The field of an option that holds bytes. -/
def stringValue : Field := .optional 7 "string_value" "stringValue" .bytes

/-- An option of which only the bytes are given, as the text `s`. -/
def bytesText (s : String) : List Char :=
  '{' :: literal stringValue.key.toList ++ ':' :: literal s.toList ++ ['}']

/-- The option that has only the bytes `b`. -/
def optionOfBytes (b : List UInt8) : Message .uninterpretedOption :=
  (Message.empty .uninterpretedOption).put stringValue (.optional (some b))

/-- Where bytes are asked for, the text `s` gives `r`: by every literal that stands for it, in a
field of any message, however deep it stands, and so in an option that has nothing else. -/
structure ReadsAsBytes (s : String) (r : ReadResult (List UInt8)) : Prop where
  slot : ∀ depth nested l, Literal.text l = .ok s →
    readSlot depth nested (.text l) stringValue.kind = r.map fun b => .optional (some b)
  text : read .uninterpretedOption (bytesText s) = r.map optionOfBytes

theorem bytesText_eq (s : String) : bytesText s = memberText stringValue (.text s) := by
  simp only [memberText_eq, bytesText, Value.print]

theorem write_optionOfBytes (b : List UInt8) :
    write none (optionOfBytes b) = bytesText (String.ofList (Base64.encode b)) := by
  have members : membersOf (optionOfBytes b) = [(stringValue.key, ofScalar .bytes b)] := rfl
  rw [write, ofMessage, members, bytesText_eq, memberText, ofScalar]

theorem readSlot_optional_text {l : Literal} {s : String} (h : l.text = .ok s) (depth : ℕ)
    (nested : Nested) (sc : Scalar) : readSlot depth nested (.text l) (.optional sc) =
      (scalarOf sc (.text s)).map fun v => .optional (some v) := by
  rw [readSlot_optional (by simp), readScalar_text h]

/-- What a scalar makes of the text is what it gives wherever it stands. -/
theorem readsAsBytes (s : String) : ReadsAsBytes s (scalarOf .bytes (.text s)) := by
  refine ⟨fun depth nested l h => readSlot_optional_text h depth nested .bytes, ?_⟩
  have known : stringValue ∈ MessageType.uninterpretedOption.fields := by
    simp [MessageType.fields, stringValue]
  rw [bytesText_eq, read_memberText known (.text s), Value.draft]
  show (readSlot _ _ (.text (.of s.toList)) (.optional .bytes)).map _ = _
  rw [readSlot_optional_text (text_of s)]
  cases scalarOf .bytes (.text s) <;> rfl

/-- A text gives one result. -/
theorem ReadsAsBytes.unique {s : String} {r r' : ReadResult (List UInt8)} (h : ReadsAsBytes s r)
    (h' : ReadsAsBytes s r') : r = r' := by
  have same := (h.slot 0 ⟨readMessage 0, readMessages 0⟩ _ (text_of s)).symm.trans
    (h'.slot 0 ⟨readMessage 0, readMessages 0⟩ _ (text_of s))
  cases r with
  | error e =>
    cases r' with
    | error e' => exact congrArg Except.error (Except.error.inj same)
    | ok b' => cases same
  | ok b =>
    cases r' with
    | error e' => cases same
    | ok b' =>
      have slots := Slot.optional.inj (Except.ok.inj same)
      exact congrArg Except.ok (Option.some.inj slots)

theorem readsAsBytes_iff {s : String} {r : ReadResult (List UInt8)} :
    ReadsAsBytes s r ↔ scalarOf .bytes (.text s) = r :=
  ⟨(readsAsBytes s).unique, fun h => h ▸ readsAsBytes s⟩

theorem readsAsBytes_ok_iff {s : String} {b : List UInt8} :
    ReadsAsBytes s (.ok b) ↔ Base64.decode s.toList = some b := by
  rw [readsAsBytes_iff, scalarOf, fit]
  cases Base64.decode s.toList <;> simp

theorem readsAsBytes_error_iff {s : String} :
    ReadsAsBytes s (.error (.wrongValue (.text s) (.scalar .bytes))) ↔
      Base64.decode s.toList = none := by
  rw [readsAsBytes_iff, scalarOf, fit]
  cases Base64.decode s.toList <;> simp

/-- Every list of bytes is written as a text. It is the only text that is read as these bytes, so
exactly the canonical texts are read, and all others are refused as wrong values. -/
theorem bytes_and_texts :
    (∀ b, ∃ s, ofScalar .bytes b = .text s ∧ write none (optionOfBytes b) = bytesText s) ∧
    (∀ s b, ReadsAsBytes s (.ok b) ↔ ofScalar .bytes b = .text s) ∧
    (∀ s, (∃ b, ReadsAsBytes s (.ok b)) ↔ Base64.IsCanonical s.toList) ∧
    (∀ s, ReadsAsBytes s (.error (.wrongValue (.text s) (.scalar .bytes))) ↔
      ¬ Base64.IsCanonical s.toList) := by
  refine ⟨fun b => ⟨_, rfl, write_optionOfBytes b⟩, fun s b => ?_, fun s => ?_, fun s => ?_⟩
  · rw [readsAsBytes_ok_iff, Base64.decode_eq_some_iff, ofScalar, Value.text.injEq]
    constructor
    · intro h
      rw [← h, String.ofList_toList]
    · intro h
      rw [← h, String.toList_ofList]
  · simp only [readsAsBytes_ok_iff]
    exact Base64.exists_decode_iff
  · rw [readsAsBytes_error_iff, ← Base64.exists_decode_iff, ← Option.isSome_iff_exists,
      Option.not_isSome_iff_eq_none]

end SchemaReport.Json
