import SchemaReport.Proofs.Json.Read

/-! Messages of which one field is given. The text of an object with a single member is read as the
empty message with the slot that the value of the member is read as. -/

namespace SchemaReport.Json

theorem readMembers_singleton {fs : List Field} (hd : DistinctNumbers fs)
    (hk : (fs.map Field.key).Nodup) {f : Field} (hf : f ∈ fs)
    (slot : Draft → (k : Kind) → ReadResult (Slot k)) (d : Draft) (r : Record fs) :
    readMembers slot .closed [] r [(.of f.key.toList, d)] = (slot d f.kind).map (r.put f) := by
  rw [readMembers, readKey_of List.not_mem_nil]
  show Except.bind (.ok f.key) _ = _
  rw [Except.bind, readMember_key hd hk hf]
  show (do return r.put f (← slot d f.kind)) >>= _ = _
  cases slot d f.kind <;> rfl

/-- The object of a single member, whose value has the text `cs`. -/
def fieldText (f : Field) (cs : List Char) : List Char :=
  '{' :: literal f.key.toList ++ ':' :: cs ++ ['}']

theorem writes_fieldText (f : Field) {d : Draft} {cs : List Char} (h : WritesElement d cs) :
    Writes (.object [(.of f.key.toList, d)] .closed) (fieldText f cs) := by
  have key := writesLiteral_literal f.key.toList
  have member := Writes.object (.one (.mk isBlank_nil key isBlank_nil h))
  simpa only [fieldText, List.nil_append, List.append_assoc, List.cons_append] using member

theorem read_fieldText {t : MessageType} {f : Field} (hf : f ∈ t.fields) {d : Draft}
    {cs : List Char} (h : WritesElement d cs) : read t (fieldText f cs) =
      (readSlot 126 ⟨readMessage 126, readMessages 126⟩ d f.kind).map
        ((Message.empty t).put f) := by
  have nothing : EndsNumber [] := by simp [EndsNumber]
  have scanned := (writes_fieldText f h).scan (2 * (fieldText f cs).length + 1) [] nothing (by omega)
  rw [List.append_nil] at scanned
  rw [read, scan, scanned]
  show readMembers _ .closed [] _ _ >>= _ = _
  rw [readMembers_singleton t.distinctNumbers t.nodup_keys hf]
  cases readSlot 126 ⟨readMessage 126, readMessages 126⟩ d f.kind <;> rfl

/-- The object of a single member, on one line. -/
def memberText (f : Field) (v : Value) : List Char := (Value.object [(f.key, v)]).print none 0

theorem memberText_eq (f : Field) (v : Value) :
    memberText f v = '{' :: literal f.key.toList ++ ':' :: v.print none 1 ++ ['}'] := by
  simp only [memberText, Value.print, printMember, printMembers, newline, colon, List.cons_append,
    List.append_assoc, List.nil_append]

theorem read_memberText {t : MessageType} {f : Field} (hf : f ∈ t.fields) {v : Value}
    (hv : v.IsWritable) : read t (memberText f v) =
      (readSlot 126 ⟨readMessage 126, readMessages 126⟩ v.draft f.kind).map
        ((Message.empty t).put f) := by
  have value := WritesElement.mk isBlank_nil (hv.writes (l := none) 1) isBlank_nil
  rw [List.nil_append, List.append_nil] at value
  rw [memberText_eq]
  exact read_fieldText hf value

end SchemaReport.Json
