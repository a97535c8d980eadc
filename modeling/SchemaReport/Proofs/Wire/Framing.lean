import SchemaReport.Proofs.Wire.Concatenation

/-! Nested messages by themselves. The fields of a nested message may run past its end, as their
lengths are held against all bytes that are left; but no such message is accepted. What is accepted
is accepted for the bytes of the block alone, and what stands behind the block has no part in it. -/

namespace SchemaReport.Wire

/-- A length of any form, the bytes `p` of that length and further bytes are read as a nested
message just when `p` alone can be merged one level further down: with the same result, and with all
behind `p` still to be read. -/
theorem mergeNested_iff_mergeWithin (n : ℕ) {t : MessageType} (m : Message t)
    (p rest : List UInt8) :
    (p.length < 2 ^ 64 → IsVarint (varint p.length) p.length) ∧
      ∀ ls, IsVarint ls p.length → ∀ m' j,
        mergeNested (n + 1) t m (.ofList (ls ++ p ++ rest)) = .ok (m', j) ↔
          mergeWithin n m p = .ok m' ∧ j = .ofList rest := by
  refine ⟨isVarint_varint, fun ls hl m' j => ⟨fun h => ?_, ?_⟩⟩
  · have settled := local_mergeField (local_mergeNested n) n (t := t)
    obtain ⟨ls', p', same, hl', steps⟩ := frame_of_readFrame settled h
    change ls ++ p ++ rest = _ at same
    rw [List.append_assoc, List.append_assoc] at same
    -- Both ways to split the input begin with its length, and so they agree.
    obtain ⟨-, length, behind⟩ := hl.reads.unique hl'.reads same
    obtain ⟨rfl, rfl⟩ := List.append_inj behind length
    exact ⟨mergeWithin_of_steps steps, j.eq_ofList⟩
  · rintro ⟨h, rfl⟩
    exact (steps_of_mergeWithin h).readFrame hl.reads rest

/-- A message without fields, and one of name `A`. -/
def unnamed : Message .message := .empty .message

def namedA : Message .message :=
  unnamed.put (.optional 1 "name" "name" .string) (.optional (some "A"))

/-- A name is read from its block and from no further; one that claims a byte behind its block is
refused, although the byte is there. -/
theorem mergeNested_named :
    mergeNested 1 .message unnamed (.ofList [3, 10, 1, 65, 66]) = .ok (namedA, .ofList [66]) ∧
      ∀ m j, mergeNested 1 .message unnamed (.ofList [0x83, 0, 10, 2, 65, 66]) ≠ .ok (m, j) := by
  have alone : mergeWithin 0 unnamed [10, 1, 65] = .ok namedA := rfl
  have short : ∀ m, mergeWithin 0 unnamed [10, 2, 65] ≠ .ok m := by
    intro m h
    cases h
  have long : IsVarint [0x83, 0] 3 := .more (by decide) (.last (by decide) (by decide))
  refine ⟨?_, fun m j h => ?_⟩
  · have framed := mergeNested_iff_mergeWithin 0 unnamed [10, 1, 65] [66]
    exact (framed.2 [3] (framed.1 (by decide)) namedA _).mpr ⟨alone, rfl⟩
  · have framed := mergeNested_iff_mergeWithin 0 unnamed [10, 2, 65] [66]
    exact short m ((framed.2 _ long m j).mp h).1

end SchemaReport.Wire
