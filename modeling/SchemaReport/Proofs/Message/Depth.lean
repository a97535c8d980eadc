import SchemaReport.Proofs.Message.Slots

/-! How deep messages stand below a message: none without nested messages, and otherwise one more
than the deepest of them. -/

namespace SchemaReport

mutual

/-- How many levels of nested messages there are below the fields of the record. -/
def Record.depth : {fs : List Field} → Record fs → ℕ
  | _, .nil => 0
  | _, .cons s r => max s.depth r.depth

def Slot.depth : {k : Kind} → Slot k → ℕ
  | _, .required _ | _, .optional _ | _, .repeated _ | _, .absent => 0
  | _, .present m => m.depth + 1
  | _, .messages ms => ms.depth

def Messages.depth : {t : MessageType} → Messages t → ℕ
  | _, .nil => 0
  | _, .cons m ms => max (m.depth + 1) ms.depth

end

@[simp] theorem Slot.depth_empty (k : Kind) : (Slot.empty k).depth = 0 := by cases k <;> rfl

@[simp] theorem Record.depth_empty (fs : List Field) : (Record.empty fs).depth = 0 := by
  induction fs with
  | nil => rfl
  | cons f fs ih => rw [empty, depth, Slot.depth_empty, ih, Nat.max_self]

theorem Message.depth_empty (t : MessageType) : Record.depth (empty t) = 0 :=
  Record.depth_empty t.fields

theorem Record.depth_slotOf_le {fs : List Field} (hd : DistinctNumbers fs) (r : Record fs)
    {f : Field} (hf : f ∈ fs) : (r.slotOf f).depth ≤ r.depth := by
  induction fs with
  | nil => simp at hf
  | cons g fs ih =>
    cases r with
    | cons s r =>
      rw [depth]
      rcases List.mem_cons.mp hf with rfl | hf
      · rw [slotOf_cons_self]
        exact Nat.le_max_left _ _
      · rw [slotOf_cons_of_ne _ _ (hd.number_ne_of_mem hf)]
        exact Nat.le_trans (ih hd.tail r hf) (Nat.le_max_right _ _)

theorem Messages.depth_lt_of_mem {t : MessageType} {m : Message t} : {ms : Messages t} →
    m ∈ ms.toList → Record.depth m < ms.depth
  | .cons m' ms, h => by
    rw [depth]
    rcases List.mem_cons.mp h with rfl | h
    · omega
    · have := depth_lt_of_mem h
      omega

theorem Messages.depth_add {t : MessageType} (m : Message t) : (ms : Messages t) →
    (ms.add m).depth = max ms.depth (Record.depth m + 1)
  | .nil => by
    rw [add, depth, depth, depth, Nat.max_comm]
  | .cons m' ms => by
    rw [add, depth, depth, depth_add m ms]
    omega

end SchemaReport
