import SchemaReport.Proofs.Message.Depth
import SchemaReport.Proofs.Wire.Reader

/-! Levels of nesting while messages are read from bytes. A reader with more levels to go accepts
all that one with fewer accepts, with the same result, and no reader gives a message that stands
deeper than its levels, however the message came together. -/

namespace SchemaReport.Wire

/-- The message `m` with all fields of the bytes, nested ones up to `n` levels deep. -/
def mergeWithin (n : ℕ) {t : MessageType} (m : Message t) (bs : List UInt8) :
    Except DecodeError (Message t) :=
  (readUntil (mergeField n (mergeNested n)) 0 bs.length m).run' (.ofList bs)

theorem decode_eq (t : MessageType) (bs : List UInt8) :
    decode t bs = mergeWithin depthLimit (.empty t) bs := rfl

/-- The fields are read in a loop over all bytes. -/
theorem mergeWithin_eq_ok {n : ℕ} {t : MessageType} {m m' : Message t} {bs : List UInt8} :
    mergeWithin n m bs = .ok m' ↔
      ∃ j, readUntil (mergeField n (mergeNested n)) 0 bs.length m (.ofList bs) = .ok (m', j) := by
  show (readUntil _ _ _ _ _).map Prod.fst = _ ↔ _
  cases readUntil (mergeField n (mergeNested n)) 0 bs.length m (.ofList bs) with
  | error e =>
    constructor
    · rintro ⟨⟩
    · rintro ⟨j, ⟨⟩⟩
  | ok x =>
    constructor
    · rintro ⟨⟩
      exact ⟨x.2, rfl⟩
    · rintro ⟨j, ⟨⟩⟩
      rfl

/-- Bytes that are fields one after the other are read as these, with nothing behind them. -/
theorem mergeWithin_of_steps {n : ℕ} {t : MessageType} {m m' : Message t} {bs : List UInt8}
    (h : Steps (mergeField n (mergeNested n)) bs m m') : mergeWithin n m bs = .ok m' := by
  have read := h.readUntil [] (Nat.le_refl _)
  rw [List.append_nil] at read
  exact mergeWithin_eq_ok.mpr ⟨.ofList [], read⟩

/-! ### More levels -/

theorem skipGroup_refines {skip skip' : Key → Reader Unit} (h : ∀ k, Refines (skip k) (skip' k))
    (n fuel : ℕ) : Refines (skipGroup skip n fuel) (skipGroup skip' n fuel) := by
  induction fuel with
  | zero => exact .refl _
  | succ fuel ih =>
    refine .bind_right _ fun k => ?_
    split_ifs
    · exact .refl _
    · exact .refl _
    · exact (h k).bind fun _ => ih

theorem skip_refines (n : ℕ) (k : Key) : Refines (skip n k) (skip (n + 1) k) := by
  induction n generalizing k with
  | zero => exact .fail _ _
  | succ n ih =>
    rw [skip, skip]
    cases k.type with
    | startGroup => exact .bind_right _ fun i => skipGroup_refines ih _ _
    | _ => exact .refl _

/-- Nested messages are read as another way of reading them reads them, wherever that does. -/
def RefinesNested (nested nested' : Nested) : Prop :=
  ∀ (t : MessageType) (m : Message t), Refines (nested t m) (nested' t m)

theorem mergeSlot_refines {nested nested' : Nested} (h : RefinesNested nested nested')
    (w : WireType) {k : Kind} (s : Slot k) :
    Refines (mergeSlot nested w s) (mergeSlot nested' w s) := by
  cases s with
  | required v => exact .refl _
  | optional v => exact .refl _
  | repeated vs => exact .refl _
  | absent => exact .bind_right _ fun _ => (h _ _).bind fun _ => .refl _
  | present m => exact .bind_right _ fun _ => (h _ _).bind fun _ => .refl _
  | messages ms => exact .bind_right _ fun _ => (h _ _).bind fun _ => .refl _

theorem mergeRecord_refines {nested nested' : Nested} (h : RefinesNested nested nested')
    {skip skip' : Key → Reader Unit} (hs : ∀ k, Refines (skip k) (skip' k)) (owner : MessageType)
    (k : Key) {fs : List Field} (r : Record fs) :
    Refines (mergeRecord nested skip owner k r) (mergeRecord nested' skip' owner k r) := by
  induction fs with
  | nil =>
    cases r
    exact (hs k).bind fun _ => .refl _
  | cons f fs ih =>
    cases r with
    | cons s r =>
      rw [mergeRecord, mergeRecord]
      split_ifs
      · exact ((mergeSlot_refines h k.type s).inside owner f).bind fun _ => .refl _
      · exact (ih r).bind fun _ => .refl _

theorem mergeField_refines {nested nested' : Nested} (h : RefinesNested nested nested') (n : ℕ)
    {t : MessageType} (m : Message t) :
    Refines (mergeField n nested m) (mergeField (n + 1) nested' m) :=
  .bind_right _ fun k => mergeRecord_refines h (skip_refines n) t k m

theorem mergeNested_refines (n : ℕ) : RefinesNested (mergeNested n) (mergeNested (n + 1)) := by
  induction n with
  | zero => exact fun _ _ => .fail _ _
  | succ n ih => exact fun t m => .readFrame (mergeField_refines ih n) m

theorem mergeWithin_succ {n : ℕ} {t : MessageType} {m m' : Message t} {bs : List UInt8}
    (h : mergeWithin n m bs = .ok m') : mergeWithin (n + 1) m bs = .ok m' := by
  have refines := Refines.readUntil (mergeField_refines (mergeNested_refines n) n (t := t)) 0
    bs.length m
  obtain ⟨j, hj⟩ := mergeWithin_eq_ok.mp h
  exact mergeWithin_eq_ok.mpr ⟨j, refines _ _ hj⟩

theorem mergeWithin_mono {n n' : ℕ} (hn : n ≤ n') {t : MessageType} {m m' : Message t}
    {bs : List UInt8} (h : mergeWithin n m bs = .ok m') : mergeWithin n' m bs = .ok m' := by
  induction hn with
  | refl => exact h
  | step _ ih => exact mergeWithin_succ ih

/-! ### Depth of what is read -/

/-- Nested messages that stand less than `d` levels deep still do when more is read into them. -/
def KeepsBelow (d : ℕ) (nested : Nested) : Prop :=
  ∀ (t : MessageType) (m : Message t), m.depth ≤ d - 1 → Ensures (·.depth < d) (nested t m)

theorem mergeSlot_ensures {d : ℕ} {nested : Nested} (h : KeepsBelow d nested) (w : WireType)
    {k : Kind} (s : Slot k) (hs : s.depth ≤ d) :
    Ensures (·.depth ≤ d) (mergeSlot nested w s) := by
  cases s with
  | required v => exact .of_bind fun _ => .pure (Nat.zero_le d)
  | optional v => exact .of_bind fun _ => .pure (Nat.zero_le d)
  | repeated vs =>
    rw [mergeSlot]
    split_ifs
    · exact .of_bind fun _ => .pure (Nat.zero_le d)
    · exact .of_bind fun _ => .pure (Nat.zero_le d)
  | @absent t =>
    have start : Record.depth (Message.empty t) ≤ d - 1 := by simp [Message.depth_empty]
    exact .of_bind fun _ => (h t _ start).bind fun m hm => .pure hm
  | @present t m =>
    have start : m.depth ≤ d - 1 := Nat.le_sub_one_of_lt hs
    exact .of_bind fun _ => (h t _ start).bind fun m hm => .pure hm
  | @messages t ms =>
    have start : Record.depth (Message.empty t) ≤ d - 1 := by simp [Message.depth_empty]
    refine .of_bind fun _ => (h t _ start).bind fun m hm => .pure ?_
    show (ms.add m).depth ≤ d
    rw [Messages.depth_add]
    exact Nat.max_le.mpr ⟨hs, hm⟩

theorem mergeRecord_ensures {d : ℕ} {nested : Nested} (h : KeepsBelow d nested)
    {skip : Key → Reader Unit} (owner : MessageType) (k : Key) {fs : List Field} (r : Record fs)
    (hr : r.depth ≤ d) : Ensures (·.depth ≤ d) (mergeRecord nested skip owner k r) := by
  induction fs with
  | nil =>
    cases r
    exact .of_bind fun _ => .pure (Nat.zero_le d)
  | cons f fs ih =>
    cases r with
    | cons s r =>
      obtain ⟨hs, hr⟩ := Nat.max_le.mp hr
      rw [mergeRecord]
      split_ifs
      · exact ((mergeSlot_ensures h k.type s hs).inside owner f).bind fun s hs =>
          .pure (Nat.max_le.mpr ⟨hs, hr⟩)
      · exact (ih r hr).bind fun r hr => .pure (Nat.max_le.mpr ⟨hs, hr⟩)

theorem mergeField_ensures {d : ℕ} {nested : Nested} (h : KeepsBelow d nested) (n : ℕ)
    {t : MessageType} (m : Message t) (hm : m.depth ≤ d) :
    Ensures (·.depth ≤ d) (mergeField n nested m) :=
  .of_bind fun k => mergeRecord_ensures h t k m hm

theorem mergeNested_keepsBelow (n : ℕ) : KeepsBelow n (mergeNested n) := by
  induction n with
  | zero => exact fun _ _ _ => .fail _
  | succ n ih =>
    intro t m hm
    exact (Ensures.readFrame (mergeField_ensures ih n) hm).mono fun _ => Nat.lt_succ_of_le

/-- What is read with `n` levels stands at most `n` deep. -/
theorem depth_le_of_mergeWithin {n : ℕ} {t : MessageType} {m m' : Message t} {bs : List UInt8}
    (hm : m.depth ≤ n) (h : mergeWithin n m bs = .ok m') : m'.depth ≤ n := by
  have bound := Ensures.readUntil (mergeField_ensures (mergeNested_keepsBelow n) n) 0 bs.length hm
  obtain ⟨j, hj⟩ := mergeWithin_eq_ok.mp h
  exact bound _ m' j hj

end SchemaReport.Wire
