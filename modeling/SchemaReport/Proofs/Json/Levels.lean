import SchemaReport.Proofs.Json.Nesting
import SchemaReport.Proofs.Json.Write
import SchemaReport.Proofs.Message.Depth

/-! Levels of messages against levels of JSON. A message in a list costs two levels of arrays and
objects, a single one costs one level. Below a request no more than two single messages can stand
inside each other, so its JSON form nests about twice as deep as its messages do. -/

namespace SchemaReport

/-- How many of the messages inside each other, from one in a message of this type on, can be single
ones: options, and the features in them. All other messages inside messages are in lists. -/
def MessageType.singles : MessageType → ℕ
  | .request | .file | .message | .extensionRange | .field | .oneof | .enumeration | .enumValue
  | .service | .method => 2
  | .extensionRangeOptions | .fileOptions | .messageOptions | .fieldOptions | .oneofOptions
  | .enumOptions | .enumValueOptions | .serviceOptions | .methodOptions => 1
  | .response | .generatedFile | .version | .reservedRange | .declaration | .enumReservedRange
  | .editionDefault | .featureSupport | .uninterpretedOption | .namePart | .featureSet
  | .sourceCodeInfo | .location => 0

def Kind.singles : Kind → ℕ
  | .required _ | .optional _ | .repeated _ _ => 0
  | .message t => t.singles + 1
  | .messages t => t.singles

theorem MessageType.singles_le (t : MessageType) : ∀ f ∈ t.fields, f.kind.singles ≤ t.singles := by
  cases t <;> decide

namespace Json

/-- How deep the value of a slot nests, if it has one. -/
def slotNesting {k : Kind} (s : Slot k) : ℕ := (slotValue? s).elim 0 Value.nesting

theorem ofScalar_nesting (s : Scalar) (v : s.Value) : (ofScalar s v).nesting = 0 := by
  cases s with
  | double =>
    rw [ofScalar, ofDouble]
    split_ifs <;> rfl
  | enum e =>
    rw [ofScalar]
    split <;> rfl
  | _ => rfl

theorem itemsNesting_scalars {s : Scalar} (vs : List s.Value) :
    itemsNesting (vs.map (ofScalar s)) = 0 := by
  induction vs with
  | nil => rfl
  | cons v vs ih => rw [List.map_cons, itemsNesting, ofScalar_nesting, ih, Nat.max_self]

theorem membersNesting_cons {f : Field} {fs : List Field} (s : Slot f.kind) (r : Record fs) :
    membersNesting (membersOf (.cons s r)) =
      max (slotNesting s) (membersNesting (membersOf r)) := by
  rw [membersOf, slotNesting]
  cases slotValue? s with
  | none => exact (Nat.zero_max _).symm
  | some v => rfl

@[simp] theorem slotNesting_required {s : Scalar} (v : s.Value) :
    slotNesting (.required v) = 0 := ofScalar_nesting s v

@[simp] theorem slotNesting_optional {s : Scalar} (v : Option s.Value) :
    slotNesting (.optional v) = 0 := by
  cases v with
  | none => rfl
  | some v => exact ofScalar_nesting s v

theorem slotNesting_repeated_le {s : Scalar} {packed : Bool} (vs : List s.Value) :
    slotNesting (.repeated vs : Slot (.repeated s packed)) ≤ 1 := by
  rw [slotNesting, slotValue?]
  split_ifs
  · exact Nat.zero_le 1
  · rw [Option.elim_some, Value.nesting, itemsNesting_scalars]

@[simp] theorem slotNesting_present {t : MessageType} (m : Message t) :
    slotNesting (.present m) = membersNesting (membersOf m) + 1 := rfl

@[simp] theorem slotNesting_messages_cons {t : MessageType} (m : Message t) (ms : Messages t) :
    slotNesting (.messages (.cons m ms)) = itemsNesting (itemsOf (.cons m ms)) + 1 := rfl

mutual

theorem membersNesting_le : {fs : List Field} → (r : Record fs) →
    membersNesting (membersOf r) ≤ 2 * r.depth + 1
  | _, .nil => Nat.zero_le _
  | _, .cons s r => by
    have head := slotNesting_le s
    have rest := membersNesting_le r
    rw [membersNesting_cons, Record.depth]
    omega

theorem slotNesting_le : {k : Kind} → (s : Slot k) → slotNesting s ≤ 2 * s.depth + 1
  | _, .required v => by simp
  | _, .optional v => by simp
  | _, .repeated vs => slotNesting_repeated_le vs
  | _, .absent => Nat.zero_le _
  | _, .present m => by
    have below := membersNesting_le m
    rw [slotNesting_present, Slot.depth]
    omega
  | _, .messages .nil => Nat.zero_le _
  | _, .messages (.cons m ms) => by
    have below := itemsNesting_le (.cons m ms)
    rw [slotNesting_messages_cons, Slot.depth]
    omega

theorem itemsNesting_le : {t : MessageType} → (ms : Messages t) →
    itemsNesting (itemsOf ms) ≤ 2 * ms.depth
  | _, .nil => Nat.zero_le _
  | _, .cons m ms => by
    have head := membersNesting_le m
    have rest := itemsNesting_le ms
    rw [itemsOf, itemsNesting, Value.nesting, Messages.depth]
    omega

end

mutual

theorem two_mul_depth_le_members {c : ℕ} : {fs : List Field} → (r : Record fs) →
    (∀ f ∈ fs, f.kind.singles ≤ c) → 2 * r.depth ≤ membersNesting (membersOf r) + c
  | _, .nil, _ => Nat.zero_le _
  | f :: _, .cons s r, h => by
    have head := two_mul_depth_le_slot s
    have single := h f (by simp)
    have rest := two_mul_depth_le_members r fun g hg => h g (by simp [hg])
    rw [membersNesting_cons, Record.depth]
    omega

theorem two_mul_depth_le_slot : {k : Kind} → (s : Slot k) →
    2 * s.depth ≤ slotNesting s + k.singles
  | _, .required _ => Nat.zero_le _
  | _, .optional _ => Nat.zero_le _
  | _, .repeated _ => Nat.zero_le _
  | _, .absent => Nat.zero_le _
  | .message t, .present m => by
    have below := two_mul_depth_le_members m t.singles_le
    rw [slotNesting_present, Slot.depth, Kind.singles]
    omega
  | _, .messages .nil => Nat.zero_le _
  | .messages t, .messages (.cons m ms) => by
    have below := two_mul_depth_le_items (.cons m ms)
    rw [slotNesting_messages_cons, Slot.depth, Kind.singles]
    omega

theorem two_mul_depth_le_items : {t : MessageType} → (ms : Messages t) →
    2 * ms.depth ≤ itemsNesting (itemsOf ms) + 1 + t.singles
  | _, .nil => Nat.zero_le _
  | t, .cons m ms => by
    have head := two_mul_depth_le_members m t.singles_le
    have rest := two_mul_depth_le_items ms
    rw [itemsOf, itemsNesting, Value.nesting, Messages.depth]
    omega

end

/-- Each level of messages is at most two levels of arrays and objects. -/
theorem ofMessage_nesting_le {t : MessageType} (m : Message t) :
    (ofMessage m).nesting ≤ 2 * Record.depth m + 2 := by
  have below := membersNesting_le m
  rw [ofMessage, Value.nesting]
  omega

/-- Each level of messages is at least two levels of arrays and objects, but for single ones. -/
theorem two_mul_depth_lt_nesting {t : MessageType} (m : Message t) :
    2 * Record.depth m < (ofMessage m).nesting + t.singles := by
  have below := two_mul_depth_le_members m t.singles_le
  rw [ofMessage, Value.nesting]
  omega

end Json

end SchemaReport
