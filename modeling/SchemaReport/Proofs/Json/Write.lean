import SchemaReport.Json.Write
import SchemaReport.Proofs.Json.Nesting
import SchemaReport.Proofs.Message.NaN

/-! What is written for a message: its numbers all have a text, every NaN is written alike, and the
members of its object are the fields that hold something, in the order of declaration. -/

namespace SchemaReport.Json

theorem ofScalar_ne_null (s : Scalar) (v : s.Value) : ofScalar s v ≠ .null := by
  cases s with
  | double =>
    rw [ofScalar, ofDouble]
    split_ifs <;> simp
  | enum e =>
    rw [ofScalar]
    split <;> simp
  | _ => simp [ofScalar]

theorem ofDouble_isWritable (d : Double) : (ofDouble d).IsWritable := by
  unfold ofDouble
  split_ifs with hn hi
  · exact .text _
  · exact .text _
  · exact .text _
  · have finite : d.IsFinite :=
      d.isFinite_iff.mpr ⟨Bool.eq_false_iff.mpr hn, Bool.eq_false_iff.mpr hi⟩
    exact .number (n := .double d) finite

theorem int32_isWritable (i : Int32) : (Number.int i.toInt).IsWritable := by
  have lo := i.le_toInt
  have hi := i.toInt_lt
  constructor <;> omega

theorem ofScalar_isWritable (s : Scalar) (v : s.Value) : (ofScalar s v).IsWritable := by
  cases s with
  | string => exact .text _
  | bytes => exact .text _
  | bool => exact .bool _
  | int32 => exact .number (int32_isWritable v)
  | int64 =>
    have lo := Int64.le_toInt v
    have hi := Int64.toInt_lt v
    exact .number ⟨by omega, by omega⟩
  | uint64 =>
    have hi := UInt64.toNat_lt v
    exact .number ⟨by omega, by omega⟩
  | double => exact ofDouble_isWritable v
  | enum e =>
    rw [ofScalar]
    split
    · exact .text _
    · exact .number (int32_isWritable v)

mutual

theorem membersOf_isWritable : {fs : List Field} → (r : Record fs) →
    ∀ m ∈ membersOf r, m.2.IsWritable
  | _, .nil => by simp [membersOf]
  | f :: _, .cons s r => by
    intro m hm
    rw [membersOf] at hm
    split at hm
    next v hv =>
      rcases List.mem_cons.mp hm with rfl | hm
      · exact slotValue?_isWritable s v hv
      · exact membersOf_isWritable r m hm
    next => exact membersOf_isWritable r m hm

theorem slotValue?_isWritable : {k : Kind} → (s : Slot k) → ∀ v, slotValue? s = some v →
    v.IsWritable
  | .required s, .required x, v, h => by
    obtain rfl := Option.some.inj h
    exact ofScalar_isWritable s x
  | .optional s, .optional x, v, h => by
    obtain ⟨a, -, rfl⟩ := Option.map_eq_some_iff.mp h
    exact ofScalar_isWritable s a
  | .repeated s _, .repeated xs, v, h => by
    rw [slotValue?] at h
    split_ifs at h
    obtain rfl := Option.some.inj h
    refine .array fun w hw => ?_
    obtain ⟨x, -, rfl⟩ := List.mem_map.mp hw
    exact ofScalar_isWritable s x
  | _, .absent, v, h => by simp [slotValue?] at h
  | _, .present m, v, h => by
    obtain rfl := Option.some.inj h
    exact .object (membersOf_isWritable m)
  | _, .messages .nil, v, h => by simp [slotValue?] at h
  | _, .messages (.cons m ms), v, h => by
    obtain rfl := Option.some.inj h
    refine .array fun w hw => ?_
    rcases List.mem_cons.mp hw with rfl | hw
    · exact .object (membersOf_isWritable m)
    · exact itemsOf_isWritable ms w hw

theorem itemsOf_isWritable : {t : MessageType} → (ms : Messages t) →
    ∀ v ∈ itemsOf ms, v.IsWritable
  | _, .nil => by simp [itemsOf]
  | _, .cons m ms => by
    intro v hv
    rcases List.mem_cons.mp hv with rfl | hv
    · exact .object (membersOf_isWritable m)
    · exact itemsOf_isWritable ms v hv

end

theorem ofMessage_isWritable {t : MessageType} (m : Message t) : (ofMessage m).IsWritable :=
  .object (membersOf_isWritable m)

/-- A line break at the end opens nothing. -/
theorem nesting_print {t : MessageType} (l : Layout) (m : Message t) :
    nesting ((ofMessage m).print l 0 ++ ['\n']) = (ofMessage m).nesting := by
  rw [((ofMessage_isWritable m).writesElement l).nesting, Value.draft_nesting]

/-! ### The NaNs of a text -/

theorem ofDouble_standard (d : Double) : ofDouble d.standard = ofDouble d := by
  unfold Double.standard
  split_ifs with h
  · rw [ofDouble, ofDouble, if_pos h, if_pos (by decide)]
  · rfl

theorem ofScalar_standard (s : Scalar) (v : s.Value) :
    ofScalar s (s.standard v) = ofScalar s v := by
  cases s with
  | double => exact ofDouble_standard v
  | _ => rfl

mutual

/-- A text does not tell one NaN from another. -/
theorem membersOf_standard : {fs : List Field} → (r : Record fs) →
    membersOf r.standard = membersOf r
  | _, .nil => rfl
  | f :: _, .cons s r => by
    rw [Record.standard, membersOf, membersOf, slotValue?_standard s, membersOf_standard r]

theorem slotValue?_standard : {k : Kind} → (s : Slot k) → slotValue? s.standard = slotValue? s
  | .required s, .required v => congrArg some (ofScalar_standard s v)
  | .optional _, .optional none => rfl
  | .optional s, .optional (some v) => congrArg some (ofScalar_standard s v)
  | .repeated s _, .repeated vs => by
    have same : (vs.map s.standard).map (ofScalar s) = vs.map (ofScalar s) := by
      rw [List.map_map]
      exact List.map_congr_left fun v _ => ofScalar_standard s v
    rw [Slot.standard, slotValue?, slotValue?, same, List.isEmpty_map]
  | _, .absent => rfl
  | _, .present m => by rw [Slot.standard, slotValue?, slotValue?, membersOf_standard m]
  | _, .messages .nil => rfl
  | _, .messages (.cons m ms) => by
    rw [Slot.standard, Messages.standard, slotValue?, slotValue?, membersOf_standard m,
      itemsOf_standard ms]

theorem itemsOf_standard : {t : MessageType} → (ms : Messages t) →
    itemsOf ms.standard = itemsOf ms
  | _, .nil => rfl
  | _, .cons m ms => by
    rw [Messages.standard, itemsOf, itemsOf, membersOf_standard m, itemsOf_standard ms]

end

theorem write_standard {t : MessageType} (l : Layout) (m : Message t) :
    write l m.standard = write l m := by
  rw [write, write, ofMessage, ofMessage, membersOf_standard]

/-! ### The members of a message -/

theorem slotValue?_eq_none {k : Kind} {s : Slot k} (h : slotValue? s = none) :
    s = .empty k := by
  cases s with
  | required v => simp [slotValue?] at h
  | optional v =>
    obtain rfl : v = none := by simpa [slotValue?] using h
    rfl
  | repeated vs =>
    rw [slotValue?] at h
    split_ifs at h with he
    rw [List.isEmpty_iff.mp he]
    rfl
  | absent => rfl
  | present m => simp [slotValue?] at h
  | messages ms =>
    cases ms with
    | nil => rfl
    | cons m ms => simp [slotValue?] at h

/-- The member of a field, if the field holds anything. -/
def memberOf? {fs : List Field} (r : Record fs) (f : Field) : Option (String × Value) :=
  (slotValue? (r.slotOf f)).map (f.key, ·)

theorem membersOf_eq_filterMap {fs : List Field} (hd : DistinctNumbers fs) (r : Record fs) :
    membersOf r = fs.filterMap (memberOf? r) := by
  induction fs with
  | nil =>
    cases r
    rfl
  | cons f fs ih =>
    cases r with
    | cons s r =>
      have others : fs.filterMap (memberOf? (.cons s r)) = fs.filterMap (memberOf? r) := by
        apply List.filterMap_congr
        intro g hg
        rw [memberOf?, memberOf?, Record.slotOf_cons_of_ne _ _ (hd.number_ne_of_mem hg)]
      rw [membersOf, List.filterMap_cons, others, ← ih hd.tail r, memberOf?,
        Record.slotOf_cons_self]
      cases slotValue? s <;> rfl

end SchemaReport.Json
