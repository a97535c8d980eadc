import SchemaReport.Message.Equality
import SchemaReport.Proofs.Message.Slots

/-! Doubles that are no numbers. A message with the standard NaN in place of every other one differs
from it nowhere else, and compares equal to it unless there is a NaN in it at all. -/

namespace SchemaReport

namespace Double

/-- The double itself, or the standard NaN if it is none. -/
def standard (d : Double) : Double := if d.isNaN then nan else d

theorem sameNumber_standard (d : Double) : d.standard.sameNumber d = !d.isNaN := by
  unfold standard sameNumber
  cases h : d.isNaN <;> simp [h]

theorem standard_of_isNaN_eq_false {d : Double} (h : d.isNaN = false) : d.standard = d := by
  rw [standard, h]
  rfl

end Double

namespace Scalar

def standard : (s : Scalar) → s.Value → s.Value
  | .double, d => Double.standard d
  | .string, v | .bytes, v | .bool, v | .int32, v | .int64, v | .uint64, v | .enum _, v => v

def holdsNaN : (s : Scalar) → s.Value → Bool
  | .double, d => Double.isNaN d
  | _, _ => false

theorem same_standard (s : Scalar) (v : s.Value) : s.same (s.standard v) v = !s.holdsNaN v := by
  cases s with
  | double => exact Double.sameNumber_standard v
  | _ => simp [same, standard, holdsNaN]

theorem standard_of_holdsNaN_eq_false {s : Scalar} {v : s.Value} (h : s.holdsNaN v = false) :
    s.standard v = v := by
  cases s with
  | double => exact Double.standard_of_isNaN_eq_false h
  | _ => rfl

end Scalar

mutual

/-- The record with the standard NaN in place of every NaN. -/
def Record.standard : {fs : List Field} → Record fs → Record fs
  | _, .nil => .nil
  | _, .cons s r => .cons s.standard r.standard

def Slot.standard : {k : Kind} → Slot k → Slot k
  | .required s, .required v => .required (s.standard v)
  | .optional s, .optional v => .optional (v.map s.standard)
  | .repeated s _, .repeated vs => .repeated (vs.map s.standard)
  | _, .absent => .absent
  | _, .present m => .present m.standard
  | _, .messages ms => .messages ms.standard

def Messages.standard : {t : MessageType} → Messages t → Messages t
  | _, .nil => .nil
  | _, .cons m ms => .cons m.standard ms.standard

end

mutual

/-- Whether a double of the record, at any depth, is a NaN. -/
def Record.holdsNaN : {fs : List Field} → Record fs → Bool
  | _, .nil => false
  | _, .cons s r => s.holdsNaN || r.holdsNaN

def Slot.holdsNaN : {k : Kind} → Slot k → Bool
  | .required s, .required v => s.holdsNaN v
  | .optional s, .optional v => v.any s.holdsNaN
  | .repeated s _, .repeated vs => vs.any s.holdsNaN
  | _, .absent => false
  | _, .present m => m.holdsNaN
  | _, .messages ms => ms.holdsNaN

def Messages.holdsNaN : {t : MessageType} → Messages t → Bool
  | _, .nil => false
  | _, .cons m ms => m.holdsNaN || ms.holdsNaN

end

theorem Slot.standard_empty (k : Kind) : (Slot.empty k).standard = .empty k := by
  cases k with
  | required s => cases s <;> rfl
  | _ => rfl

theorem Record.slotOf_standard {fs : List Field} (hd : DistinctNumbers fs) (r : Record fs)
    {f : Field} (hf : f ∈ fs) : r.standard.slotOf f = (r.slotOf f).standard := by
  induction fs with
  | nil => simp at hf
  | cons g fs ih =>
    cases r with
    | cons s r =>
      rw [standard]
      rcases List.mem_cons.mp hf with rfl | hf
      · rw [slotOf_cons_self, slotOf_cons_self]
      · have hne := hd.number_ne_of_mem hf
        rw [slotOf_cons_of_ne _ _ hne, slotOf_cons_of_ne _ _ hne, ih hd.tail r hf]

theorem isEqv_map_standard {s : Scalar} (vs : List s.Value) :
    (vs.map s.standard).isEqv vs s.same = !vs.any s.holdsNaN := by
  induction vs with
  | nil => rfl
  | cons v vs ih =>
    rw [List.map_cons, List.isEqv_cons_cons, s.same_standard, ih, List.any_cons, Bool.not_or]

mutual

/-- Messages that hold a NaN are the ones that differ from what they are read back as. -/
theorem Record.same_standard : {fs : List Field} → (r : Record fs) →
    r.standard.same r = !r.holdsNaN
  | _, .nil => rfl
  | _, .cons s r => by
    rw [Record.standard, Record.same, Record.holdsNaN, Slot.same_standard s,
      Record.same_standard r, Bool.not_or]

theorem Slot.same_standard : {k : Kind} → (s : Slot k) → s.standard.same s = !s.holdsNaN
  | .required s, .required v => s.same_standard v
  | .optional _, .optional none => rfl
  | .optional _, .optional (some v) => isEqv_map_standard [v] |>.trans (by simp [Slot.holdsNaN])
  | .repeated _ _, .repeated vs => isEqv_map_standard vs
  | _, .absent => rfl
  | _, .present m => Record.same_standard m
  | _, .messages ms => Messages.same_standard ms

theorem Messages.same_standard : {t : MessageType} → (ms : Messages t) →
    ms.standard.same ms = !ms.holdsNaN
  | _, .nil => rfl
  | _, .cons m ms => by
    rw [Messages.standard, Messages.same, Messages.holdsNaN, Record.same_standard m,
      Messages.same_standard ms, Bool.not_or]

end

theorem map_standard_of_any_eq_false {s : Scalar} {vs : List s.Value}
    (h : vs.any s.holdsNaN = false) : vs.map s.standard = vs := by
  conv_rhs => rw [← List.map_id vs]
  apply List.map_congr_left
  intro v hv
  exact Scalar.standard_of_holdsNaN_eq_false (by simpa using List.any_eq_false.mp h v hv)

mutual

theorem Record.standard_of_holdsNaN_eq_false : {fs : List Field} → (r : Record fs) →
    r.holdsNaN = false → r.standard = r
  | _, .nil, _ => rfl
  | _, .cons s r, h => by
    obtain ⟨hs, hr⟩ := Bool.or_eq_false_iff.mp h
    rw [Record.standard, Slot.standard_of_holdsNaN_eq_false s hs,
      Record.standard_of_holdsNaN_eq_false r hr]

theorem Slot.standard_of_holdsNaN_eq_false : {k : Kind} → (s : Slot k) →
    s.holdsNaN = false → s.standard = s
  | .required _, .required _, h => by
    rw [Slot.standard, Scalar.standard_of_holdsNaN_eq_false h]
  | .optional _, .optional none, _ => rfl
  | .optional _, .optional (some _), h => by
    rw [Slot.standard, Option.map_some, Scalar.standard_of_holdsNaN_eq_false h]
  | .repeated _ _, .repeated _, h => by rw [Slot.standard, map_standard_of_any_eq_false h]
  | _, .absent, _ => rfl
  | _, .present m, h => by rw [Slot.standard, Record.standard_of_holdsNaN_eq_false m h]
  | _, .messages ms, h => by rw [Slot.standard, Messages.standard_of_holdsNaN_eq_false ms h]

theorem Messages.standard_of_holdsNaN_eq_false : {t : MessageType} → (ms : Messages t) →
    ms.holdsNaN = false → ms.standard = ms
  | _, .nil, _ => rfl
  | _, .cons m ms, h => by
    obtain ⟨hm, hms⟩ := Bool.or_eq_false_iff.mp h
    rw [Messages.standard, Record.standard_of_holdsNaN_eq_false m hm,
      Messages.standard_of_holdsNaN_eq_false ms hms]

end

end SchemaReport
