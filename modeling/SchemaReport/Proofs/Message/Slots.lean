import Mathlib.Data.List.Nodup
import SchemaReport.Message.Basic

/-! The slots of a record by field. A record over distinct field numbers is determined by the slots
of its fields, and filling an empty record field by field, in whatever order, gives it back. -/

namespace SchemaReport

/-- No two fields have the same number. -/
def DistinctNumbers (fs : List Field) : Prop := (fs.map Field.number).Nodup

theorem MessageType.distinctNumbers (t : MessageType) : DistinctNumbers t.fields := by
  unfold DistinctNumbers
  cases t <;> decide

theorem MessageType.nodup_keys (t : MessageType) : (t.fields.map Field.key).Nodup := by
  cases t <;> decide

namespace DistinctNumbers

variable {f g : Field} {fs : List Field}

theorem tail (hd : DistinctNumbers (f :: fs)) : DistinctNumbers fs :=
  (List.nodup_cons.mp hd).2

theorem number_ne_of_mem (hd : DistinctNumbers (f :: fs)) (hg : g ∈ fs) : f.number ≠ g.number := by
  intro h
  exact (List.nodup_cons.mp hd).1 (h ▸ List.mem_map_of_mem hg)

/-- A number stands for one field. -/
theorem eq_of_number_eq (hd : DistinctNumbers fs) (hf : f ∈ fs) (hg : g ∈ fs)
    (h : f.number = g.number) : f = g :=
  List.inj_on_of_nodup_map hd hf hg h

theorem kindOf?_number (hd : DistinctNumbers fs) (hf : f ∈ fs) :
    kindOf? fs f.number = some f.kind := by
  induction fs with
  | nil => simp at hf
  | cons g fs ih =>
    rcases List.mem_cons.mp hf with rfl | hf
    · simp [kindOf?]
    · rw [kindOf?, if_neg (hd.number_ne_of_mem hf), ih hd.tail hf]

end DistinctNumbers

theorem Slot.cast_empty {k k' : Kind} (h : k = k') : h ▸ Slot.empty k = Slot.empty k' := by
  subst h
  rfl

namespace Record

variable {fs : List Field}

/-- The slot of a field; a field of another record has nothing. -/
def slotOf (r : Record fs) (f : Field) : Slot f.kind :=
  if h : kindOf? fs f.number = some f.kind then r.slot f.number h else .empty f.kind

/-- The record with another slot for a field of it. -/
def put (r : Record fs) (f : Field) (s : Slot f.kind) : Record fs :=
  if h : kindOf? fs f.number = some f.kind then r.setSlot f.number h s else r

@[simp] theorem slotOf_cons_self {f : Field} (s : Slot f.kind) (r : Record fs) :
    (cons s r).slotOf f = s := by
  simp [slotOf, kindOf?, slot]

theorem slotOf_cons_of_ne {f g : Field} (s : Slot f.kind) (r : Record fs)
    (h : f.number ≠ g.number) : (cons s r).slotOf g = r.slotOf g := by
  simp [slotOf, kindOf?, slot, h]

@[simp] theorem put_cons_self {f : Field} (s s' : Slot f.kind) (r : Record fs) :
    (cons s r).put f s' = cons s' r := by
  simp [put, kindOf?, setSlot]

theorem put_cons_of_ne {f g : Field} (s : Slot f.kind) (r : Record fs) (s' : Slot g.kind)
    (h : f.number ≠ g.number) : (cons s r).put g s' = cons s (r.put g s') := by
  by_cases hk : kindOf? fs g.number = some g.kind <;> simp [put, kindOf?, setSlot, h, hk]

theorem slotOf_put {f : Field} (hd : DistinctNumbers fs) (hf : f ∈ fs) (r : Record fs)
    (s : Slot f.kind) : (r.put f s).slotOf f = s := by
  have hk := hd.kindOf?_number hf
  rw [slotOf, dif_pos hk, put, dif_pos hk, slot_setSlot]

theorem slotOf_put_of_ne {f g : Field} (r : Record fs) (s : Slot f.kind)
    (h : g.number ≠ f.number) : (r.put f s).slotOf g = r.slotOf g := by
  by_cases hf : kindOf? fs f.number = some f.kind
  · by_cases hg : kindOf? fs g.number = some g.kind
    · rw [slotOf, dif_pos hg, slotOf, dif_pos hg, put, dif_pos hf, slot_setSlot_of_ne _ _ _ _ h]
    · rw [slotOf, dif_neg hg, slotOf, dif_neg hg]
  · rw [put, dif_neg hf]

/-- Records agree if their slots do. -/
theorem ext_slotOf (hd : DistinctNumbers fs) {r r' : Record fs}
    (h : ∀ f ∈ fs, r.slotOf f = r'.slotOf f) : r = r' := by
  induction fs with
  | nil => cases r; cases r'; rfl
  | cons f fs ih =>
    cases r with
    | cons s r =>
      cases r' with
      | cons s' r' =>
        have head : s = s' := by simpa using h f (by simp)
        have rest : r = r' := ih hd.tail fun g hg => by
          have hne := hd.number_ne_of_mem hg
          simpa only [slotOf_cons_of_ne _ _ hne] using h g (by simp [hg])
        rw [head, rest]

theorem put_slotOf (hd : DistinctNumbers fs) {f : Field} (hf : f ∈ fs) (r : Record fs) :
    r.put f (r.slotOf f) = r := by
  apply ext_slotOf hd
  intro g hg
  by_cases h : g.number = f.number
  · obtain rfl := hd.eq_of_number_eq hg hf h
    rw [slotOf_put hd hg]
  · rw [slotOf_put_of_ne _ _ h]

theorem put_put (hd : DistinctNumbers fs) {f : Field} (hf : f ∈ fs) (r : Record fs)
    (s s' : Slot f.kind) : (r.put f s).put f s' = r.put f s' := by
  apply ext_slotOf hd
  intro g hg
  by_cases h : g.number = f.number
  · obtain rfl := hd.eq_of_number_eq hg hf h
    rw [slotOf_put hd hg, slotOf_put hd hg]
  · rw [slotOf_put_of_ne _ _ h, slotOf_put_of_ne _ _ h, slotOf_put_of_ne _ _ h]

@[simp] theorem slotOf_empty (f : Field) : (empty fs).slotOf f = .empty f.kind := by
  induction fs with
  | nil => rfl
  | cons g fs ih =>
    by_cases h : g.number = f.number
    · by_cases hk : g.kind = f.kind
      · rw [slotOf, dif_pos (by simp [kindOf?, h, hk])]
        simp only [empty, slot, h, dite_true]
        exact Slot.cast_empty hk
      · rw [slotOf, dif_neg (by simp [kindOf?, h, hk])]
    · rw [empty, slotOf_cons_of_ne _ _ h, ih]

/-- The record `r` with the slots of `m` for the fields `ps`, put in one after the other. -/
def fill (m : Record fs) (ps : List Field) (r : Record fs) : Record fs :=
  ps.foldl (fun r f => r.put f (m.slotOf f)) r

theorem fill_cons (m : Record fs) (f : Field) (ps : List Field) (r : Record fs) :
    m.fill (f :: ps) r = m.fill ps (r.put f (m.slotOf f)) := rfl

theorem slotOf_fill_of_forall_ne (m : Record fs) {g : Field} {ps : List Field} (r : Record fs)
    (h : ∀ f ∈ ps, g.number ≠ f.number) : (m.fill ps r).slotOf g = r.slotOf g := by
  induction ps generalizing r with
  | nil => rfl
  | cons f ps ih =>
    rw [fill_cons, ih _ fun f hf => h f (by simp [hf]), slotOf_put_of_ne _ _ (h f (by simp))]

theorem slotOf_fill_of_mem (hd : DistinctNumbers fs) (m : Record fs) {g : Field}
    {ps : List Field} (hps : ∀ f ∈ ps, f ∈ fs) (r : Record fs) (hg : g ∈ ps) :
    (m.fill ps r).slotOf g = m.slotOf g := by
  induction ps generalizing r with
  | nil => simp at hg
  | cons f ps ih =>
    rw [fill_cons]
    by_cases hp : g ∈ ps
    · exact ih (fun f hf => hps f (by simp [hf])) _ hp
    · obtain rfl : g = f := by simpa [hp] using hg
      have hgf := hps g (by simp)
      rw [slotOf_fill_of_forall_ne, slotOf_put hd hgf]
      intro f hf h
      exact hp (hd.eq_of_number_eq hgf (hps f (by simp [hf])) h ▸ hf)

/-- The fields may come in any order. -/
theorem fill_empty (hd : DistinctNumbers fs) (m : Record fs) {ps : List Field} (h : ps.Perm fs) :
    m.fill ps (empty fs) = m := by
  apply ext_slotOf hd
  intro f hf
  exact slotOf_fill_of_mem hd m (fun _ hg => h.mem_iff.mp hg) _ (h.mem_iff.mpr hf)

end Record

end SchemaReport
