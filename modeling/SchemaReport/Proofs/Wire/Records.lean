import SchemaReport.Proofs.Wire.Levels
import SchemaReport.Proofs.Wire.Local

/-! Records: what the bytes of a message are without its type. Each is a key with a body behind it,
and the wire type of the key says how far the body goes; a group holds records of its own up to the
key that ends it. Fields that a type does not have are passed over just when they are such records.
The fields that it has are records too, so that bytes that stand for a message fall apart into them,
and in one way only. -/

namespace SchemaReport.Wire

/-- The bytes are a body for the key. Every field stands within fewer than `levels` groups. -/
inductive IsBody : (levels : ℕ) → Key → List UInt8 → Prop
  | varint {l n v : ℕ} {bs : List UInt8} (h : IsVarint bs v) : IsBody (l + 1) ⟨n, .varint⟩ bs
  | fixed64 {l n : ℕ} {bs : List UInt8} (h : bs.length = 8) : IsBody (l + 1) ⟨n, .fixed64⟩ bs
  | fixed32 {l n : ℕ} {bs : List UInt8} (h : bs.length = 4) : IsBody (l + 1) ⟨n, .fixed32⟩ bs
  | delimited {l n : ℕ} {ls bs : List UInt8} (h : IsVarint ls bs.length) :
      IsBody (l + 1) ⟨n, .delimited⟩ (ls ++ bs)
  | groupEnd {l n : ℕ} {bs : List UInt8} (h : IsKey bs ⟨n, .endGroup⟩) :
      IsBody (l + 1) ⟨n, .startGroup⟩ bs
  | groupField {l n : ℕ} {k : Key} {ks vs bs : List UInt8} (hk : IsKey ks k) (hv : IsBody l k vs)
      (h : IsBody (l + 1) ⟨n, .startGroup⟩ bs) :
      IsBody (l + 1) ⟨n, .startGroup⟩ (ks ++ (vs ++ bs))

/-- The bytes of the piece are a key of its number and a body. -/
def IsRecord (levels : ℕ) (p : Piece) : Prop :=
  ∃ k ks vs, p = ⟨k.number, ks ++ vs⟩ ∧ IsKey ks k ∧ IsBody levels k vs

/-- The bytes are these records, one after the other. -/
def Records (levels : ℕ) (ps : List Piece) (bs : List UInt8) : Prop :=
  bs = ps.flatMap Piece.bytes ∧ ∀ p ∈ ps, IsRecord levels p

/-! ### Bodies and what is passed over -/

/-- A group is passed over with any fuel that covers its bytes. -/
theorem reads_skip_group_iff {l n : ℕ} {bs : List UInt8} :
    Reads (skip (l + 1) ⟨n, .startGroup⟩) bs () ↔
      ∀ fuel, bs.length ≤ fuel → Reads (skipGroup (skip l) n fuel) bs () := by
  constructor
  · intro h
    obtain ⟨cs, same, hcs⟩ := skipGroup_settled (local_skip l) (h [])
    obtain rfl : bs = cs := List.append_cancel_right same
    exact hcs
  · intro h rest
    have enough : bs.length ≤ (bs ++ rest).length := by simp
    exact h _ enough rest

theorem IsBody.type_ne_endGroup {l : ℕ} {k : Key} {bs : List UInt8} (h : IsBody l k bs) :
    k.type ≠ .endGroup := by
  cases h <;> simp

/-- Bodies are passed over. -/
theorem IsBody.reads_skip {l : ℕ} {k : Key} {bs : List UInt8} (h : IsBody l k bs) :
    Reads (skip l k) bs () := by
  induction h with
  | varint h => exact h.reads.map fun _ => ()
  | fixed64 h => exact (reads_bytes h).map fun _ => ()
  | fixed32 h => exact (reads_bytes h).map fun _ => ()
  | delimited h => exact (h.reads.bind (reads_bytes rfl)).map fun _ => ()
  | @groupEnd l n bs h =>
    refine reads_skip_group_iff.mpr fun fuel hf => ?_
    have hpos := List.length_pos_of_ne_nil h.form.ne_nil
    obtain ⟨m, rfl⟩ : ∃ m, fuel = m + 1 := ⟨fuel - 1, by omega⟩
    rw [← List.append_nil bs]
    refine h.reads.bind ?_
    rw [if_pos rfl, if_pos rfl]
    exact .pure ()
  | @groupField l n k ks vs bs hk hv _ ihv ih =>
    refine reads_skip_group_iff.mpr fun fuel hf => ?_
    have hpos := List.length_pos_of_ne_nil hk.form.ne_nil
    rw [List.length_append, List.length_append] at hf
    obtain ⟨m, rfl⟩ : ∃ m, fuel = m + 1 := ⟨fuel - 1, by omega⟩
    refine hk.reads.bind ?_
    rw [if_neg hv.type_ne_endGroup]
    exact ihv.bind (reads_skip_group_iff.mp ih m (by omega))

theorem takes_skipGroup {l n : ℕ} (hs : ∀ k, Takes (fun bs _ => IsBody l k bs) (skip l k))
    (fuel : ℕ) :
    Takes (fun bs _ => IsBody (l + 1) ⟨n, .startGroup⟩ bs) (skipGroup (skip l) n fuel) := by
  induction fuel with
  | zero => exact .fail _
  | succ fuel ih =>
    intro i u j h
    obtain ⟨k, i', hk, h⟩ := Reader.bind_eq_ok.mp h
    obtain ⟨ks, hi, hks⟩ := takes_readKey i k i' hk
    split_ifs at h with hend hnum
    · obtain ⟨-, rfl⟩ := Prod.mk.inj (Except.ok.inj h)
      obtain ⟨number, type⟩ := k
      subst hend hnum
      exact ⟨ks, hi, .groupEnd hks⟩
    · cases h
    · obtain ⟨u', i'', hu, h⟩ := Reader.bind_eq_ok.mp h
      obtain ⟨vs, hi', hvs⟩ := hs k i' u' i'' hu
      obtain ⟨bs, hi'', hbs⟩ := ih i'' u j h
      refine ⟨ks ++ (vs ++ bs), ?_, .groupField hks hvs hbs⟩
      rw [hi, hi', hi'']
      simp only [List.append_assoc]

theorem takes_readBlock {l n : ℕ} :
    Takes (fun bs _ => IsBody (l + 1) ⟨n, .delimited⟩ bs) readBlock := by
  refine (takes_readVarint.bind takes_readBytes).mono ?_
  rintro _ _ ⟨ls, bs, _, rfl, hls, rfl, rfl⟩
  exact .delimited hls

/-- Nothing but bodies is passed over. -/
theorem takes_skip (l : ℕ) (k : Key) : Takes (fun bs _ => IsBody l k bs) (skip l k) := by
  induction l generalizing k with
  | zero => exact .fail _
  | succ l ih =>
    obtain ⟨n, type⟩ := k
    cases type with
    | varint => exact (takes_readVarint.mono fun _ _ => .varint).bind_pure _
    | fixed64 => exact ((takes_readBytes 8).mono fun _ _ h => .fixed64 h.2).bind_pure _
    | fixed32 => exact ((takes_readBytes 4).mono fun _ _ h => .fixed32 h.2).bind_pure _
    | delimited => exact takes_readBlock.bind_pure _
    | startGroup => exact fun i => takes_skipGroup ih _ i
    | endGroup => exact .fail _

/-! ### Records -/

namespace IsRecord

variable {l : ℕ} {p q : Piece}

theorem bytes_ne_nil (h : IsRecord l p) : p.bytes ≠ [] := by
  obtain ⟨k, ks, vs, rfl, hk, -⟩ := h
  intro empty
  exact hk.form.ne_nil (List.append_eq_nil_iff.mp empty).1

/-- A record is passed over whole, and tells its number. -/
theorem reads (h : IsRecord l p) :
    Reads (do let k ← readKey; skip l k; return k.number) p.bytes p.number := by
  obtain ⟨k, ks, vs, rfl, hk, hv⟩ := h
  exact hk.reads.bind (hv.reads_skip.map fun _ => k.number)

theorem unique {rest rest' : List UInt8} (hp : IsRecord l p) (hq : IsRecord l q)
    (same : p.bytes ++ rest = q.bytes ++ rest') : p = q ∧ rest = rest' := by
  obtain ⟨bytes, number, behind⟩ := hp.reads.unique hq.reads same
  obtain ⟨pn, pb⟩ := p
  obtain ⟨qn, qb⟩ := q
  exact ⟨by rw [Piece.mk.injEq]; exact ⟨number, bytes⟩, behind⟩

end IsRecord

/-- Bytes are records in one way. -/
theorem Records.unique {l : ℕ} {ps qs : List Piece} {bs : List UInt8} (hp : Records l ps bs)
    (hq : Records l qs bs) : ps = qs := by
  obtain ⟨rfl, hp⟩ := hp
  obtain ⟨same, hq⟩ := hq
  induction ps generalizing qs with
  | nil =>
    cases qs with
    | nil => rfl
    | cons q qs =>
      have empty := (List.append_eq_nil_iff.mp same.symm).1
      exact absurd empty (hq q (by simp)).bytes_ne_nil
  | cons p ps ih =>
    cases qs with
    | nil =>
      have empty := (List.append_eq_nil_iff.mp same).1
      exact absurd empty (hp p (by simp)).bytes_ne_nil
    | cons q qs =>
      obtain ⟨rfl, behind⟩ := (hp p (by simp)).unique (hq q (by simp)) same
      rw [ih (fun p hp' => hp p (by simp [hp'])) behind fun q hq' => hq q (by simp [hq'])]

/-! ### Fields -/

section

variable {l n : ℕ}

theorem takes_readScalar (s : Scalar) :
    Takes (fun bs _ => IsBody (l + 1) ⟨n, scalarType s⟩ bs) (readScalar s) := by
  have number : Takes (fun bs _ => IsBody (l + 1) ⟨n, .varint⟩ bs) readVarint :=
    takes_readVarint.mono fun _ _ => .varint
  cases s with
  | string =>
    refine takes_readBlock.bind_of_nil fun bs => ?_
    split
    · exact .pure _
    · exact .fail _
  | bytes => exact takes_readBlock
  | double => exact ((takes_readBytes 8).mono fun _ _ h => .fixed64 h.2).bind_pure _
  | _ => exact number.bind_pure _

theorem takes_expect {α : Type} {G : List UInt8 → α → Prop} {w v : WireType} {f : Unit → Reader α}
    (hf : w = v → Takes G (f ())) : Takes G (expect w v >>= f) := by
  unfold expect
  split_ifs with h
  · exact hf h
  · exact .fail _

theorem takes_readTyped (w : WireType) (s : Scalar) :
    Takes (fun bs _ => IsBody (l + 1) ⟨n, w⟩ bs) (readTyped w s) :=
  takes_expect fun h => h ▸ takes_readScalar s

theorem takes_readFrame {α : Type} {step : α → Reader α} (hs : ∀ a, Local 1 (step a)) (a : α) :
    Takes (fun bs _ => IsBody (l + 1) ⟨n, .delimited⟩ bs) (readFrame step a) := by
  intro i b j h
  obtain ⟨ls, bs, hi, hls, -⟩ := frame_of_readFrame hs h
  exact ⟨ls ++ bs, hi, .delimited hls⟩

theorem takes_mergeNested (d : ℕ) (t : MessageType) (m : Message t) :
    Takes (fun bs _ => IsBody (l + 1) ⟨n, .delimited⟩ bs) (mergeNested d t m) := by
  cases d with
  | zero => exact .fail _
  | succ d => exact takes_readFrame (local_mergeField (local_mergeNested d) d) m

theorem takes_mergeSlot (d : ℕ) (w : WireType) {k : Kind} (s : Slot k) :
    Takes (fun bs _ => IsBody (l + 1) ⟨n, w⟩ bs) (mergeSlot (mergeNested d) w s) := by
  cases s with
  | required v => exact (takes_readTyped w _).bind_pure _
  | optional v => exact (takes_readTyped w _).bind_pure _
  | @repeated s packed vs =>
    rw [mergeSlot]
    split_ifs with h
    · rw [h.1]
      exact (takes_readFrame (local_appendScalar s) vs).bind_pure _
    · exact (takes_readTyped w s).bind_pure _
  | absent => exact takes_expect fun h => h ▸ (takes_mergeNested d _ _).bind_pure _
  | present m => exact takes_expect fun h => h ▸ (takes_mergeNested d _ _).bind_pure _
  | messages ms => exact takes_expect fun h => h ▸ (takes_mergeNested d _ _).bind_pure _

theorem takes_mergeRecord (d : ℕ) (owner : MessageType) (k : Key) {fs : List Field}
    (r : Record fs) :
    Takes (fun bs _ => IsBody (l + 1) k bs)
      (mergeRecord (mergeNested d) (skip (l + 1)) owner k r) := by
  induction fs with
  | nil =>
    cases r
    exact (takes_skip (l + 1) k).bind_pure _
  | cons f fs ih =>
    cases r with
    | cons s r =>
      rw [mergeRecord]
      split_ifs
      · exact ((takes_mergeSlot d k.type s).inside owner f).bind_pure _
      · exact (ih r).bind_pure _

/-- A field that is read, whether its number is known or not, is a record. -/
theorem takes_mergeField (d : ℕ) {t : MessageType} (m : Message t) :
    Takes (fun bs _ => ∃ number, IsRecord (l + 1) ⟨number, bs⟩)
      (mergeField (l + 1) (mergeNested d) m) := by
  refine (takes_readKey.bind fun k => takes_mergeRecord d t k m).mono ?_
  rintro _ _ ⟨ks, vs, k, rfl, hk, hv⟩
  exact ⟨k.number, k, ks, vs, rfl, hk, hv⟩

end

/-! ### Where a field goes -/

section

variable {nested : Nested} {skip : Key → Reader Unit} {owner : MessageType} {fs : List Field}

/-- A field of a known number goes to the slot of that number, and touches no other. -/
theorem mergeRecord_of_mem (hd : DistinctNumbers fs) {f : Field} (hf : f ∈ fs) (w : WireType)
    (r : Record fs) :
    mergeRecord nested skip owner ⟨f.number, w⟩ r =
      (do return r.put f (← (mergeSlot nested w (r.slotOf f)).inside owner f)) := by
  induction fs with
  | nil => simp at hf
  | cons g fs ih =>
    cases r with
    | cons s r =>
      rcases List.mem_cons.mp hf with rfl | hf
      · rw [mergeRecord, if_pos rfl, Record.slotOf_cons_self]
        simp only [Record.put_cons_self]
      · have hne := hd.number_ne_of_mem hf
        rw [mergeRecord, if_neg hne, ih hd.tail hf, Record.slotOf_cons_of_ne _ _ hne]
        simp only [Record.put_cons_of_ne _ _ _ hne, bind_assoc, pure_bind]

/-- A field of an unknown number leaves the record as it is. -/
theorem mergeRecord_of_forall_ne {k : Key} (h : ∀ f ∈ fs, f.number ≠ k.number) (r : Record fs) :
    mergeRecord nested skip owner k r = (do skip k; return r) := by
  induction fs with
  | nil =>
    cases r
    rfl
  | cons f fs ih =>
    cases r with
    | cons s r =>
      rw [mergeRecord, if_neg (h f (by simp)), ih fun g hg => h g (by simp [hg])]
      simp only [bind_assoc, pure_bind]

end

end SchemaReport.Wire
