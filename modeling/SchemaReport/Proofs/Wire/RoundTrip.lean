import SchemaReport.Proofs.Wire.Records

/-! Messages read back from their bytes. Each chunk of a field, a key and what follows it, moves the
slot of the field on; the chunks of a field lead from the empty slot to the one that was written,
and the fields, in whatever order, from the empty message to the message. Nested messages cost a
level each, and the induction is on the levels. -/

namespace SchemaReport.Wire

/-! ### Chunks of a field -/

/-- The bytes are chunks of field `n` that take its slot from `s` to `s'`. -/
inductive Merges (nested : Nested) (n : ℕ) {k : Kind} : List UInt8 → Slot k → Slot k → Prop
  | nil (s : Slot k) : Merges nested n [] s s
  | cons {w : WireType} {body bs : List UInt8} {s s' s'' : Slot k}
      (hr : Reads (mergeSlot nested w s) body s') (hs : Merges nested n bs s' s'') :
      Merges nested n (key n w ++ body ++ bs) s s''

section

variable {nested : Nested} {n : ℕ}

theorem Merges.single {k : Kind} {w : WireType} {body : List UInt8} {s s' : Slot k}
    (hr : Reads (mergeSlot nested w s) body s') : Merges nested n (key n w ++ body) s s' := by
  have h := Merges.cons (n := n) hr (.nil s')
  rwa [List.append_nil] at h

theorem merges_required (s : Scalar) (v : s.Value) (slot : Slot (.required s))
    (h : (encodeOne n s v).length < 2 ^ 64) :
    Merges nested n (encodeOne n s v) slot (.required v) := by
  rw [encodeOne, List.length_append] at h
  exact .single ((reads_typed s v (by omega)).map Slot.required)

theorem merges_optional (s : Scalar) (v : s.Value) (slot : Slot (.optional s))
    (h : (encodeOne n s v).length < 2 ^ 64) :
    Merges nested n (encodeOne n s v) slot (.optional (some v)) := by
  rw [encodeOne, List.length_append] at h
  exact .single ((reads_typed s v (by omega)).map fun v => Slot.optional (some v))

/-- Values one by one, each behind a key of its own. -/
theorem merges_repeated {packed : Bool} (s : Scalar) (us vs : List s.Value)
    (h : (vs.flatMap (encodeOne n s)).length < 2 ^ 64) :
    Merges nested n (k := .repeated s packed) (vs.flatMap (encodeOne n s)) (.repeated us)
      (.repeated (us ++ vs)) := by
  induction vs generalizing us with
  | nil =>
    rw [List.append_nil]
    exact .nil _
  | cons v vs ih =>
    rw [List.flatMap_cons, List.length_append, encodeOne, List.length_append] at h
    have single : ¬ (scalarType s = .delimited ∧ scalarType s ≠ .delimited) := fun h => h.2 h.1
    have read : Reads (mergeSlot nested (scalarType s) (.repeated us : Slot (.repeated s packed)))
        (encodeScalar s v) (.repeated (us ++ [v])) := by
      rw [mergeSlot, if_neg single]
      exact (reads_typed s v (by omega)).map fun v => Slot.repeated (us ++ [v])
    have rest := ih (us ++ [v]) (by omega)
    rw [List.append_assoc] at rest
    exact .cons read rest

theorem steps_appendScalar (s : Scalar) (us vs : List s.Value)
    (h : (vs.flatMap (encodeScalar s)).length < 2 ^ 64) :
    Steps (appendScalar s) (vs.flatMap (encodeScalar s)) us (us ++ vs) := by
  induction vs generalizing us with
  | nil =>
    rw [List.append_nil]
    exact .nil us
  | cons v vs ih =>
    rw [List.flatMap_cons, List.length_append] at h
    have read : Reads (appendScalar s us) (encodeScalar s v) (us ++ [v]) :=
      (reads_scalar s v (by omega)).map fun v => us ++ [v]
    have rest := ih (us ++ [v]) (by omega)
    rw [List.append_assoc] at rest
    exact .cons (encodeScalar_ne_nil s v) read rest

/-- Values in one block, behind a single key. -/
theorem merges_packed {packed : Bool} {s : Scalar} (hs : scalarType s ≠ .delimited)
    (vs : List s.Value)
    (h : (key n .delimited ++ block (vs.flatMap (encodeScalar s))).length < 2 ^ 64) :
    Merges nested n (k := .repeated s packed)
      (key n .delimited ++ block (vs.flatMap (encodeScalar s))) (.repeated []) (.repeated vs) := by
  rw [List.length_append, block, List.length_append] at h
  have read : Reads (mergeSlot nested .delimited (.repeated [] : Slot (.repeated s packed)))
      (block (vs.flatMap (encodeScalar s))) (.repeated vs) := by
    rw [mergeSlot, if_pos ⟨rfl, hs⟩]
    exact (reads_frame (steps_appendScalar s [] vs (by omega)) (by omega)).map Slot.repeated
  exact .single read

theorem reads_expect (w : WireType) : Reads (expect w w) [] () := by
  rw [expect, if_pos rfl]
  exact .pure ()

/-- A message behind its key. -/
def encodeNested (n : ℕ) {t : MessageType} (m : Message t) : List UInt8 :=
  key n .delimited ++ block (encode m)

theorem encodeMessages_eq_flatMap (n : ℕ) {t : MessageType} : (ms : Messages t) →
    encodeMessages n ms = ms.toList.flatMap (encodeNested n)
  | .nil => rfl
  | .cons m ms => by
    rw [encodeMessages, encodeMessages_eq_flatMap n ms]
    rfl

/-- Nested messages that stand fewer than `d` levels deep are read from their blocks. -/
def ReadsNested (d : ℕ) (nested : Nested) : Prop :=
  ∀ ⦃t : MessageType⦄ (m : Message t), m.depth < d → (encode m).length < 2 ^ 64 →
    Reads (nested t (.empty t)) (block (encode m)) m

theorem length_le_length_encodeNested (n : ℕ) {t : MessageType} (m : Message t) :
    (encode m).length ≤ (encodeNested n m).length := by
  rw [encodeNested, block, List.length_append, List.length_append]
  omega

variable {d : ℕ} (hn : ReadsNested d nested)

include hn

theorem merges_present {t : MessageType} (m : Message t) (hm : m.depth < d)
    (h : (encodeNested n m).length < 2 ^ 64) :
    Merges nested n (encodeNested n m) .absent (.present m) := by
  have read := hn m hm (by have := length_le_length_encodeNested n m; omega)
  exact .single ((reads_expect .delimited).bind (read.map Slot.present))

theorem merges_messages {t : MessageType} (us ms : List (Message t))
    (hd : ∀ m ∈ ms, Record.depth m < d)
    (h : (ms.flatMap (encodeNested n)).length < 2 ^ 64) :
    Merges nested n (ms.flatMap (encodeNested n)) (.messages (.ofList us))
      (.messages (.ofList (us ++ ms))) := by
  induction ms generalizing us with
  | nil =>
    rw [List.append_nil]
    exact .nil _
  | cons m ms ih =>
    rw [List.flatMap_cons, List.length_append] at h
    have read := hn m (hd m (by simp)) (by have := length_le_length_encodeNested n m; omega)
    have grown : Reads (mergeSlot nested .delimited (.messages (.ofList us))) (block (encode m))
        (.messages (.ofList (us ++ [m]))) := by
      rw [← Messages.add_ofList]
      exact (reads_expect .delimited).bind
        (read.map fun m => Slot.messages ((Messages.ofList us).add m))
    have rest := ih (us ++ [m]) (fun m hm => hd m (by simp [hm])) (by omega)
    rw [List.append_assoc] at rest
    exact .cons grown rest

/-- The chunks of a field lead from the empty slot to the slot. -/
theorem encodeSlot_merges {k : Kind} (s : Slot k) (hs : s.depth ≤ d)
    (h : (encodeSlot n s).length < 2 ^ 64) : Merges nested n (encodeSlot n s) (.empty k) s := by
  cases s with
  | @required s v => exact merges_required s v _ h
  | @optional s v =>
    cases v with
    | none => exact .nil _
    | some v =>
      have one : encodeSlot n (.optional (some v)) = encodeOne n s v :=
        List.flatMap_singleton (encodeOne n s) v
      rw [one] at h ⊢
      exact merges_optional s v _ h
  | @repeated s packed vs =>
    rw [encodeSlot] at h ⊢
    split_ifs at h ⊢ with hp he
    · rw [List.isEmpty_iff.mp he]
      exact .nil _
    · exact merges_packed hp.2 vs h
    · exact merges_repeated s [] vs h
  | absent => exact .nil _
  | present m => exact merges_present hn m hs h
  | messages ms =>
    rw [encodeSlot, encodeMessages_eq_flatMap] at h ⊢
    have merged := merges_messages hn [] ms.toList
      (fun m hm => (Messages.depth_lt_of_mem hm).trans_le hs) h
    rwa [List.nil_append, Messages.ofList_toList] at merged

end

/-! ### Fields of a message -/

/-- A chunk of a field goes to the slot of that field. -/
theorem reads_mergeRecord {nested : Nested} {skip : Key → Reader Unit} {owner : MessageType}
    {fs : List Field} (hd : DistinctNumbers fs) {f : Field} (hf : f ∈ fs) {w : WireType}
    {body : List UInt8} (r : Record fs) {s' : Slot f.kind}
    (h : Reads (mergeSlot nested w (r.slotOf f)) body s') :
    Reads (mergeRecord nested skip owner ⟨f.number, w⟩ r) body (r.put f s') := by
  rw [mergeRecord_of_mem hd hf]
  exact (h.inside owner f).map (r.put f)

theorem MessageType.number_bounds {t : MessageType} {f : Field} (hf : f ∈ t.fields) :
    0 < f.number ∧ f.number < 2 ^ 29 := by
  have all : ∀ g ∈ t.fields, 0 < g.number ∧ g.number < 2 ^ 29 := by cases t <;> decide
  exact all f hf

section

variable {t : MessageType} {nested : Nested} (N : ℕ)

theorem Merges.steps {f : Field} (hf : f ∈ t.fields) {bs : List UInt8} {s s' : Slot f.kind}
    (h : Merges nested f.number bs s s') (m : Message t) (hs : m.slotOf f = s) :
    Steps (mergeField N nested) bs m (m.put f s') := by
  have hd := t.distinctNumbers
  induction h generalizing m with
  | nil s =>
    rw [← hs, Record.put_slotOf hd hf]
    exact .nil m
  | @cons w body bs s s' s'' hr _ ih =>
    obtain ⟨hpos, hlt⟩ := MessageType.number_bounds hf
    have read : Reads (mergeField N nested m) (key f.number w ++ body) (m.put f s') := by
      subst hs
      exact (reads_key hpos hlt w).bind (reads_mergeRecord hd hf m hr)
    have rest := ih (m.put f s') (Record.slotOf_put hd hf m s')
    rw [Record.put_put hd hf] at rest
    have hne : key f.number w ++ body ≠ [] := by
      intro h
      exact varint_ne_nil _ (List.append_eq_nil_iff.mp h).1
    exact .cons hne read rest

/-- The piece of a field. -/
def pieceOf {fs : List Field} (r : Record fs) (f : Field) : Piece :=
  ⟨f.number, encodeSlot f.number (r.slotOf f)⟩

theorem pieces_eq_map {fs : List Field} (hd : DistinctNumbers fs) (r : Record fs) :
    pieces r = fs.map (pieceOf r) := by
  induction fs with
  | nil =>
    cases r
    rfl
  | cons f fs ih =>
    cases r with
    | cons s r =>
      have others : fs.map (pieceOf (.cons s r)) = fs.map (pieceOf r) := by
        apply List.map_congr_left
        intro g hg
        rw [pieceOf, pieceOf, Record.slotOf_cons_of_ne _ _ (hd.number_ne_of_mem hg)]
      rw [pieces, List.map_cons, others, ih hd.tail r, pieceOf, Record.slotOf_cons_self]

theorem insert_map {g : Field → Piece} (f : Field) (ps : List Field) :
    ∃ qs : List Field, qs.Perm (f :: ps) ∧ (g f).insert (ps.map g) = qs.map g := by
  induction ps with
  | nil => exact ⟨[f], List.Perm.refl _, rfl⟩
  | cons p ps ih =>
    rw [List.map_cons, Piece.insert]
    split_ifs
    · exact ⟨f :: p :: ps, List.Perm.refl _, rfl⟩
    · obtain ⟨qs, hqs, h⟩ := ih
      rw [h]
      exact ⟨p :: qs, (hqs.cons p).trans (List.Perm.swap f p ps), rfl⟩

/-- The pieces of the fields are written in some order of the fields. -/
theorem exists_assemble_eq {g : Field → Piece} (fs : List Field) :
    ∃ ps : List Field, ps.Perm fs ∧ assemble (fs.map g) = ps.flatMap fun f => (g f).bytes := by
  have sorted : ∃ ps : List Field, ps.Perm fs ∧ (fs.map g).foldr Piece.insert [] = ps.map g := by
    induction fs with
    | nil => exact ⟨[], List.Perm.refl _, rfl⟩
    | cons f fs ih =>
      obtain ⟨ps, hps, h⟩ := ih
      obtain ⟨qs, hqs, hq⟩ := insert_map (g := g) f ps
      rw [List.map_cons, List.foldr_cons, h]
      exact ⟨qs, hqs.trans (hps.cons f), hq⟩
  obtain ⟨ps, hps, h⟩ := sorted
  refine ⟨ps, hps, ?_⟩
  rw [assemble, h, List.flatMap_map]

theorem steps_fields {d : ℕ} (hn : ReadsNested d nested) (m : Message t) (hm : m.depth ≤ d)
    (ps : List Field) (hps : ∀ f ∈ ps, f ∈ t.fields) (hnd : DistinctNumbers ps) (r : Message t)
    (hr : ∀ f ∈ ps, r.slotOf f = .empty f.kind)
    (h : (ps.flatMap fun f => (pieceOf m f).bytes).length < 2 ^ 64) :
    Steps (mergeField N nested) (ps.flatMap fun f => (pieceOf m f).bytes) r (m.fill ps r) := by
  induction ps generalizing r with
  | nil => exact .nil r
  | cons f ps ih =>
    rw [List.flatMap_cons, List.length_append] at h
    have hf := hps f (by simp)
    have merged := encodeSlot_merges (n := f.number) hn (m.slotOf f)
      ((Record.depth_slotOf_le t.distinctNumbers m hf).trans hm) (by
        show (pieceOf m f).bytes.length < 2 ^ 64
        omega)
    have first := merged.steps N hf r (hr f (by simp))
    have rest := ih (fun g hg => hps g (by simp [hg])) hnd.tail (r.put f (m.slotOf f))
      (fun g hg => by
        rw [Record.slotOf_put_of_ne _ _ (hnd.number_ne_of_mem hg).symm, hr g (by simp [hg])])
      (by omega)
    rw [List.flatMap_cons, Record.fill_cons]
    exact first.append rest

/-- The bytes of a message lead from the empty message to the message. -/
theorem ReadsNested.steps_encode {d : ℕ} (hn : ReadsNested d nested) (m : Message t)
    (hm : m.depth ≤ d) (h : (encode m).length < 2 ^ 64) :
    Steps (mergeField N nested) (encode m) (.empty t) m := by
  have hd := t.distinctNumbers
  obtain ⟨ps, hps, hsorted⟩ := exists_assemble_eq (g := pieceOf m) t.fields
  rw [encode, pieces_eq_map hd, hsorted] at h ⊢
  have hnd : DistinctNumbers ps := (hps.map Field.number).nodup_iff.mpr hd
  have steps := steps_fields N hn m hm ps (fun f hf => hps.mem_iff.mp hf) hnd (.empty t)
    (fun f _ => Record.slotOf_empty f) h
  rwa [Message.empty, Record.fill_empty hd m hps] at steps

end

/-! ### Levels -/

theorem readsNested (d : ℕ) : ReadsNested d (mergeNested d) := by
  induction d with
  | zero =>
    intro t m hm
    exact absurd hm (Nat.not_lt_zero _)
  | succ d ih =>
    intro t m hm h
    exact reads_frame (ih.steps_encode d m (Nat.le_of_lt_succ hm) h) h

theorem mergeWithin_encode {n : ℕ} {t : MessageType} (m : Message t) (hm : m.depth ≤ n)
    (h : (encode m).length < 2 ^ 64) : mergeWithin n (.empty t) (encode m) = .ok m :=
  mergeWithin_of_steps ((readsNested n).steps_encode n m hm h)

/-- A message comes back from its bytes if it is not too deep, and nothing else comes back. -/
theorem mergeWithin_encode_eq_ok {n : ℕ} {t : MessageType} {m m' : Message t}
    (h : (encode m).length < 2 ^ 64) (hr : mergeWithin n (.empty t) (encode m) = .ok m') :
    m' = m := by
  have more := mergeWithin_mono (Nat.le_max_left n m.depth) hr
  rw [mergeWithin_encode m (Nat.le_max_right n m.depth) h] at more
  exact (Except.ok.inj more).symm

theorem depth_le_of_decode {t : MessageType} {m : Message t} {bs : List UInt8}
    (h : decode t bs = .ok m) : m.depth ≤ depthLimit := by
  have start : Record.depth (Message.empty t) ≤ depthLimit := by simp [Message.depth_empty]
  rw [decode_eq] at h
  exact depth_le_of_mergeWithin start h

/-- The size of a message is the number of its bytes. They are read back exactly if the message
stands at most 100 deep, and then as the message; and what is read from any bytes stands at most 100
deep, so it is read back from its own. Lengths are integers of 64 bits: no message is longer. -/
theorem decode_encode_round_trip (t : MessageType) :
    (∀ m : Message t, size m = (encode m).length) ∧
    (∀ m : Message t, (encode m).length < 2 ^ 64 →
      ((∃ m', decode t (encode m) = .ok m') ↔ m.depth ≤ 100) ∧
      ∀ m', decode t (encode m) = .ok m' → m' = m) ∧
    ∀ bs (m : Message t), decode t bs = .ok m → m.depth ≤ 100 ∧
      ((encode m).length < 2 ^ 64 → decode t (encode m) = .ok m) := by
  refine ⟨fun m => (length_encode m).symm, fun m h => ⟨⟨?_, ?_⟩, ?_⟩, fun bs m hb => ⟨?_, ?_⟩⟩
  · rintro ⟨m', hm'⟩
    obtain rfl := mergeWithin_encode_eq_ok h hm'
    exact depth_le_of_decode hm'
  · intro hm
    exact ⟨m, mergeWithin_encode m hm h⟩
  · intro m' hm'
    exact mergeWithin_encode_eq_ok h hm'
  · exact depth_le_of_decode hb
  · intro h
    exact mergeWithin_encode m (depth_le_of_decode hb) h

/-- A compiler version whose number takes ten bytes, in a request that sets nothing else. -/
def versioned : Message .request :=
  .cons (.repeated []) (.cons (.optional none) (.cons (.messages .nil) (.cons (.messages .nil)
    (.cons (.present (.cons (.optional (some (-1))) (.cons (.optional (some 0))
      (.cons (.optional none) (.cons (.optional (some "")) .nil))))) .nil))))

theorem decode_encode_versioned : (encode versioned).length < 2 ^ 64 ∧
    decode .request (encode versioned) = .ok versioned := by
  have fits : (encode versioned).length < 2 ^ 64 := by decide +kernel
  have shallow : versioned.depth ≤ 100 := by decide
  have trip := (decode_encode_round_trip .request).2.1 versioned fits
  obtain ⟨m, hm⟩ := trip.1.mpr shallow
  have same := trip.2 m hm
  rw [same] at hm
  exact ⟨fits, hm⟩

end SchemaReport.Wire
