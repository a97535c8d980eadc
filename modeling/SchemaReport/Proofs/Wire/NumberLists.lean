import SchemaReport.Proofs.Wire.FieldOrder
import SchemaReport.Proofs.Wire.RoundTrip

/-! Lists of numbers. They come as single numbers, each a record of its own, and as blocks of any
number of them, and a list takes both in any mix, however it is written itself: it holds the low 32
bits of all of them in the order of the input. Records of other fields may stand between. It is
written one way, in one block or number by number, and then the list is read again. -/

namespace SchemaReport

/-- The lists whose elements are read as 32-bit numbers. -/
def Kind.listsNumbers : Kind → Bool
  | .repeated .int32 _ => true
  | .repeated (.enum _) _ => true
  | _ => false

/-- The lists that are written as one block. -/
def Kind.isPacked : Kind → Bool
  | .repeated _ packed => packed
  | _ => false

/-- The elements of a list of numbers. -/
def Slot.numbers : {k : Kind} → Slot k → List Int32
  | .repeated .int32 _, .repeated vs => vs
  | .repeated (.enum _) _, .repeated vs => vs
  | _, _ => []

theorem Slot.numbers_empty (k : Kind) : (Slot.empty k).numbers = [] := by
  cases k with
  | «repeated» s _ => cases s <;> rfl
  | _ => rfl

namespace Wire

/-! ### Records of numbers -/

/-- The bytes are forms of the numbers, one after the other. -/
inductive IsVarints : List UInt8 → List ℕ → Prop
  | nil : IsVarints [] []
  | cons {bs cs : List UInt8} {v : ℕ} {vs : List ℕ} (h : IsVarint bs v) (hs : IsVarints cs vs) :
      IsVarints (bs ++ cs) (v :: vs)

/-- The piece is a record of field `n` with these numbers: a single one or a block of them. -/
inductive Carries (n : ℕ) : Piece → List ℕ → Prop
  | single {ks bs : List UInt8} {v : ℕ} (hk : IsKey ks ⟨n, .varint⟩) (h : IsVarint bs v) :
      Carries n ⟨n, ks ++ bs⟩ [v]
  | block {ks ls bs : List UInt8} {vs : List ℕ} (hk : IsKey ks ⟨n, .delimited⟩)
      (hl : IsVarint ls bs.length) (h : IsVarints bs vs) : Carries n ⟨n, ks ++ (ls ++ bs)⟩ vs

/-- The pieces are records, and those of field `n` carry these numbers in turn. -/
inductive CarriesInTurn (n : ℕ) : List Piece → List ℕ → Prop
  | nil : CarriesInTurn n [] []
  | numbers {p : Piece} {ps : List Piece} {vs ws : List ℕ} (hp : Carries n p vs)
      (h : CarriesInTurn n ps ws) : CarriesInTurn n (p :: ps) (vs ++ ws)
  | other {p : Piece} {ps : List Piece} {ws : List ℕ} (hp : IsRecord depthLimit p)
      (hne : p.number ≠ n) (h : CarriesInTurn n ps ws) : CarriesInTurn n (p :: ps) ws

theorem Carries.isRecord {n l : ℕ} {p : Piece} {vs : List ℕ} (h : Carries n p vs) :
    IsRecord (l + 1) p := by
  cases h with
  | single hk h => exact ⟨_, _, _, rfl, hk, .varint h⟩
  | block hk hl h => exact ⟨_, _, _, rfl, hk, .delimited hl⟩

theorem CarriesInTurn.isRecord {n : ℕ} {ps : List Piece} {ws : List ℕ}
    (h : CarriesInTurn n ps ws) : ∀ p ∈ ps, IsRecord depthLimit p := by
  induction h with
  | nil => simp
  | numbers hp _ ih => exact List.forall_mem_cons.mpr ⟨hp.isRecord, ih⟩
  | other hp _ _ ih => exact List.forall_mem_cons.mpr ⟨hp, ih⟩

/-! ### Reading -/

section Reading

variable {nested : Nested} {n : ℕ} {s : Scalar} {packed : Bool} {f : ℕ → s.Value}

theorem reads_expect_bind {α : Type} {w : WireType} {r : Reader α} {bs : List UInt8} {a : α}
    (h : Reads r bs a) : Reads (do expect w w; r) bs a := (reads_expect w).bind h

/-- Numbers in a block are read one after the other. -/
theorem IsVarints.steps (hf : ∀ bs v, IsVarint bs v → Reads (readScalar s) bs (f v))
    {bs : List UInt8} {vs : List ℕ} (h : IsVarints bs vs) (us : List s.Value) :
    Steps (appendScalar s) bs us (us ++ vs.map f) := by
  induction h generalizing us with
  | nil =>
    rw [List.map_nil, List.append_nil]
    exact .nil us
  | @cons bs cs v vs h _ ih =>
    have read : Reads (appendScalar s us) bs (us ++ [f v]) :=
      (hf bs v h).map fun a => us ++ [a]
    have rest := ih (us ++ [f v])
    rw [List.append_assoc] at rest
    exact .cons h.ne_nil read rest

/-- Both kinds of records append their numbers to a list. -/
theorem Carries.reads_repeated (hs : scalarType s = .varint)
    (hf : ∀ bs v, IsVarint bs v → Reads (readScalar s) bs (f v)) {p : Piece} {vs : List ℕ}
    (h : Carries n p vs) (us : List s.Value) :
    ∃ w ks body, p.bytes = ks ++ body ∧ IsKey ks ⟨n, w⟩ ∧
      Reads (mergeSlot nested w (.repeated us : Slot (.repeated s packed))) body
        (.repeated (us ++ vs.map f)) := by
  cases h with
  | @single ks bs v hk h =>
    refine ⟨.varint, ks, bs, rfl, hk, ?_⟩
    rw [mergeSlot, if_neg (by simp), readTyped, hs]
    exact (reads_expect_bind (hf bs v h)).map fun a => Slot.repeated (us ++ [a])
  | @block ks ls bs vs hk hl h =>
    refine ⟨.delimited, ks, ls ++ bs, rfl, hk, ?_⟩
    rw [mergeSlot, if_pos ⟨rfl, by simp [hs]⟩]
    exact ((h.steps hf us).readFrame hl.reads).map Slot.repeated

theorem Carries.exists_reads {k : Kind} (hk : k.listsNumbers) {p : Piece} {vs : List ℕ}
    (h : Carries n p vs) (s : Slot k) :
    ∃ w ks body s', p.bytes = ks ++ body ∧ IsKey ks ⟨n, w⟩ ∧
      Reads (mergeSlot nested w s) body s' ∧ s'.numbers = s.numbers ++ vs.map Int32.ofNat := by
  match k, s, hk with
  | .repeated .int32 _, .repeated us, _ =>
    obtain ⟨w, ks, body, bytes, key, read⟩ := h.reads_repeated (s := .int32) rfl
      (fun bs v h => h.reads.map Int32.ofNat) us
    exact ⟨w, ks, body, _, bytes, key, read, rfl⟩
  | .repeated (.enum e) _, .repeated us, _ =>
    obtain ⟨w, ks, body, bytes, key, read⟩ := h.reads_repeated (s := .enum e) rfl
      (fun bs v h => h.reads.map Int32.ofNat) us
    exact ⟨w, ks, body, _, bytes, key, read, rfl⟩

end Reading

section Message

variable {t : MessageType} {f : Field} {ps : List Piece} {ws : List ℕ}

theorem Carries.exists_readsRecord {l : ℕ} (hf : f ∈ t.fields) (hk : f.kind.listsNumbers)
    {p : Piece} {vs : List ℕ} (h : Carries f.number p vs) (m : Message t) :
    ∃ m', ReadsRecord l p m m' ∧
      (m'.slotOf f).numbers = (m.slotOf f).numbers ++ vs.map Int32.ofNat := by
  have hd := t.distinctNumbers
  obtain ⟨w, ks, body, s, bytes, key, read, numbers⟩ := h.exists_reads hk (m.slotOf f)
  refine ⟨m.put f s, ?_, by rw [Record.slotOf_put hd hf, numbers]⟩
  rw [ReadsRecord, bytes]
  exact key.reads.bind (reads_mergeRecord hd hf m read)

/-- The numbers are appended in turn, if the records of other fields are read at all. -/
theorem CarriesInTurn.exists_inTurn (hf : f ∈ t.fields) (hk : f.kind.listsNumbers)
    (h : CarriesInTurn f.number ps ws)
    (others : ∀ p ∈ ps, p.number ≠ f.number → ∃ q q' : Message t, ReadsRecord depthLimit p q q')
    (m : Message t) : ∃ m', InTurn depthLimit ps m m' ∧
      (m'.slotOf f).numbers = (m.slotOf f).numbers ++ ws.map Int32.ofNat := by
  induction h generalizing m with
  | nil => exact ⟨m, .nil m, by simp⟩
  | numbers hp _ ih =>
    obtain ⟨m₁, first, added⟩ := hp.exists_readsRecord hf hk m
    obtain ⟨m₂, rest, numbers⟩ := ih (fun p hp => others p (by simp [hp])) m₁
    refine ⟨m₂, .cons first rest, ?_⟩
    rw [numbers, added, List.map_append, List.append_assoc]
  | other hp hne _ ih =>
    obtain ⟨q, q', read⟩ := others _ (by simp) hne
    obtain ⟨m₁, first⟩ := exists_readsRecord read m
    obtain ⟨m₂, rest, numbers⟩ := ih (fun p hp => others p (by simp [hp])) m₁
    refine ⟨m₂, .cons first rest, ?_⟩
    rw [numbers, slotOf_of_readsRecord_of_ne hp first hf hne]

/-- A record is read if it is accepted by itself. -/
theorem exists_readsRecord_of_decode {p : Piece} (hp : IsRecord depthLimit p) {q : Message t}
    (h : decode t p.bytes = .ok q) : ∃ q q' : Message t, ReadsRecord depthLimit p q q' := by
  have record : ∀ q ∈ [p], IsRecord depthLimit q := List.forall_mem_singleton.mpr hp
  have single : p.bytes = [p].flatMap Piece.bytes := (List.flatMap_singleton _ p).symm
  rw [decode_eq, single] at h
  cases InTurn.of_steps record (steps_of_mergeWithin h) with
  | cons read _ => exact ⟨_, _, read⟩

theorem exists_decode_of_inTurn {m m' : Message t} (hps : ∀ p ∈ ps, IsRecord depthLimit p)
    (h : InTurn depthLimit ps m m') {p : Piece} (hp : p ∈ ps) :
    ∃ q : Message t, decode t p.bytes = .ok q := by
  have among : [p] ⊆ ps := by simpa using hp
  obtain ⟨q, turn⟩ := h.exists_of_subset among (.empty t)
  have steps := turn.steps (by simpa using hps p hp)
  rw [List.flatMap_singleton] at steps
  exact ⟨q, mergeWithin_of_steps steps⟩

theorem CarriesInTurn.decode_iff (hf : f ∈ t.fields) (hk : f.kind.listsNumbers)
    (h : CarriesInTurn f.number ps ws) :
    ((∃ m : Message t, decode t (ps.flatMap Piece.bytes) = .ok m) ↔
      ∀ p ∈ ps, p.number ≠ f.number → ∃ q : Message t, decode t p.bytes = .ok q) ∧
    ∀ m : Message t, decode t (ps.flatMap Piece.bytes) = .ok m →
      (m.slotOf f).numbers = ws.map Int32.ofNat := by
  have all : ∀ m : Message t, decode t (ps.flatMap Piece.bytes) = .ok m →
      InTurn depthLimit ps (.empty t) m :=
    fun m hm => .of_steps h.isRecord (steps_of_mergeWithin hm)
  have none : ((Message.empty t).slotOf f).numbers = [] := by
    rw [Message.empty, Record.slotOf_empty, Slot.numbers_empty]
  have accepted (others : ∀ p ∈ ps, p.number ≠ f.number →
      ∃ q : Message t, decode t p.bytes = .ok q) :
      ∃ m : Message t, decode t (ps.flatMap Piece.bytes) = .ok m ∧
        (m.slotOf f).numbers = ws.map Int32.ofNat := by
    obtain ⟨m, turn, numbers⟩ := h.exists_inTurn hf hk
      (fun p hp hne => (others p hp hne).elim fun _ =>
        exists_readsRecord_of_decode (h.isRecord p hp)) (.empty t)
    rw [none, List.nil_append] at numbers
    exact ⟨m, mergeWithin_of_steps (turn.steps h.isRecord), numbers⟩
  have others (m : Message t) (hm : decode t (ps.flatMap Piece.bytes) = .ok m) :
      ∀ p ∈ ps, p.number ≠ f.number → ∃ q : Message t, decode t p.bytes = .ok q :=
    fun p hp _ => exists_decode_of_inTurn h.isRecord (all m hm) hp
  refine ⟨⟨fun h => h.elim others, fun h => (accepted h).imp fun _ => And.left⟩, ?_⟩
  intro m hm
  obtain ⟨m', hm', numbers⟩ := accepted (others m hm)
  rw [hm] at hm'
  obtain rfl := Except.ok.inj hm'
  exact numbers

end Message

/-! ### Writing -/

theorem isKey_key {n : ℕ} (hpos : 0 < n) (hlt : n < 2 ^ 29) (w : WireType) :
    IsKey (key n w) ⟨n, w⟩ := by
  have hw := code_lt w
  exact ⟨isVarint_varint (by omega), hpos, hlt⟩

/-- Chunks of a field are records of its number. -/
theorem Merges.exists_records {d l n : ℕ} (hpos : 0 < n) (hlt : n < 2 ^ 29) {k : Kind}
    {bs : List UInt8} {s s' : Slot k} (h : Merges (mergeNested d) n bs s s') :
    ∃ ps, Records (l + 1) ps bs ∧ ∀ p ∈ ps, p.number = n := by
  induction h with
  | nil s => exact ⟨[], ⟨rfl, by simp⟩, by simp⟩
  | @cons w body bs s s' s'' hr _ ih =>
    obtain ⟨ps, ⟨rfl, records⟩, numbers⟩ := ih
    have first : IsRecord (l + 1) ⟨n, key n w ++ body⟩ :=
      ⟨⟨n, w⟩, _, _, rfl, isKey_key hpos hlt w, (takes_mergeSlot d w s).of_reads hr⟩
    exact ⟨⟨n, key n w ++ body⟩ :: ps, ⟨rfl, List.forall_mem_cons.mpr ⟨first, records⟩⟩,
      List.forall_mem_cons.mpr ⟨rfl, numbers⟩⟩

section Written

variable {t : MessageType} {l : ℕ}

/-- The bytes of a message are records, and those of one number are the bytes of that field. -/
theorem exists_records_of_fields (m : Message t) (gs : List Field) (hgs : ∀ g ∈ gs, g ∈ t.fields)
    (hd : DistinctNumbers gs) (h : (gs.flatMap fun g => (pieceOf m g).bytes).length < 2 ^ 64) :
    ∃ qs, Records (l + 1) qs (gs.flatMap fun g => (pieceOf m g).bytes) ∧
      (∀ q ∈ qs, ∃ g ∈ gs, q.number = g.number) ∧
      ∀ f ∈ gs, ∀ ps, Records (l + 1) ps (pieceOf m f).bytes →
        qs.filter (·.number = f.number) = ps := by
  induction gs with
  | nil => exact ⟨[], ⟨rfl, by simp⟩, by simp, by simp⟩
  | cons g gs ih =>
    rw [List.flatMap_cons, List.length_append] at h
    obtain ⟨qs, ⟨hqs, records⟩, numbers, only⟩ :=
      ih (fun g hg => hgs g (by simp [hg])) hd.tail (by omega)
    have hg := hgs g (by simp)
    obtain ⟨hpos, hlt⟩ := MessageType.number_bounds hg
    have merged := encodeSlot_merges (n := g.number) (readsNested m.depth) (m.slotOf g)
      (Record.depth_slotOf_le t.distinctNumbers m hg) (by
        show (pieceOf m g).bytes.length < 2 ^ 64
        omega)
    obtain ⟨ps, ⟨hps, own⟩, number⟩ := merged.exists_records (l := l) hpos hlt
    refine ⟨ps ++ qs, ⟨?_, ?_⟩, ?_, ?_⟩
    · rw [List.flatMap_cons, List.flatMap_append, ← hqs, ← hps]
      rfl
    · exact List.forall_mem_append.mpr ⟨own, records⟩
    · intro q hq
      rcases List.mem_append.mp hq with hq | hq
      · exact ⟨g, by simp, number q hq⟩
      · obtain ⟨f, hf, same⟩ := numbers q hq
        exact ⟨f, by simp [hf], same⟩
    · intro f hf rs hrs
      rw [List.filter_append]
      rcases List.mem_cons.mp hf with rfl | hf
      · have kept : ps.filter (·.number = f.number) = ps :=
          List.filter_eq_self.mpr fun q hq => by simpa using number q hq
        have none : qs.filter (·.number = f.number) = [] := by
          refine List.filter_eq_nil_iff.mpr fun q hq => ?_
          obtain ⟨f', hf', same⟩ := numbers q hq
          simpa [same] using (hd.number_ne_of_mem hf').symm
        rw [kept, none, List.append_nil]
        exact Records.unique ⟨hps, own⟩ hrs
      · have none : ps.filter (·.number = f.number) = [] := by
          refine List.filter_eq_nil_iff.mpr fun q hq => ?_
          simpa [number q hq] using hd.number_ne_of_mem hf
        rw [none, List.nil_append]
        exact only f hf rs hrs

/-- The records of one field among those of a message are what is written for that field. -/
theorem exists_records_encode (m : Message t) (h : (encode m).length < 2 ^ 64) :
    ∃ qs, Records (l + 1) qs (encode m) ∧
      ∀ f ∈ t.fields, ∀ ps, Records (l + 1) ps (encodeSlot f.number (m.slotOf f)) →
        qs.filter (·.number = f.number) = ps := by
  have hd := t.distinctNumbers
  obtain ⟨gs, perm, sorted⟩ := exists_assemble_eq (g := pieceOf m) t.fields
  rw [encode, pieces_eq_map hd, sorted] at h ⊢
  have distinct : DistinctNumbers gs := (perm.map Field.number).nodup_iff.mpr hd
  obtain ⟨qs, records, -, only⟩ :=
    exists_records_of_fields (l := l) m gs (fun g hg => perm.mem_iff.mp hg) distinct h
  exact ⟨qs, records, fun f hf => only f (perm.mem_iff.mpr hf)⟩

end Written

/-- The shortest form of a number, as 64 bits. -/
def numberBytes (v : Int32) : List UInt8 := varint (signed64 v.toInt)

/-- The records that a list is written as: one with all the numbers if it is packed and not empty,
and else one for each number. -/
def written (n : ℕ) (k : Kind) (vs : List Int32) : List Piece :=
  if k.isPacked then
    if vs.isEmpty then [] else [⟨n, key n .delimited ++ block (vs.flatMap numberBytes)⟩]
  else vs.map fun v => ⟨n, key n .varint ++ numberBytes v⟩

theorem encodeSlot_eq_written (n : ℕ) {k : Kind} (hk : k.listsNumbers) (s : Slot k) :
    encodeSlot n s = (written n k s.numbers).flatMap Piece.bytes := by
  have block (vs : List Int32) : (if vs.isEmpty then [] else
      key n .delimited ++ block (vs.flatMap numberBytes)) =
        (if vs.isEmpty then [] else [(⟨n, key n .delimited ++ block (vs.flatMap numberBytes)⟩ :
          Piece)]).flatMap Piece.bytes := by
    split_ifs <;> simp
  have single (vs : List Int32) : (vs.flatMap fun v => key n .varint ++ numberBytes v) =
      (vs.map fun v => (⟨n, key n .varint ++ numberBytes v⟩ : Piece)).flatMap Piece.bytes :=
    by rw [List.flatMap_map]
  match k, s, hk with
  | .repeated .int32 true, .repeated vs, _ => exact block vs
  | .repeated .int32 false, .repeated vs, _ => exact single vs
  | .repeated (.enum _) true, .repeated vs, _ => exact block vs
  | .repeated (.enum _) false, .repeated vs, _ => exact single vs

theorem isVarint_numberBytes (v : Int32) : IsVarint (numberBytes v) (signed64 v.toInt) :=
  isVarint_varint (signed64_lt _)

theorem isVarints_numberBytes (vs : List Int32) :
    IsVarints (vs.flatMap numberBytes) (vs.map fun v => signed64 v.toInt) := by
  induction vs with
  | nil => exact .nil
  | cons v vs ih =>
    rw [List.flatMap_cons]
    exact .cons (isVarint_numberBytes v) ih

/-- What is written is a record of numbers again. -/
theorem written_isRecord {l n : ℕ} (hpos : 0 < n) (hlt : n < 2 ^ 29) (k : Kind) (vs : List Int32)
    (h : ((written n k vs).flatMap Piece.bytes).length < 2 ^ 64) :
    ∀ p ∈ written n k vs, IsRecord (l + 1) p := by
  have key (w : WireType) := isKey_key hpos hlt w
  unfold written at h ⊢
  split_ifs at h ⊢ with packed empty
  · simp
  · rw [List.flatMap_singleton, block, List.length_append, List.length_append] at h
    have length := isVarint_varint (n := (vs.flatMap numberBytes).length) (by omega)
    intro p hp
    obtain rfl := List.mem_singleton.mp hp
    exact (Carries.block (key _) length (isVarints_numberBytes vs)).isRecord
  · intro p hp
    obtain ⟨v, -, rfl⟩ := List.mem_map.mp hp
    exact (Carries.single (key _) (isVarint_numberBytes v)).isRecord

/-- The fields that are lists of numbers. -/
def numberLists : List (MessageType × String) := [
  (.file, "public_dependency"), (.file, "weak_dependency"), (.location, "path"),
  (.location, "span"), (.fieldOptions, "targets")]

theorem listsNumbers_iff {t : MessageType} {f : Field} (hf : f ∈ t.fields) :
    f.kind.listsNumbers ↔ (t, f.name) ∈ numberLists := by
  have all : ∀ g ∈ t.fields, g.kind.listsNumbers ↔ (t, g.name) ∈ numberLists := by
    cases t <;> decide
  exact all f hf

theorem length_encodeSlot_le {t : MessageType} (m : Message t) {f : Field} (hf : f ∈ t.fields) :
    (encodeSlot f.number (m.slotOf f)).length ≤ (encode m).length := by
  obtain ⟨gs, perm, sorted⟩ := exists_assemble_eq (g := pieceOf m) t.fields
  have among := List.mem_map_of_mem (f := fun g => (pieceOf m g).bytes) (perm.mem_iff.mpr hf)
  rw [encode, pieces_eq_map t.distinctNumbers, sorted, List.flatMap_def]
  exact (List.sublist_flatten_of_mem among).length_le

/-- A list of numbers takes single ones and blocks in any mix. Bytes with such records, and records
of other fields among them, are accepted exactly if each of the others is accepted by itself, and
then the list holds all the numbers in turn, each as the 32 bits at its low end. The message is read
again from what is written for it, where the list is one block if it is packed, and single numbers
otherwise. -/
theorem numbers_of_records :
    (∀ t, ∀ f ∈ MessageType.fields t, f.kind.listsNumbers ↔ (t, f.name) ∈ numberLists) ∧
    ∀ t, ∀ f ∈ MessageType.fields t, f.kind.listsNumbers → ∀ ps ws, CarriesInTurn f.number ps ws →
      ((∃ m : Message t, decode t (ps.flatMap Piece.bytes) = .ok m) ↔
        ∀ p ∈ ps, p.number ≠ f.number → ∃ q : Message t, decode t p.bytes = .ok q) ∧
      ∀ m : Message t, decode t (ps.flatMap Piece.bytes) = .ok m →
        let ns := (m.slotOf f).numbers
        ns.map Int32.toInt = ws.map (fun w : ℕ => (w : ℤ).bmod (2 ^ 32)) ∧
        ((encode m).length < 2 ^ 64 → decode t (encode m) = .ok m ∧
          ∃ qs, Records depthLimit qs (encode m) ∧
            qs.filter (·.number = f.number) = written f.number f.kind ns) := by
  refine ⟨fun _ _ => listsNumbers_iff, fun t f hf hk ps ws h => ?_⟩
  obtain ⟨accepted, numbers⟩ := h.decode_iff hf hk
  refine ⟨accepted, fun m hm => ⟨?_, fun hlen => ⟨?_, ?_⟩⟩⟩
  · rw [numbers m hm, List.map_map]
    exact List.map_congr_left fun w _ => Int32.toInt_ofNat'
  · exact mergeWithin_encode m (depth_le_of_decode hm) hlen
  · obtain ⟨hpos, hlt⟩ := MessageType.number_bounds hf
    obtain ⟨qs, records, only⟩ := exists_records_encode (l := 99) m hlen
    have length := (length_encodeSlot_le m hf).trans_lt hlen
    have bytes := encodeSlot_eq_written f.number hk (m.slotOf f)
    rw [bytes] at length
    exact ⟨qs, records, only f hf _ ⟨bytes, written_isRecord hpos hlt f.kind _ length⟩⟩

/-- A single number in a form that is longer than it needs to be, a comment, and a block of two. -/
def strewnPath : List Piece := [⟨1, [8, 0x85, 0]⟩, ⟨3, [0x1a, 1, 97]⟩,
  ⟨1, [0x0a, 7, 0xff, 0xff, 0xff, 0xff, 0x0f, 0xac, 2]⟩]

theorem strewnPath_carries : CarriesInTurn 1 strewnPath [5, 4294967295, 300] := by
  have singleKey : IsKey [8] ⟨1, .varint⟩ := ⟨.last (by decide) (by decide), by decide, by decide⟩
  have blockKey : IsKey [0x0a] ⟨1, .delimited⟩ :=
    ⟨.last (by decide) (by decide), by decide, by decide⟩
  have commentKey : IsKey [0x1a] ⟨3, .delimited⟩ :=
    ⟨.last (by decide) (by decide), by decide, by decide⟩
  have comment : IsRecord depthLimit ⟨3, [0x1a, 1, 97]⟩ :=
    ⟨⟨3, .delimited⟩, [0x1a], [1] ++ [97], rfl, commentKey,
      .delimited (.last (by decide) (by decide))⟩
  have five : IsVarint [0x85, 0] 5 := .more (by decide) (.last (by decide) (by decide))
  have many : IsVarint [0xff, 0xff, 0xff, 0xff, 0x0f] 4294967295 :=
    .more (by decide) (.more (by decide) (.more (by decide) (.more (by decide)
      (.last (by decide) (by decide)))))
  have next : IsVarint [0xac, 2] 300 := .more (by decide) (.last (by decide) (by decide))
  have length : IsVarint [7] 7 := .last (by decide) (by decide)
  have pair : Carries 1 ⟨1, [0x0a, 7, 0xff, 0xff, 0xff, 0xff, 0x0f, 0xac, 2]⟩ [4294967295, 300] :=
    .block blockKey length (.cons many (.cons next .nil))
  exact .numbers (.single singleKey five) (.other comment (by decide) (.numbers pair .nil))

theorem numbers_of_strewnPath : CarriesInTurn 1 strewnPath [5, 4294967295, 300] ∧
    ∃ m : Message .location, decode .location (strewnPath.flatMap Piece.bytes) = .ok m ∧
      (m.slotOf (.packed 1 "path" "path" .int32)).numbers.map Int32.toInt = [5, -1, 300] ∧
      decode .location (encode m) = .ok m := by
  obtain ⟨m, hm, short⟩ : ∃ m, decode .location (strewnPath.flatMap Piece.bytes) = .ok m ∧
      (encode m).length < 2 ^ 64 := ⟨_, rfl, by decide +kernel⟩
  have path : Field.packed 1 "path" "path" .int32 ∈ MessageType.fields .location :=
    List.mem_cons_self
  obtain ⟨numbers, again⟩ :=
    (numbers_of_records.2 .location _ path rfl _ _ strewnPath_carries).2 m hm
  exact ⟨strewnPath_carries, m, hm, numbers, (again short).1⟩

end Wire

end SchemaReport
