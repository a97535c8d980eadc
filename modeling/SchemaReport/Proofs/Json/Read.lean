import SchemaReport.Json.Read
import SchemaReport.Proofs.Json.Levels
import SchemaReport.Proofs.Schema.Enumeration
import SchemaReport.Proofs.Text.Base64

/-! Reading back what was written for a message. Every level of nesting in the value costs one of
the levels that the reader has, and nothing else can go wrong: with enough levels the message comes
back with its NaNs made standard, and otherwise the reader stops as too deep. The members of an
object are put into an empty record one after the other. -/

namespace SchemaReport.Json

variable {α β : Type}

/-- The result `a` of reading something that takes `k` levels of nesting, with `n` to go. -/
def within (n k : ℕ) (a : α) : ReadResult α := if k ≤ n then .ok a else .error (.fault .tooDeep)

theorem within_zero (n : ℕ) (a : α) : within n 0 a = .ok a := if_pos (Nat.zero_le n)

theorem within_succ (n k : ℕ) (a : α) : within (n + 1) (k + 1) a = within n k a := by
  simp only [within, Nat.add_le_add_iff_right]

theorem within_bind {n j : ℕ} {f : α → ReadResult β} {a : α} {b : β} (h : f a = within n j b)
    (k : ℕ) : within n k a >>= f = within n (max k j) b := by
  by_cases hk : k ≤ n
  · rw [within, if_pos hk]
    show f a = _
    rw [h, within, within]
    simp only [max_le_iff, hk, true_and]
  · rw [within, if_neg hk, within, if_neg fun hle => hk (le_of_max_le_left hle)]
    rfl

theorem within_map (n k : ℕ) (a : α) (f : α → β) :
    (do return f (← within n k a)) = within n k (f a) := by
  have h := within_bind (f := fun x => (pure (f x) : ReadResult β)) (within_zero n (f a)).symm k
  rwa [max_eq_left (Nat.zero_le k)] at h

/-! ### Scalars -/

theorem found_number {n : Number} (h : n.IsWritable) :
    (Value.number n).draft.found = .ok (.number n) := by
  rw [Value.draft, Draft.found, Number.number?_numeral h]

theorem found_of_text {l : Literal} {s : String} (h : l.text = .ok s) :
    (Draft.text l).found = .ok (.text s) := by
  rw [Draft.found, h]
  rfl

theorem exists_of_found_text {d : Draft} {s : String} (h : d.found = .ok (.text s)) :
    ∃ l, d = .text l ∧ l.text = .ok s := by
  cases d with
  | text l =>
    obtain ⟨s, hs, ⟨⟩⟩ := bind_eq_ok.mp h
    exact ⟨l, rfl, hs⟩
  | number n =>
    rw [Draft.found] at h
    split at h <;> cases h
  | _ => cases h

theorem exists_of_found_number {d : Draft} {n : Number} (h : d.found = .ok (.number n)) :
    ∃ m, d = .number m ∧ m.number? = some n := by
  cases d with
  | text l =>
    obtain ⟨s, hs, ⟨⟩⟩ := bind_eq_ok.mp h
  | number m =>
    rw [Draft.found] at h
    split at h
    next k hk =>
      obtain rfl := Found.number.inj (Except.ok.inj h)
      exact ⟨m, rfl, hk⟩
    next => cases h
  | _ => cases h

theorem found_text (s : String) : (Value.text s).draft.found = .ok (.text s) :=
  found_of_text (text_of s)

theorem lift_eq_ok_iff {x : Except Fault α} {a : α} : lift x = .ok a ↔ x = .ok a := by
  cases x <;> simp [lift, Except.mapError]

/-- A token that is neither an array nor an object costs no level. -/
theorem readScalar_of_found {depth : ℕ} {s : Scalar} {d : Draft} {f : Found} (h : d.found = .ok f)
    (ha : f ≠ .array) (ho : f ≠ .object) : readScalar depth s d = scalarOf s f := by
  rw [readScalar, h]
  show (if _ then _ else _) = _
  rw [if_neg (by simp [ha, ho])]

theorem readScalar_text {l : Literal} {s : String} (h : l.text = .ok s) (depth : ℕ)
    (sc : Scalar) : readScalar depth sc (.text l) = scalarOf sc (.text s) :=
  readScalar_of_found (found_of_text h) (by simp) (by simp)

theorem scalarOf_eq_ok_iff {s : Scalar} {f : Found} {v : s.Value} :
    scalarOf s f = .ok v ↔ fit s f = some (some v) := by
  rw [scalarOf]
  split
  next w hw => rw [hw, Except.ok.injEq, Option.some.injEq, Option.some.injEq]
  next hw => simp [hw]
  next hw => simp [hw]

theorem scalarOf_eq {s : Scalar} {f : Found} {v : s.Value} (h : fit s f = some (some v)) :
    scalarOf s f = .ok v := scalarOf_eq_ok_iff.mpr h

theorem fit_int32 (i : Int32) :
    (if inRange (-2 ^ 31) (2 ^ 31 - 1) i.toInt then some (Int32.ofInt i.toInt) else none) =
      some i := by
  have lo := i.le_toInt
  have hi := i.toInt_lt
  have inside : inRange (-2 ^ 31) (2 ^ 31 - 1) i.toInt = true := by
    simp only [inRange, Bool.and_eq_true, decide_eq_true_eq]
    omega
  rw [if_pos inside, Int32.ofInt_toInt]

theorem infinity_isNegative {d : Double} (h : d.isInfinite = true) :
    Double.infinity d.isNegative = d := by
  have hm : d.magnitude = Double.infinityMagnitude := by simpa [Double.isInfinite] using h
  rw [Double.infinity, ← hm, Double.ofMagnitude_magnitude]

theorem readScalar_ofDouble (depth : ℕ) (d : Double) :
    readScalar depth .double (ofDouble d).draft = .ok d.standard := by
  unfold ofDouble
  split_ifs with hn hi hs
  · rw [readScalar_of_found (found_text "NaN") (by simp) (by simp)]
    apply scalarOf_eq
    simp [fit, doubleOfText?, Double.standard, hn]
  · rw [readScalar_of_found (found_text "-Infinity") (by simp) (by simp)]
    apply scalarOf_eq
    have := infinity_isNegative hi
    simp_all [fit, doubleOfText?, Double.standard]
  · rw [readScalar_of_found (found_text "Infinity") (by simp) (by simp)]
    apply scalarOf_eq
    have := infinity_isNegative hi
    simp_all [fit, doubleOfText?, Double.standard]
  · have finite : (Number.double d).IsWritable :=
      d.isFinite_iff.mpr ⟨Bool.eq_false_iff.mpr hn, Bool.eq_false_iff.mpr hi⟩
    rw [readScalar_of_found (found_number finite) (by simp) (by simp)]
    apply scalarOf_eq
    simp [fit, Double.standard, hn]

theorem readScalar_ofScalar (depth : ℕ) (s : Scalar) (v : s.Value) :
    readScalar depth s (ofScalar s v).draft = .ok (s.standard v) := by
  cases s with
  | string => exact readScalar_of_found (found_text v) (by simp) (by simp)
  | bytes =>
    rw [ofScalar, readScalar_of_found (found_text _) (by simp) (by simp)]
    apply scalarOf_eq
    rw [fit, String.toList_ofList, Text.Base64.decode_encode]
    rfl
  | bool => exact readScalar_of_found (f := .bool v) rfl (by simp) (by simp)
  | int32 =>
    rw [ofScalar, readScalar_of_found (found_number (int32_isWritable v)) (by simp) (by simp)]
    exact scalarOf_eq (congrArg some (fit_int32 v))
  | int64 =>
    have lo := Int64.le_toInt v
    have hi := Int64.toInt_lt v
    have writable : (Number.int (Int64.toInt v)).IsWritable := ⟨by omega, by omega⟩
    rw [ofScalar, readScalar_of_found (found_number writable) (by simp) (by simp)]
    apply scalarOf_eq
    rw [fit, if_pos (by simp only [inRange, Bool.and_eq_true, decide_eq_true_eq]; omega)]
    exact congrArg (some ∘ some) (Int64.ofInt_toInt v)
  | uint64 =>
    have hi := UInt64.toNat_lt v
    have writable : (Number.int (UInt64.toNat v)).IsWritable := ⟨by omega, by omega⟩
    rw [ofScalar, readScalar_of_found (found_number writable) (by simp) (by simp)]
    apply scalarOf_eq
    rw [fit, if_pos (by simp only [inRange, Bool.and_eq_true, decide_eq_true_eq]; omega),
      Int.toNat_natCast]
    exact congrArg (some ∘ some) (UInt64.ofNat_toNat)
  | double => exact readScalar_ofDouble depth v
  | enum e =>
    rw [ofScalar]
    split
    next s hs =>
      rw [readScalar_of_found (found_text s) (by simp) (by simp)]
      exact scalarOf_eq (congrArg some (Enumeration.numberOf?_of_nameOf? hs))
    next =>
      rw [readScalar_of_found (found_number (int32_isWritable v)) (by simp) (by simp)]
      exact scalarOf_eq (congrArg some (fit_int32 v))

/-! ### Lists -/

theorem mapM_eq_ok_iff {ε : Type} {f : α → Except ε β} {bs : List β} {as : List α} :
    as.mapM f = .ok bs ↔ List.Forall₂ (fun b a => f a = .ok b) bs as := by
  constructor
  · intro h
    induction as generalizing bs with
    | nil =>
      cases h
      exact .nil
    | cons a as ih =>
      rw [List.mapM_cons] at h
      obtain ⟨b, hb, h⟩ := bind_eq_ok.mp h
      obtain ⟨bs, hbs, ⟨⟩⟩ := bind_eq_ok.mp h
      exact .cons hb (ih hbs)
  · intro h
    induction h with
    | nil => rfl
    | cons h _ ih =>
      rw [List.mapM_cons, h, ih]
      rfl

theorem ArrayEnd.fault?_eq_none_iff {stop : ArrayEnd} : stop.fault? = none ↔ stop = .closed := by
  cases stop <;> simp [ArrayEnd.fault?]

theorem orFault_eq_ok_iff {a b : α} {f? : Option Fault} :
    orFault a f? = .ok b ↔ f? = none ∧ a = b := by
  cases f? <;> simp [orFault]

/-- A list is read from a sound array, for which there must be a level. -/
theorem readList_eq_ok_iff {depth : ℕ} {item : ℕ → Draft → ReadResult α} {d : Draft} {as : List α} :
    readList depth item d = .ok as ↔ ∃ k ds, depth = k + 1 ∧ d = .array ds .closed ∧
      List.Forall₂ (fun a d => item k d = .ok a) as ds := by
  constructor
  · intro h
    unfold readList at h
    split at h
    next => cases h
    next k ds stop =>
      obtain ⟨bs, items, h⟩ := bind_eq_ok.mp h
      obtain ⟨sound, rfl⟩ := orFault_eq_ok_iff.mp h
      obtain rfl := ArrayEnd.fault?_eq_none_iff.mp sound
      exact ⟨k, ds, rfl, rfl, mapM_eq_ok_iff.mp items⟩
    next =>
      obtain ⟨f, -, ⟨⟩⟩ := bind_eq_ok.mp h
  · rintro ⟨k, ds, rfl, rfl, items⟩
    rw [readList, mapM_eq_ok_iff.mpr items]
    rfl

theorem mapM_within {n : ℕ} (read : Draft → ReadResult β) (write : α → Value) (back : α → β)
    (as : List α) (h : ∀ a ∈ as, read (write a).draft = within n (write a).nesting (back a)) :
    (itemDrafts (as.map write)).mapM read =
      within n (itemsNesting (as.map write)) (as.map back) := by
  induction as with
  | nil => exact (within_zero n []).symm
  | cons a as ih =>
    have ih := ih fun b hb => h b (by simp [hb])
    rw [List.map_cons, List.map_cons, itemDrafts, itemsNesting, List.mapM_cons, h a (by simp)]
    refine within_bind ?_ _
    rw [ih]
    exact within_map n _ (as.map back) (back a :: ·)

theorem readList_ofScalars (n : ℕ) (s : Scalar) (vs : List s.Value) :
    readList n (fun depth => readScalar depth s) (Value.array (vs.map (ofScalar s))).draft =
      within n (Value.array (vs.map (ofScalar s))).nesting (vs.map s.standard) := by
  cases n with
  | zero => rfl
  | succ n =>
    have items := mapM_within (n := n) (readScalar n s) (ofScalar s) s.standard vs fun v _ => by
      rw [ofScalar_nesting, within_zero, readScalar_ofScalar]
    rw [Value.nesting, within_succ, ← items, Value.draft, readList]
    cases List.mapM (readScalar n s) (itemDrafts (vs.map (ofScalar s))) <;> rfl

theorem itemsOf_eq_map {t : MessageType} : (ms : Messages t) →
    itemsOf ms = ms.toList.map ofMessage
  | .nil => rfl
  | .cons m ms => by
    rw [itemsOf, itemsOf_eq_map ms]
    rfl

theorem ofList_map_standard {t : MessageType} : (ms : Messages t) →
    Messages.ofList (ms.toList.map Record.standard) = ms.standard
  | .nil => rfl
  | .cons m ms => by
    rw [Messages.toList, List.map_cons, Messages.ofList, ofList_map_standard ms, Messages.standard]

/-! ### Slots -/

theorem readSlot_optional {d : Draft} (h : d ≠ .null) (depth : ℕ) (nested : Nested) (s : Scalar) :
    readSlot depth nested d (.optional s) =
      (readScalar depth s d).map fun v => .optional (some v) := by
  rw [readSlot.eq_def]
  dsimp only
  split
  next => exact absurd rfl h
  next => cases readScalar depth s d <;> rfl

theorem readSlot_message {d : Draft} (h : d ≠ .null) (depth : ℕ) (nested : Nested)
    (t : MessageType) :
    readSlot depth nested d (.message t) = (nested.one t d).map .present := by
  rw [readSlot.eq_def]
  dsimp only
  split
  next => exact absurd rfl h
  next => cases nested.one t d <;> rfl

/-! ### Messages -/

/-- Nested messages are read back from `n` levels of nesting. -/
structure ReadsBack (n : ℕ) (nested : Nested) : Prop where
  one : ∀ {t : MessageType} (m : Message t),
    nested.one t (ofMessage m).draft = within n (ofMessage m).nesting m.standard
  list : ∀ {t : MessageType} (ms : List (Message t)),
    nested.list t (Value.array (ms.map ofMessage)).draft =
      within n (Value.array (ms.map ofMessage)).nesting (ms.map Record.standard)

theorem draft_ne_null {v : Value} (h : v ≠ .null) : v.draft ≠ .null := by
  cases v <;> simp_all [Value.draft]

theorem ReadsBack.readSlot {n : ℕ} {nested : Nested} (hn : ReadsBack n nested) {k : Kind}
    {s : Slot k} {v : Value} (h : slotValue? s = some v) :
    readSlot n nested v.draft k = within n v.nesting s.standard := by
  cases s with
  | @required s x =>
    obtain rfl := Option.some.inj h
    rw [Json.readSlot, readScalar_ofScalar, ofScalar_nesting, within_zero]
    rfl
  | @optional s x =>
    obtain ⟨a, rfl, rfl⟩ := Option.map_eq_some_iff.mp h
    rw [readSlot_optional (draft_ne_null (ofScalar_ne_null s a)), readScalar_ofScalar,
      ofScalar_nesting, within_zero]
    rfl
  | @repeated s packed xs =>
    rw [slotValue?] at h
    split_ifs at h
    obtain rfl := Option.some.inj h
    rw [Json.readSlot, readList_ofScalars]
    exact within_map n _ (xs.map s.standard) Slot.repeated
  | absent => simp [slotValue?] at h
  | present m =>
    obtain rfl := Option.some.inj h
    show (do return Slot.present (← nested.one _ (ofMessage m).draft)) = _
    rw [hn.one m]
    exact within_map n _ m.standard Slot.present
  | messages ms =>
    cases ms with
    | nil => simp [slotValue?] at h
    | cons m ms =>
      obtain rfl := Option.some.inj h
      have list : Value.array (.object (membersOf m) :: itemsOf ms) =
          .array ((Messages.cons m ms).toList.map ofMessage) := by
        rw [itemsOf_eq_map]
        rfl
      rw [list, Json.readSlot, hn.list, Slot.standard, ← ofList_map_standard]
      exact within_map n _ _ fun ms => Slot.messages (.ofList ms)

theorem readKey_ok {fs : List Field} {seen : List String} {k : Literal} {key : String}
    (hk : k.text = .ok key) (h : key ∉ seen ∨ key ∉ fs.map Field.key) :
    readKey fs seen k = .ok key := by
  rw [readKey, hk]
  show (if _ then _ else _) = _
  rw [if_neg]
  · rfl
  · simpa [List.mem_map, imp_iff_not_or] using h

theorem readKey_of {fs : List Field} {seen : List String} {key : String} (h : key ∉ seen) :
    readKey fs seen (.of key.toList) = .ok key :=
  readKey_ok (text_of key) (.inl h)

section

variable {fs : List Field} (hd : DistinctNumbers fs) (hk : (fs.map Field.key).Nodup)

include hd hk

theorem readMember_key {f : Field} (hf : f ∈ fs)
    (slot : Draft → (k : Kind) → ReadResult (Slot k)) (d : Draft) (r : Record fs) :
    readMember slot f.key d r = some (do return r.put f (← slot d f.kind)) := by
  induction fs with
  | nil => simp at hf
  | cons g fs ih =>
    cases r with
    | cons s r =>
      rcases List.mem_cons.mp hf with rfl | hf
      · rw [readMember, if_pos rfl]
        simp only [Record.put_cons_self]
      · have hkey : g.key ≠ f.key := by
          intro h
          exact (List.nodup_cons.mp hk).1 (h ▸ List.mem_map_of_mem hf)
        rw [readMember, if_neg hkey, ih hd.tail (List.nodup_cons.mp hk).2 hf]
        simp only [Option.map_some, Record.put_cons_of_ne _ _ _ (hd.number_ne_of_mem hf)]
        cases slot d f.kind <;> rfl

/-- The members of `m`, in whatever order of its fields, put into a record the slots that they are
read as; fields without a member must be empty in the record. -/
theorem readMembers_fill {n : ℕ} (slot : Draft → (k : Kind) → ReadResult (Slot k))
    (m back : Record fs)
    (filled : ∀ f ∈ fs, ∀ v, slotValue? (m.slotOf f) = some v →
      slot v.draft f.kind = within n v.nesting (back.slotOf f))
    (unset : ∀ f ∈ fs, slotValue? (m.slotOf f) = none → back.slotOf f = .empty f.kind)
    (ps : List Field) (hps : ∀ f ∈ ps, f ∈ fs) (hnd : (ps.map Field.key).Nodup)
    (seen : List String) (hseen : ∀ f ∈ ps, f.key ∉ seen) (r : Record fs)
    (hr : ∀ f ∈ ps, r.slotOf f = .empty f.kind) :
    readMembers slot .closed seen r (memberDrafts (ps.filterMap (memberOf? m))) =
      within n (membersNesting (ps.filterMap (memberOf? m))) (back.fill ps r) := by
  induction ps generalizing seen r with
  | nil => exact (within_zero n r).symm
  | cons f ps ih =>
    have hf := hps f (by simp)
    have hps' : ∀ g ∈ ps, g ∈ fs := fun g hg => hps g (by simp [hg])
    obtain ⟨hfresh, hnd'⟩ := List.nodup_cons.mp hnd
    have hkey : ∀ g ∈ ps, g.key ≠ f.key := fun g hg h => hfresh (h ▸ List.mem_map_of_mem hg)
    rw [List.filterMap_cons, Record.fill_cons]
    cases hv : slotValue? (m.slotOf f) with
    | none =>
      have same : r.put f (back.slotOf f) = r := by
        rw [unset f hf hv, ← hr f (by simp), Record.put_slotOf hd hf]
      rw [show memberOf? m f = none by rw [memberOf?, hv]; rfl, same]
      exact ih hps' hnd' _ (fun g hg => hseen g (by simp [hg])) _ fun g hg => hr g (by simp [hg])
    | some v =>
      rw [show memberOf? m f = some (f.key, v) by rw [memberOf?, hv]; rfl]
      have ih := ih hps' hnd' (f.key :: seen)
        (fun g hg => by simp [hkey g hg, hseen g (by simp [hg])]) (r.put f (back.slotOf f))
        (fun g hg => by
          rw [Record.slotOf_put_of_ne, hr g (by simp [hg])]
          intro h
          exact hkey g hg (congrArg Field.key (hd.eq_of_number_eq (hps' g hg) hf h)))
      simp only [memberDrafts, memberDraft, membersNesting, memberNesting]
      rw [readMembers, readKey_of (hseen f (by simp))]
      show Except.bind (.ok f.key) _ = _
      rw [Except.bind, readMember_key hd hk hf]
      show (do return r.put f (← slot v.draft f.kind)) >>= _ = _
      rw [filled f hf v hv, within_map]
      exact within_bind (f := fun r => readMembers slot .closed (f.key :: seen) r _) ih _

end

theorem membersOf_nesting {t : MessageType} (m : Message t) :
    (ofMessage m).nesting = membersNesting (t.fields.filterMap (memberOf? m)) + 1 := by
  rw [ofMessage, Value.nesting, membersOf_eq_filterMap t.distinctNumbers]

/-- With one level more, the reader gets through objects of fields that it gets through. -/
theorem ReadsBack.readMessage {n : ℕ} (hn : ReadsBack n ⟨readMessage n, readMessages n⟩)
    {t : MessageType} (m : Message t) :
    Json.readMessage (n + 1) t (ofMessage m).draft =
      within (n + 1) (ofMessage m).nesting m.standard := by
  have members := readMembers_fill t.distinctNumbers t.nodup_keys
    (Json.readSlot n ⟨Json.readMessage n, Json.readMessages n⟩) m m.standard
    (fun f hf v hv => by
      rw [Record.slotOf_standard t.distinctNumbers m hf]
      exact hn.readSlot hv)
    (fun f hf hv => by
      rw [Record.slotOf_standard t.distinctNumbers m hf, slotValue?_eq_none hv,
        Slot.standard_empty])
    t.fields (fun _ hf => hf) t.nodup_keys [] (by simp) (Message.empty t)
    (fun f _ => Record.slotOf_empty f)
  rw [membersOf_nesting, within_succ, ofMessage, membersOf_eq_filterMap t.distinctNumbers,
    Value.draft, Json.readMessage, members, Message.empty,
    Record.fill_empty t.distinctNumbers _ (List.Perm.refl _)]

theorem readsBack (n : ℕ) : ReadsBack n ⟨readMessage n, readMessages n⟩ := by
  induction n with
  | zero => exact ⟨fun _ => rfl, fun _ => rfl⟩
  | succ n ih =>
    refine ⟨ih.readMessage, fun {t} ms => ?_⟩
    have items := mapM_within (readMessage n t) ofMessage Record.standard ms fun m _ => ih.one m
    rw [Value.nesting, within_succ, ← items, Value.draft]
    dsimp only
    rw [readMessages]
    cases List.mapM (readMessage n t) (itemDrafts (ms.map ofMessage)) <;> rfl

/-- What is read from the text of a message: the message with its NaNs made standard, if the arrays
and objects of the text do not nest too deep. -/
theorem read_write {t : MessageType} (l : Layout) (m : Message t) :
    read t (write l m ++ ['\n']) =
      within depthLimit (nesting (write l m ++ ['\n'])) m.standard := by
  rw [write, nesting_print, read, scan_print (ofMessage_isWritable m)]
  have back : readMessage depthLimit t (ofMessage m).draft = _ := (readsBack depthLimit).one m
  show readMessage depthLimit t (ofMessage m).draft >>= _ = _
  rw [back]
  exact within_map depthLimit _ m.standard id

end SchemaReport.Json
