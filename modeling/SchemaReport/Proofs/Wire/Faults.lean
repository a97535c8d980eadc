import SchemaReport.Proofs.Text.Digits
import SchemaReport.Proofs.Wire.Reader

/-! Where a fault is found. Whatever the bytes are, the path of a fault leads from the type that is
read down its fields, and the text of the error is a single line. -/

namespace SchemaReport.Wire

variable {α β : Type}

/-- The steps, the innermost first, go down from `t`: each is a field, and the next one in is a
field of the messages that it holds. -/
inductive Descends : MessageType → List Step → Prop
  | here (t : MessageType) : Descends t []
  | field {t : MessageType} {f : Field} (hf : f ∈ t.fields) : Descends t [⟨t, f.name⟩]
  | into {t u : MessageType} {f : Field} {path : List Step} (hf : f ∈ t.fields)
      (holds : f.kind = .message u ∨ f.kind = .messages u) (below : Descends u path) :
      Descends t (path ++ [⟨t, f.name⟩])

/-- Inside of a value of kind `k` only the messages that it holds have fields. -/
def DescendsIn (k : Kind) (path : List Step) : Prop :=
  path = [] ∨ ∃ u, (k = .message u ∨ k = .messages u) ∧ Descends u path

theorem Descends.of_in {t : MessageType} {f : Field} {path : List Step} (hf : f ∈ t.fields)
    (h : DescendsIn f.kind path) : Descends t (path ++ [⟨t, f.name⟩]) := by
  obtain rfl | ⟨u, holds, below⟩ := h
  · exact .field hf
  · exact .into hf holds below

/-! ### Readers -/

/-- Whatever the reader fails with, `P` holds of the path to it. -/
def Blames (P : List Step → Prop) (r : Reader α) : Prop := ∀ i e, r i = .error e → P e.path

namespace Blames

variable {P : List Step → Prop}

theorem pure (a : α) : Blames P (Pure.pure a) := by
  intro i e h
  cases h

theorem fail (f : Fault) (h : P []) : Blames P (Reader.fail f : Reader α) := by
  rintro i e ⟨⟩
  exact h

theorem mono {Q : List Step → Prop} {r : Reader α} (hr : Blames P r) (h : ∀ p, P p → Q p) :
    Blames Q r := fun i e he => h _ (hr i e he)

theorem bind {r : Reader α} {f : α → Reader β} (hr : Blames P r) (hf : ∀ a, Blames P (f a)) :
    Blames P (r >>= f) := by
  intro i e h
  change (r i).bind _ = _ at h
  cases ha : r i with
  | error e' =>
    rw [ha] at h
    obtain rfl := Except.error.inj h
    exact hr i e' ha
  | ok x =>
    rw [ha] at h
    exact hf x.1 x.2 e h

theorem bind_pure {r : Reader α} (hr : Blames P r) (f : α → β) :
    Blames P (do return f (← r)) := hr.bind fun a => pure (f a)

/-- Reading where the input stands does not fail. -/
theorem bind_get {f : Input → Reader α} (hf : ∀ i, Blames P (f i)) : Blames P (get >>= f) :=
  bind (fun _ _ h => by cases h) hf

theorem inside {r : Reader α} (hr : Blames P r) (t : MessageType) (f : Field) :
    Blames (fun p => ∃ q, P q ∧ p = q ++ [⟨t, f.name⟩]) (r.inside t f) := by
  intro i e h
  change (r i).mapError _ = _ at h
  cases hi : r i with
  | ok x =>
    rw [hi] at h
    cases h
  | error e' =>
    rw [hi] at h
    obtain rfl := Except.error.inj h
    exact ⟨e'.path, hr i e' hi, rfl⟩

theorem readUntil {step : α → Reader α} (hs : ∀ a, Blames P (step a)) (left fuel : ℕ) (a : α) :
    Blames P (readUntil step left fuel a) := by
  induction fuel generalizing a with
  | zero => exact pure a
  | succ fuel ih =>
    refine bind_get fun i => ?_
    split_ifs
    · exact pure a
    · exact (hs a).bind ih

end Blames

/-- Where no message is read, a fault lies nowhere but here. -/
theorem blames_readVarint : Blames (· = []) readVarint := by
  intro i e h
  unfold readVarint at h
  split at h
  · cases h
  · obtain rfl := Except.error.inj h
    rfl

theorem blames_readBytes (n : ℕ) : Blames (· = []) (readBytes n) := by
  intro i e h
  unfold readBytes at h
  split at h
  · cases h
  · obtain rfl := Except.error.inj h
    rfl

theorem blames_readBlock : Blames (· = []) readBlock := blames_readVarint.bind blames_readBytes

theorem Blames.readFrame {P : List Step → Prop} (hP : P []) {step : α → Reader α}
    (hs : ∀ a, Blames P (step a)) (a : α) : Blames P (readFrame step a) := by
  rw [readFrame_eq]
  refine (blames_readVarint.mono fun p hp => hp ▸ hP).bind fun n => bind_get fun i => ?_
  split_ifs
  · exact fail _ hP
  · refine (readUntil hs _ _ a).bind fun b => bind_get fun j => ?_
    split_ifs
    · exact pure b
    · exact fail _ hP

theorem blames_readKey : Blames (· = []) readKey := by
  refine blames_readVarint.bind fun n => ?_
  split
  · exact .fail _ rfl
  · split
    · exact .fail _ rfl
    · split_ifs
      · exact .fail _ rfl
      · exact .pure _

theorem blames_skipGroup {skip : Key → Reader Unit} (hs : ∀ k, Blames (· = []) (skip k))
    (n fuel : ℕ) : Blames (· = []) (skipGroup skip n fuel) := by
  induction fuel with
  | zero => exact .fail _ rfl
  | succ fuel ih =>
    refine blames_readKey.bind fun k => ?_
    split_ifs
    · exact .pure ()
    · exact .fail _ rfl
    · exact (hs k).bind fun _ => ih

theorem blames_skip (depth : ℕ) (k : Key) : Blames (· = []) (skip depth k) := by
  induction depth generalizing k with
  | zero => exact .fail _ rfl
  | succ depth ih =>
    rw [skip]
    cases k.type with
    | varint => exact blames_readVarint.bind_pure _
    | fixed64 => exact (blames_readBytes 8).bind_pure _
    | fixed32 => exact (blames_readBytes 4).bind_pure _
    | delimited => exact blames_readBlock.bind_pure _
    | startGroup => exact .bind_get fun i => blames_skipGroup ih _ _
    | endGroup => exact .fail _ rfl

theorem blames_readScalar (s : Scalar) : Blames (· = []) (readScalar s) := by
  cases s with
  | string =>
    refine blames_readBlock.bind fun bs => ?_
    split
    · exact .pure _
    · exact .fail _ rfl
  | bytes => exact blames_readBlock
  | double => exact (blames_readBytes 8).bind_pure _
  | bool => exact blames_readVarint.bind_pure _
  | int32 => exact blames_readVarint.bind_pure _
  | int64 => exact blames_readVarint.bind_pure _
  | uint64 => exact blames_readVarint.bind_pure _
  | enum _ => exact blames_readVarint.bind_pure _

theorem blames_expect (a e : WireType) : Blames (· = []) (expect a e) := by
  unfold expect
  split_ifs
  · exact .pure ()
  · exact .fail _ rfl

theorem blames_readTyped (w : WireType) (s : Scalar) : Blames (· = []) (readTyped w s) :=
  (blames_expect _ _).bind fun _ => blames_readScalar s

/-! ### Messages -/

theorem blames_mergeSlot {nested : Nested} (hn : ∀ t m, Blames (Descends t) (nested t m))
    (w : WireType) {k : Kind} (s : Slot k) : Blames (DescendsIn k) (mergeSlot nested w s) := by
  have scalar {γ : Type} {r : Reader γ} (hr : Blames (· = []) r) : Blames (DescendsIn k) r :=
    hr.mono fun _ => .inl
  cases s with
  | required v => exact (scalar (blames_readTyped w _)).bind_pure _
  | optional v => exact (scalar (blames_readTyped w _)).bind_pure _
  | @«repeated» s _ vs =>
    rw [mergeSlot]
    split_ifs
    · have step (vs : List s.Value) : Blames (· = []) (appendScalar s vs) :=
        (blames_readScalar s).bind_pure _
      exact (scalar (.readFrame (P := (· = [])) rfl step vs)).bind_pure _
    · exact (scalar (blames_readTyped w s)).bind_pure _
  | @absent t =>
    have below : Blames (DescendsIn (.message t)) (nested t (.empty t)) :=
      (hn t _).mono fun p hp => .inr ⟨t, .inl rfl, hp⟩
    exact (scalar (blames_expect _ _)).bind fun _ => below.bind_pure _
  | @present t m =>
    have below : Blames (DescendsIn (.message t)) (nested t m) :=
      (hn t _).mono fun p hp => .inr ⟨t, .inl rfl, hp⟩
    exact (scalar (blames_expect _ _)).bind fun _ => below.bind_pure _
  | @messages t ms =>
    have below : Blames (DescendsIn (.messages t)) (nested t (.empty t)) :=
      (hn t _).mono fun p hp => .inr ⟨t, .inr rfl, hp⟩
    exact (scalar (blames_expect _ _)).bind fun _ => below.bind_pure _

theorem blames_mergeRecord {nested : Nested} (hn : ∀ t m, Blames (Descends t) (nested t m))
    {skip : Key → Reader Unit} (hs : ∀ k, Blames (· = []) (skip k)) {t : MessageType} (k : Key) :
    {fs : List Field} → (∀ f ∈ fs, f ∈ t.fields) → (r : Record fs) →
      Blames (Descends t) (mergeRecord nested skip t k r)
  | _, _, .nil => ((hs k).mono fun _ hp => hp ▸ .here t).bind_pure _
  | f :: _, own, .cons s r => by
    rw [mergeRecord]
    split_ifs
    · refine (((blames_mergeSlot hn k.type s).inside t f).mono ?_).bind_pure _
      rintro _ ⟨q, hq, rfl⟩
      exact .of_in (own f (by simp)) hq
    · exact (blames_mergeRecord hn hs k (fun g hg => own g (by simp [hg])) r).bind_pure _

theorem blames_mergeField {nested : Nested} (hn : ∀ t m, Blames (Descends t) (nested t m))
    (depth : ℕ) {t : MessageType} (m : Message t) :
    Blames (Descends t) (mergeField depth nested m) :=
  (blames_readKey.mono fun _ hp => hp ▸ .here t).bind fun k =>
    blames_mergeRecord hn (blames_skip depth) k (fun _ h => h) m

theorem blames_mergeNested (depth : ℕ) (t : MessageType) (m : Message t) :
    Blames (Descends t) (mergeNested depth t m) := by
  induction depth generalizing t with
  | zero => exact .fail _ (.here t)
  | succ depth ih => exact .readFrame (.here t) (blames_mergeField ih depth) m

/-- An error names the fields that lead to it. -/
theorem descends_of_merge {t : MessageType} {m : Message t} {bs : List UInt8} {e : DecodeError}
    (h : merge m bs = .error e) : Descends t e.path := by
  have step := blames_mergeField (blames_mergeNested depthLimit) depthLimit (t := t)
  have loop := Blames.readUntil step 0 bs.length m
  unfold merge at h
  change Except.map _ _ = _ at h
  cases hr : Wire.readUntil (mergeField depthLimit (mergeNested depthLimit)) 0 bs.length m
      (.ofList bs) with
  | ok x =>
    rw [hr] at h
    cases h
  | error e' =>
    rw [hr] at h
    obtain rfl := Except.error.inj h
    exact loop _ _ hr

/-! ### The text of an error -/

/-- Whether a text has a line break can be seen from its bytes, which are sooner evaluated. -/
theorem newline_notMem_of_bytes {s : String} (h : 10 ∉ s.toByteArray.data.toList) :
    '\n' ∉ s.toList := by
  intro hc
  refine h ?_
  rw [← String.utf8Encode_toList, List.utf8Encode, List.data_toByteArray, List.mem_flatMap]
  exact ⟨'\n', hc, by decide⟩

theorem newline_notMem_names : (∀ t : MessageType, '\n' ∉ t.name.toList) ∧
    ∀ t : MessageType, ∀ f ∈ t.fields, '\n' ∉ f.name.toList := by
  have plain : MessageType.all.all (fun t => !t.name.toByteArray.data.toList.contains 10 &&
      t.fields.all fun f => !f.name.toByteArray.data.toList.contains 10) = true := by
    decide +kernel
  have all : ∀ t : MessageType, t ∈ MessageType.all := by
    intro t
    cases t <;> decide
  simp only [List.all_eq_true, Bool.and_eq_true, Bool.not_eq_true', List.contains_eq_mem,
    decide_eq_false_iff_not] at plain
  exact ⟨fun t => newline_notMem_of_bytes (plain t (all t)).1,
    fun t f hf => newline_notMem_of_bytes ((plain t (all t)).2 f hf)⟩

theorem newline_notMem_append {s t : String} (hs : '\n' ∉ s.toList) (ht : '\n' ∉ t.toList) :
    '\n' ∉ (s ++ t).toList := by
  rw [String.toList_append]
  exact List.not_mem_append hs ht

theorem newline_notMem_step {t : MessageType} {f : Field} (hf : f ∈ t.fields) :
    '\n' ∉ (Step.text ⟨t, f.name⟩).toList := by
  have field : '\n' ∉ (if f.name = "type" then "r#type" else f.name).toList := by
    split_ifs
    · decide
    · exact newline_notMem_names.2 t f hf
  exact newline_notMem_append (newline_notMem_append
    (newline_notMem_append (newline_notMem_names.1 t) (by decide)) field) (by decide)

theorem Descends.newline_notMem {t : MessageType} {path : List Step} (h : Descends t path) :
    ∀ s ∈ path, '\n' ∉ s.text.toList := by
  induction h with
  | here t => simp
  | field hf => simpa using newline_notMem_step hf
  | into hf _ _ ih =>
    intro s hs
    obtain hs | hs := List.mem_append.mp hs
    · exact ih s hs
    · obtain rfl := List.mem_singleton.mp hs
      exact newline_notMem_step hf

theorem newline_notMem_number (n : ℕ) : '\n' ∉ (toString n).toList := by
  intro h
  have digits : '\n' ∈ Nat.toDigits 10 n := by simpa using h
  exact absurd (Text.isDigit_of_mem_decimal digits) (by decide)

theorem newline_notMem_fault (f : Fault) : '\n' ∉ f.message.toList := by
  have numbered {s : String} (hs : '\n' ∉ s.toList) (n : ℕ) :
      '\n' ∉ (s ++ toString n).toList := newline_notMem_append hs (newline_notMem_number n)
  cases f with
  | key n => exact numbered (s := "invalid key value: ") (by decide) n
  | wireType n => exact numbered (s := "invalid wire type value: ") (by decide) n
  | fieldNumber n => exact numbered (s := "invalid tag value: ") (by decide) n
  | unexpectedType a e =>
    have name (w : WireType) : '\n' ∉ w.name.toList := by cases w <;> decide
    exact newline_notMem_append (newline_notMem_append (newline_notMem_append
      (newline_notMem_append (by decide) (name a)) (by decide)) (name e)) (by decide)
  | _ => decide

theorem newline_notMem_message {t : MessageType} {bs : List UInt8} {e : DecodeError}
    (h : decode t bs = .error e) : '\n' ∉ e.message.toList := by
  have steps := (descends_of_merge h).newline_notMem
  have path : '\n' ∉ (String.join (e.path.map Step.text)).toList := by
    rw [String.toList_join]
    simpa using steps
  exact newline_notMem_append (newline_notMem_append (by decide) path)
    (newline_notMem_fault e.fault)

end SchemaReport.Wire
