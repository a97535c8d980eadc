import SchemaReport.Proofs.Json.WholeDouble

/-! The spellings of a message. Every message in it, at any depth, is an object of its fields in any
order or an array of them in the order of declaration. Fields that are empty may be left out, an
unset field may be null, and an object may have members that the type does not know. All spellings
are read as the message. -/

namespace SchemaReport.Json

/-! ### Scalars -/

/-- The values that stand for a scalar. Bytes have one text, integers have one literal, and an
enumeration goes by a name or by its number. -/
inductive SpellsScalar : (s : Scalar) → s.Value → Draft → Prop
  | string {v : String} {l : Literal} (h : l.Spells v) : SpellsScalar .string v (.text l)
  | bytes {b : List UInt8} {l : Literal}
    (h : l.Spells (String.ofList (Text.Base64.encode b))) : SpellsScalar .bytes b (.text l)
  | bool (b : Bool) : SpellsScalar .bool b (.bool b)
  | int32 (i : Int32) : SpellsScalar .int32 i (.number (Number.int i.toInt).numeral)
  | int64 (i : Int64) : SpellsScalar .int64 i (.number (Number.int i.toInt).numeral)
  | uint64 (n : UInt64) : SpellsScalar .uint64 n (.number (Number.int n.toNat).numeral)
  | double {d : Double} {n : Numeral} (h : n.number? = some (.double d)) :
    SpellsScalar .double d (.number n)
  /-- An integer that is the value of a double. -/
  | whole {i : ℤ} (writable : (Number.int i).IsWritable) (h : Double.Holds i.natAbs) :
    SpellsScalar .double (.ofInt i) (.number (Number.int i).numeral)
  | infinity (negative : Bool) {l : Literal}
    (h : l.Spells (if negative then "-Infinity" else "Infinity")) :
    SpellsScalar .double (.infinity negative) (.text l)
  | nan {l : Literal} (h : l.Spells "NaN") : SpellsScalar .double .nan (.text l)
  | name {e : Enumeration} {v : String × Int32} {l : Literal} (hv : v ∈ e.values)
    (h : l.Spells v.1) : SpellsScalar (.enum e) v.2 (.text l)
  | number (e : Enumeration) (i : Int32) :
    SpellsScalar (.enum e) i (.number (Number.int i.toInt).numeral)

theorem SpellsScalar.read {s : Scalar} {v : s.Value} {d : Draft} (h : SpellsScalar s v d)
    (depth : ℕ) : readScalar depth s d = .ok v := by
  cases h with
  | string h => exact readScalar_text h.text depth .string
  | bytes h =>
    rw [readScalar_text h.text]
    apply scalarOf_eq
    rw [fit, String.toList_ofList, Text.Base64.decode_encode]
  | bool b => exact readScalar_of_found (f := .bool b) rfl (by simp) (by simp)
  | int32 i => exact readScalar_ofScalar depth .int32 i
  | int64 i => exact readScalar_ofScalar depth .int64 i
  | uint64 n => exact readScalar_ofScalar depth .uint64 n
  | @double d n h =>
    have found : (Draft.number n).found = .ok (.number (.double d)) := by
      rw [Draft.found, h]
    exact readScalar_of_found found (by simp) (by simp)
  | @whole i writable h =>
    rw [readScalar_integer writable]
    apply scalarOf_eq
    rw [fit, doubleOfInt?_eq writable.1 writable.2, if_pos (.inl h)]
  | infinity negative h =>
    rw [readScalar_text h.text]
    cases negative <;> rfl
  | nan h =>
    rw [readScalar_text h.text]
    rfl
  | name hv h =>
    rw [readScalar_text h.text]
    exact scalarOf_eq (congrArg some (Enumeration.numberOf?_eq_some hv))
  | number e i =>
    rw [readScalar_integer (int32_isWritable i)]
    exact scalarOf_eq (congrArg some (fit_int32 i))

theorem SpellsScalar.ne_null {s : Scalar} {v : s.Value} {d : Draft} (h : SpellsScalar s v d) :
    d ≠ .null := by
  cases h <;> simp

/-! ### Messages -/

mutual

/-- What a slot is read from, with `n` levels of brackets at most. What is passed over does not
count. -/
inductive SpellsSlot : ℕ → {k : Kind} → Slot k → Draft → Prop
  | required {n : ℕ} {s : Scalar} {v : s.Value} {d : Draft} (h : SpellsScalar s v d) :
    SpellsSlot n (.required v) d
  | unset {n : ℕ} {s : Scalar} : SpellsSlot n (.optional none : Slot (.optional s)) .null
  | optional {n : ℕ} {s : Scalar} {v : s.Value} {d : Draft} (h : SpellsScalar s v d) :
    SpellsSlot n (.optional (some v)) d
  | repeated {n : ℕ} {s : Scalar} {packed : Bool} {vs : List s.Value} {ds : List Draft}
    (h : List.Forall₂ (SpellsScalar s) vs ds) :
    SpellsSlot (n + 1) (.repeated vs : Slot (.repeated s packed)) (.array ds .closed)
  | absent {n : ℕ} {t : MessageType} : SpellsSlot n (.absent : Slot (.message t)) .null
  | present {n : ℕ} {t : MessageType} {m : Message t} {d : Draft} (h : SpellsMessage n m d) :
    SpellsSlot n (.present m) d
  | messages {n : ℕ} {t : MessageType} {ms : Messages t} {ds : List Draft}
    (h : SpellsMessages n ms ds) : SpellsSlot (n + 1) (.messages ms) (.array ds .closed)

inductive SpellsMessages : ℕ → {t : MessageType} → Messages t → List Draft → Prop
  | nil {n : ℕ} {t : MessageType} : SpellsMessages n (.nil : Messages t) []
  | cons {n : ℕ} {t : MessageType} {m : Message t} {ms : Messages t} {d : Draft} {ds : List Draft}
    (h : SpellsMessage n m d) (h' : SpellsMessages n ms ds) :
    SpellsMessages n (.cons m ms) (d :: ds)

inductive SpellsMessage : ℕ → {t : MessageType} → Message t → Draft → Prop
  | array {n : ℕ} {t : MessageType} {m : Message t} {ds : List Draft} (h : SpellsItems n m ds) :
    SpellsMessage (n + 1) m (.array ds .closed)
  | object {n : ℕ} {t : MessageType} {m : Message t} {ms : List (Literal × Draft)}
    (h : SpellsMembers n m t.fields ms) : SpellsMessage (n + 1) m (.object ms .closed)

/-- The slots in the order of declaration. Empty ones at the end may be left out. -/
inductive SpellsItems : ℕ → {fs : List Field} → Record fs → List Draft → Prop
  | rest {n : ℕ} {fs : List Field} : SpellsItems n (.empty fs) []
  | cons {n : ℕ} {f : Field} {fs : List Field} {s : Slot f.kind} {r : Record fs} {d : Draft}
    {ds : List Draft} (h : SpellsSlot n s d) (h' : SpellsItems n r ds) :
    SpellsItems n (.cons s r) (d :: ds)

/-- Members for the fields that are left, each for one of them or for none. Fields without a member
are empty. -/
inductive SpellsMembers : ℕ → {fs : List Field} → Record fs → List Field →
    List (Literal × Draft) → Prop
  | rest {n : ℕ} {fs : List Field} {m : Record fs} {left : List Field}
    (h : ∀ f ∈ left, m.slotOf f = .empty f.kind) : SpellsMembers n m left []
  | known {n : ℕ} {fs : List Field} {m : Record fs} {left : List Field} {f : Field} {k : Literal}
    {d : Draft} {ms : List (Literal × Draft)} (hf : f ∈ left) (hk : k.Spells f.key)
    (h : SpellsSlot n (m.slotOf f) d) (h' : SpellsMembers n m (left.filter (·.key ≠ f.key)) ms) :
    SpellsMembers n m left ((k, d) :: ms)
  | unknown {n : ℕ} {fs : List Field} {m : Record fs} {left : List Field} {key : String}
    {k : Literal} {d : Draft} {ms : List (Literal × Draft)} (hk : k.Spells key)
    (h : key ∉ fs.map Field.key) (h' : SpellsMembers n m left ms) :
    SpellsMembers n m left ((k, d) :: ms)

end

theorem SpellsMessage.ne_null {n : ℕ} {t : MessageType} {m : Message t} {d : Draft}
    (h : SpellsMessage n m d) : d ≠ .null := by
  cases h <;> simp

/-! ### Reading -/

theorem readMember_unknown {key : String} (slot : Draft → (k : Kind) → ReadResult (Slot k))
    (d : Draft) {fs : List Field} (h : key ∉ fs.map Field.key) (r : Record fs) :
    readMember slot key d r = none := by
  induction fs with
  | nil =>
    cases r
    rfl
  | cons f fs ih =>
    cases r with
    | cons s r =>
      rw [List.map_cons, List.mem_cons, not_or] at h
      rw [readMember, if_neg (Ne.symm h.1), ih h.2]
      rfl

/-- How the slots of a message are read that stands `n` levels above the last. -/
abbrev slotReader (n : ℕ) : Draft → (k : Kind) → ReadResult (Slot k) :=
  readSlot n ⟨readMessage n, readMessages n⟩

/-- While members are read into `r`, after the keys `seen`: it has the slots of `m` but for the fields
that are left, for which it has nothing yet. -/
structure Filling {fs : List Field} (m : Record fs) (left : List Field) (seen : List String)
    (r : Record fs) : Prop where
  below : ∀ f ∈ left, f ∈ fs
  fresh : ∀ f ∈ left, f.key ∉ seen
  empty : ∀ f ∈ left, r.slotOf f = .empty f.kind
  filled : ∀ f ∈ fs, f ∉ left → r.slotOf f = m.slotOf f

namespace Filling

variable {fs left : List Field} {m r : Record fs} {seen : List String}

theorem start (m : Record fs) : Filling m fs [] (.empty fs) where
  below _ hf := hf
  fresh _ _ := List.not_mem_nil
  empty f _ := Record.slotOf_empty f
  filled _ hf hl := absurd hf hl

theorem unknown (h : Filling m left seen r) {key : String} (hkey : key ∉ fs.map Field.key) :
    Filling m left (key :: seen) r where
  below := h.below
  fresh f hf := by
    have known : f.key ∈ fs.map Field.key := List.mem_map_of_mem (h.below f hf)
    rw [List.mem_cons, not_or]
    exact ⟨fun same => hkey (same ▸ known), h.fresh f hf⟩
  empty := h.empty
  filled := h.filled

variable (hd : DistinctNumbers fs)

include hd

theorem known (hk : (fs.map Field.key).Nodup) (h : Filling m left seen r) {f : Field}
    (hf : f ∈ left) :
    Filling m (left.filter (·.key ≠ f.key)) (f.key :: seen) (r.put f (m.slotOf f)) := by
  have other : ∀ g ∈ left.filter (·.key ≠ f.key), g ∈ left ∧ g.key ≠ f.key := by
    intro g hg
    simpa using hg
  refine ⟨fun g hg => h.below g (other g hg).1, fun g hg => ?_, fun g hg => ?_, fun g hg hl => ?_⟩
  · rw [List.mem_cons, not_or]
    exact ⟨(other g hg).2, h.fresh g (other g hg).1⟩
  · obtain ⟨hg, key⟩ := other g hg
    have number : g.number ≠ f.number := by
      intro number
      exact key (congrArg Field.key (hd.eq_of_number_eq (h.below g hg) (h.below f hf) number))
    rw [Record.slotOf_put_of_ne _ _ number, h.empty g hg]
  · by_cases number : g.number = f.number
    · obtain rfl := hd.eq_of_number_eq hg (h.below f hf) number
      exact Record.slotOf_put hd hg r _
    · have key : g.key ≠ f.key := by
        intro key
        exact number (congrArg Field.number (List.inj_on_of_nodup_map hk hg (h.below f hf) key))
      rw [Record.slotOf_put_of_ne _ _ number]
      exact h.filled g hg fun hl' => hl (by simpa using ⟨hl', key⟩)

theorem eq (h : Filling m left seen r) (hm : ∀ f ∈ left, m.slotOf f = .empty f.kind) : r = m := by
  refine Record.ext_slotOf hd fun f hf => ?_
  by_cases hl : f ∈ left
  · rw [h.empty f hl, hm f hl]
  · exact h.filled f hf hl

end Filling

mutual

theorem SpellsSlot.read : {n : ℕ} → {k : Kind} → {s : Slot k} → {d : Draft} → SpellsSlot n s d →
    d.skipFault? = none → slotReader n d k = .ok s
  | n, _, _, _, .required h, _ => by
    show (do return Slot.required (← readScalar n _ _)) = _
    rw [h.read]
    rfl
  | _, _, _, _, .unset, _ => rfl
  | n, _, _, _, .optional h, _ => by
    rw [slotReader, readSlot_optional h.ne_null, h.read]
    rfl
  | n + 1, _, _, _, .repeated h, _ => by
    have items := mapM_eq_ok_iff.mpr (h.imp fun v d (h : SpellsScalar _ v d) => h.read n)
    rw [slotReader, readSlot, readList, items]
    rfl
  | _, _, _, _, .absent, _ => rfl
  | n, _, _, _, .present h, sound => by
    rw [slotReader, readSlot_message h.ne_null]
    dsimp only
    rw [h.read sound]
    rfl
  | n + 1, _, _, _, .messages h, sound => by
    have items := h.read (Option.or_eq_none_iff.mp sound).1
    rw [slotReader, readSlot]
    dsimp only
    rw [readMessages, items]
    exact congrArg (fun ms => Except.ok (Slot.messages ms)) (Messages.ofList_toList _)

theorem SpellsMessages.read : {n : ℕ} → {t : MessageType} → {ms : Messages t} →
    {ds : List Draft} → SpellsMessages n ms ds → itemsFault? ds = none →
    ds.mapM (readMessage n t) = .ok ms.toList
  | _, _, _, _, .nil, _ => rfl
  | _, _, _, _, .cons h h', sound => by
    obtain ⟨first, others⟩ := Option.or_eq_none_iff.mp sound
    rw [List.mapM_cons, h.read first, h'.read others]
    rfl

theorem SpellsMessage.read : {n : ℕ} → {t : MessageType} → {m : Message t} → {d : Draft} →
    SpellsMessage n m d → d.skipFault? = none → readMessage n t d = .ok m
  | n + 1, t, m, _, .array h, sound => by
    rw [readMessage]
    exact h.read (Option.or_eq_none_iff.mp sound).1
  | n + 1, t, m, _, .object h, sound => by
    rw [readMessage]
    exact h.read (Option.or_eq_none_iff.mp sound).1 t.distinctNumbers t.nodup_keys (.start m)

theorem SpellsItems.read : {n : ℕ} → {fs : List Field} → {r : Record fs} → {ds : List Draft} →
    SpellsItems n r ds → itemsFault? ds = none → readItems (slotReader n) .closed fs ds = .ok r
  | _, fs, _, _, .rest, _ => by cases fs <;> rfl
  | _, _, _, _, .cons h h', sound => by
    obtain ⟨first, others⟩ := Option.or_eq_none_iff.mp sound
    rw [readItems, h.read first, h'.read others]
    rfl

theorem SpellsMembers.read : {n : ℕ} → {fs : List Field} → {m : Record fs} → {left : List Field} →
    {ms : List (Literal × Draft)} → SpellsMembers n m left ms → membersFault? ms = none →
    DistinctNumbers fs → (fs.map Field.key).Nodup → ∀ {seen r}, Filling m left seen r →
    readMembers (slotReader n) .closed seen r ms = .ok m
  | _, _, _, _, _, .rest h, _, hd, _, seen, r, filling => by
    rw [filling.eq hd h]
    rfl
  | n, _, m, _, _, .known (f := f) (d := d) hf hk h h', sound, hd, nodup, seen, r, filling => by
    obtain ⟨first, others⟩ := Option.or_eq_none_iff.mp sound
    have rest := h'.read others hd nodup (filling.known hd nodup hf)
    rw [readMembers, readKey_ok hk.text (.inl (filling.fresh f hf))]
    show Except.bind (.ok f.key) _ = _
    rw [Except.bind, readMember_key hd nodup (filling.below f hf)]
    show (do return r.put f (← slotReader n d f.kind)) >>= _ = _
    rw [h.read first]
    exact rest
  | _, _, _, _, _, .unknown (d := d) hk h h', sound, hd, nodup, seen, r, filling => by
    obtain ⟨first, others⟩ := Option.or_eq_none_iff.mp sound
    have rest := h'.read others hd nodup (filling.unknown h)
    rw [readMembers, readKey_ok hk.text (.inr h)]
    show Except.bind (.ok _) _ = _
    rw [Except.bind, readMember_unknown _ _ h]
    dsimp only
    rw [first]
    exact rest

end

/-! ### Levels -/

theorem within_pred {n j k : ℕ} (h : n + 1 ≤ j + 1 ∨ k + 1 ≤ j + 1) : n ≤ j ∨ k ≤ j :=
  h.imp Nat.le_of_succ_le_succ Nat.le_of_succ_le_succ

theorem not_within_zero {n k : ℕ} : ¬ (n + 1 ≤ 0 ∨ k + 1 ≤ 0) := by omega

mutual

/-- Levels beyond those that a spelling takes are not needed, and it takes no more than its brackets
nest. -/
theorem SpellsSlot.within : {n j : ℕ} → {k : Kind} → {s : Slot k} → {d : Draft} →
    SpellsSlot n s d → n ≤ j ∨ d.nesting ≤ j → SpellsSlot j s d
  | _, _, _, _, _, .required h, _ => .required h
  | _, _, _, _, _, .unset, _ => .unset
  | _, _, _, _, _, .optional h, _ => .optional h
  | _, 0, _, _, _, .repeated _, hj => absurd hj not_within_zero
  | _, _ + 1, _, _, _, .repeated h, _ => .repeated h
  | _, _, _, _, _, .absent, _ => .absent
  | _, _, _, _, _, .present h, hj => .present (h.within hj)
  | _, 0, _, _, _, .messages _, hj => absurd hj not_within_zero
  | _, _ + 1, _, _, _, .messages h, hj => .messages (h.within (within_pred hj))

theorem SpellsMessages.within : {n j : ℕ} → {t : MessageType} → {ms : Messages t} →
    {ds : List Draft} → SpellsMessages n ms ds → n ≤ j ∨ draftsNesting ds ≤ j →
    SpellsMessages j ms ds
  | _, _, _, _, _, .nil, _ => .nil
  | _, _, _, _, _, .cons h h', hj =>
    .cons (h.within (hj.imp_right le_of_max_le_left)) (h'.within (hj.imp_right le_of_max_le_right))

theorem SpellsMessage.within : {n j : ℕ} → {t : MessageType} → {m : Message t} → {d : Draft} →
    SpellsMessage n m d → n ≤ j ∨ d.nesting ≤ j → SpellsMessage j m d
  | _, 0, _, _, _, .array _, hj | _, 0, _, _, _, .object _, hj =>
    absurd hj not_within_zero
  | _, _ + 1, _, _, _, .array h, hj =>
    .array (h.within (within_pred hj))
  | _, _ + 1, _, _, _, .object h, hj =>
    .object (h.within (within_pred hj))

theorem SpellsItems.within : {n j : ℕ} → {fs : List Field} → {r : Record fs} →
    {ds : List Draft} → SpellsItems n r ds → n ≤ j ∨ draftsNesting ds ≤ j → SpellsItems j r ds
  | _, _, _, _, _, .rest, _ => .rest
  | _, _, _, _, _, .cons h h', hj =>
    .cons (h.within (hj.imp_right le_of_max_le_left)) (h'.within (hj.imp_right le_of_max_le_right))

theorem SpellsMembers.within : {n j : ℕ} → {fs : List Field} → {m : Record fs} →
    {left : List Field} → {ms : List (Literal × Draft)} → SpellsMembers n m left ms →
    n ≤ j ∨ memberDraftsNesting ms ≤ j → SpellsMembers j m left ms
  | _, _, _, _, _, _, .rest h, _ => .rest h
  | _, _, _, _, _, _, .known hf hk h h', hj =>
    .known hf hk (h.within (hj.imp_right le_of_max_le_left))
      (h'.within (hj.imp_right le_of_max_le_right))
  | _, _, _, _, _, _, .unknown hk h h', hj =>
    .unknown hk h (h'.within (hj.imp_right le_of_max_le_right))

end

/-- The text writes the message, with brackets up to `n` deep outside of what is passed over. -/
def IsSpelling (n : ℕ) {t : MessageType} (m : Message t) (cs : List Char) : Prop :=
  ∃ d, WritesElement d cs ∧ SpellsMessage n m d

/-- All spellings of a message are read as the message, if their brackets nest at most 127 deep,
those in what is passed over counted or not. -/
theorem read_isSpelling {t : MessageType} {m : Message t} {n : ℕ} {cs : List Char}
    (spelling : IsSpelling n m cs) (levels : n ≤ 127 ∨ nesting cs ≤ 127) : read t cs = .ok m := by
  obtain ⟨d, text, spells⟩ := spelling
  obtain ⟨r, scanned, blank⟩ := text.scan_eq
  have within : SpellsMessage 127 m d := spells.within (by rwa [text.nesting] at levels)
  have message := within.read text.skipFault?_eq_none
  rw [read, scanned]
  show readMessage 127 t d >>= _ = _
  rw [message]
  show (if _ then _ else _) = _
  rw [Option.getD_some, blank]
  rfl

def optionName : Field := .messages 2 "name" "name" .namePart

def identifierValue : Field := .optional 3 "identifier_value" "identifierValue" .string

def partName : Field := .required 1 "name_part" "namePart" .string

def partIsExtension : Field := .required 2 "is_extension" "isExtension" .bool

def plainPart : Message .namePart := .cons (.required "a") (.cons (.required false) .nil)

def extensionPart : Message .namePart :=
  ((Message.empty .namePart).put partName (.required "b")).put partIsExtension (.required true)

/-- The option that has only a name, of two parts. -/
def namedOption : Message .uninterpretedOption :=
  (Message.empty .uninterpretedOption).put optionName
    (.messages (.cons plainPart (.cons extensionPart .nil)))

def plainPartValue : Value := .array [.text "a"]

def extensionPartValue : Value := .object [("isExtension", .bool true), ("namePart", .text "b")]

/-- A spelling of it: a key that is not known, an unset identifier, and a name of which the first
part is an array without its last element and the second an object in reverse. -/
def namedOptionValue : Value :=
  .object [("x", .array [.null]), ("identifierValue", .null),
    ("name", .array [plainPartValue, extensionPartValue])]

theorem namedOptionValue_isWritable : namedOptionValue.IsWritable := by
  have first : plainPartValue.IsWritable := .array (by simp [Value.IsWritable.text])
  have second : extensionPartValue.IsWritable :=
    .object (by simp [Value.IsWritable.bool, Value.IsWritable.text])
  have unknown : (Value.array [.null]).IsWritable := .array (by simp [Value.IsWritable.null])
  have name : (Value.array [plainPartValue, extensionPartValue]).IsWritable :=
    .array (by simp [first, second])
  exact .object (by simp [unknown, Value.IsWritable.null, name])

theorem spells_plainPart : SpellsMessage 1 plainPart plainPartValue.draft :=
  .array (.cons (.required (.string (spells_of "a"))) .rest)

theorem spells_extensionPart : SpellsMessage 1 extensionPart extensionPartValue.draft := by
  have hd := MessageType.namePart.distinctNumbers
  have known : partName ∈ MessageType.namePart.fields ∧
      partIsExtension ∈ MessageType.namePart.fields := by
    simp [MessageType.fields, partName, partIsExtension]
  have extension : extensionPart.slotOf partIsExtension = .required true :=
    Record.slotOf_put hd known.2 _ _
  have name : extensionPart.slotOf partName = .required "b" :=
    (Record.slotOf_put_of_ne _ _ (by decide)).trans (Record.slotOf_put hd known.1 _ _)
  refine .object (.known (f := partIsExtension) known.2 (spells_of "isExtension") ?_
    (.known (f := partName) ?_ (spells_of "namePart") ?_ (.rest ?_)))
  · rw [extension]
    exact .required (.bool true)
  · exact List.mem_filter.mpr ⟨known.1, by decide⟩
  · rw [name]
    exact .required (.string (spells_of "b"))
  · intro f hf
    simp [MessageType.fields, Field.required, partName, partIsExtension] at hf

theorem isSpelling_namedOption :
    IsSpelling 3 namedOption (namedOptionValue.print (some 1) 0 ++ ['\n']) := by
  have hd := MessageType.uninterpretedOption.distinctNumbers
  have known : optionName ∈ MessageType.uninterpretedOption.fields ∧
      identifierValue ∈ MessageType.uninterpretedOption.fields := by
    simp [MessageType.fields, optionName, identifierValue]
  have name : namedOption.slotOf optionName =
      .messages (.cons plainPart (.cons extensionPart .nil)) := Record.slotOf_put hd known.1 _ _
  have others {f : Field} (h : f.number ≠ optionName.number) :
      namedOption.slotOf f = .empty f.kind :=
    (Record.slotOf_put_of_ne _ _ h).trans (Record.slotOf_empty f)
  refine ⟨_, namedOptionValue_isWritable.writesElement (some 1), ?_⟩
  refine .object (.unknown (spells_of "x") (by decide)
    (.known (f := identifierValue) known.2 (spells_of "identifierValue") ?_
      (.known (f := optionName) ?_ (spells_of "name") ?_ (.rest ?_))))
  · rw [others (by decide)]
    exact .unset
  · exact List.mem_filter.mpr ⟨known.1, by decide⟩
  · rw [name]
    exact .messages (.cons spells_plainPart (.cons spells_extensionPart .nil))
  · have left : ∀ f ∈ ((MessageType.uninterpretedOption.fields.filter
        (·.key ≠ identifierValue.key)).filter (·.key ≠ optionName.key)),
        f.number ≠ optionName.number := by
      decide
    exact fun f hf => others (left f hf)

theorem read_namedOption :
    (IsSpelling 3 namedOption (namedOptionValue.print (some 1) 0 ++ ['\n']) ∧
      (3 ≤ 127 ∨ nesting (namedOptionValue.print (some 1) 0 ++ ['\n']) ≤ 127)) ∧
    read .uninterpretedOption (namedOptionValue.print (some 1) 0 ++ ['\n']) = .ok namedOption :=
  ⟨⟨isSpelling_namedOption, .inl (by decide)⟩,
    read_isSpelling isSpelling_namedOption (.inl (by decide))⟩

end SchemaReport.Json
