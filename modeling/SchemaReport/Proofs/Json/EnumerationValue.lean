import SchemaReport.Proofs.Json.Written

/-! Values of enumerations in JSON. A number that is declared is written as its name and any other in
decimal, so no two numbers are written alike. Of all JSON values, the names of that enumeration, with
whatever escapes, and the literals of the integers that 32 bits hold are read, a name as its number.
Only where nothing need be given may null stand instead, and a list of values has no null among
them. -/

namespace SchemaReport

/-- The scalar that a field holds one of, or a list of. -/
def Kind.scalar? : Kind → Option Scalar
  | .required s | .optional s | .repeated s _ => some s
  | .message _ | .messages _ => none

namespace Json

/-! ### Texts -/

/-- The texts that stand for a number: the literals of its name in the enumeration, with any escapes,
and its own literal. -/
inductive WritesEnum (e : Enumeration) : Int32 → List Char → Prop
  | name {v : String × Int32} {l : Literal} {cs : List Char} (hv : v ∈ e.values)
    (hl : l.Spells v.1) (h : WritesLiteral l cs) : WritesEnum e v.2 cs
  -- The literal `-0` is not among them: it is that of a double.
  | number {i : ℤ} (lo : -2 ^ 31 ≤ i) (hi : i < 2 ^ 31) : WritesEnum e (Int32.ofInt i) (intText i)

/-- The texts of the items of a list, with any blanks around each of them. -/
inductive WritesEnums (e : Enumeration) : List Int32 → List Char → Prop
  | one {n : Int32} {before cs after : List Char} (hb : IsBlank before) (h : WritesEnum e n cs)
    (ha : IsBlank after) : WritesEnums e [n] (before ++ (cs ++ after))
  | more {n : Int32} {ns : List Int32} {before cs after cs' : List Char} (hb : IsBlank before)
    (h : WritesEnum e n cs) (ha : IsBlank after) (h' : WritesEnums e ns cs') :
    WritesEnums e (n :: ns) (before ++ (cs ++ after) ++ ',' :: cs')

/-- The texts of what a field holds. -/
inductive WritesEnumSlot (e : Enumeration) : {k : Kind} → Slot k → List Char → Prop
  | required {n : Int32} {cs : List Char} (h : WritesEnum e n cs) :
    WritesEnumSlot e (.required n : Slot (.required (.enum e))) cs
  | unset : WritesEnumSlot e (.optional none : Slot (.optional (.enum e))) "null".toList
  | optional {n : Int32} {cs : List Char} (h : WritesEnum e n cs) :
    WritesEnumSlot e (.optional (some n) : Slot (.optional (.enum e))) cs
  | noItems {packed : Bool} {bs : List Char} (h : IsBlank bs) :
    WritesEnumSlot e (.repeated [] : Slot (.repeated (.enum e) packed)) ('[' :: bs ++ [']'])
  | items {packed : Bool} {ns : List Int32} {cs : List Char} (h : WritesEnums e ns cs) :
    WritesEnumSlot e (.repeated ns : Slot (.repeated (.enum e) packed)) ('[' :: cs ++ [']'])

variable {e : Enumeration}

theorem writesEnum_iff {n : Int32} {cs : List Char} :
    WritesEnum e n cs ↔ ∃ d, Writes d cs ∧ SpellsScalar (.enum e) n d := by
  constructor
  · rintro (⟨hv, hl, h⟩ | @⟨i, lo, hi⟩)
    · exact ⟨_, .text h, .name hv hl⟩
    · have number := SpellsScalar.number e (Int32.ofInt i)
      rw [Int32.toInt_ofInt_of_le lo hi] at number
      exact ⟨_, .number (Number.writesNumber_int_iff.mpr rfl), number⟩
  · rintro ⟨d, text, spells⟩
    cases spells with
    | name hv hl =>
      cases text with
      | text h => exact .name hv hl h
    | number =>
      cases text with
      | number h =>
        have number := WritesEnum.number (e := e) (Int32.le_toInt n) (Int32.toInt_lt n)
        rwa [Int32.ofInt_toInt, ← Number.writesNumber_int_iff.mp h] at number

/-! ### Reading one value -/

theorem spellsScalar_of_fit {d : Draft} {f : Found} {n : Int32} (hd : d.found = .ok f)
    (h : fit (.enum e) f = some (some n)) : SpellsScalar (.enum e) n d := by
  cases f with
  | text s =>
    obtain ⟨l, rfl, hl⟩ := exists_of_found_text hd
    have declared : (s, n) ∈ e.values := Enumeration.numberOf?_eq_some_iff.mp (Option.some.inj h)
    exact .name declared (Literal.text_eq_ok_iff.mp hl)
  | number m =>
    cases m with
    | int i =>
      obtain ⟨m, rfl, hm⟩ := exists_of_found_number hd
      obtain rfl := Number.eq_numeral hm
      simp only [fit, Option.some.injEq, Option.ite_none_right_eq_some, inRange, Bool.and_eq_true,
        decide_eq_true_eq] at h
      obtain ⟨⟨lo, hi⟩, rfl⟩ := h
      have number := SpellsScalar.number e (Int32.ofInt i)
      rwa [Int32.toInt_ofInt_of_le lo (by omega)] at number
    | double => cases h
  | _ => cases h

/-- What is read as a number stands for it, also of what is no JSON. -/
theorem readScalar_enum_iff {depth : ℕ} {d : Draft} {n : Int32} :
    readScalar depth (.enum e) d = .ok n ↔ SpellsScalar (.enum e) n d := by
  refine ⟨fun h => ?_, fun h => h.read depth⟩
  obtain ⟨f, found, h⟩ := bind_eq_ok.mp h
  split_ifs at h
  exact spellsScalar_of_fit (lift_eq_ok_iff.mp found) (scalarOf_eq_ok_iff.mp h)

/-- Of the texts of JSON values, those that stand for a number are read as it. -/
theorem readScalar_iff_writesEnum {d : Draft} {cs : List Char} (h : Writes d cs) {depth : ℕ}
    {n : Int32} : readScalar depth (.enum e) d = .ok n ↔ WritesEnum e n cs := by
  rw [readScalar_enum_iff, writesEnum_iff]
  refine ⟨fun spells => ⟨d, h, spells⟩, ?_⟩
  rintro ⟨d', h', spells⟩
  rwa [h.unique h']

/-- A text stands for one number. -/
theorem WritesEnum.unique {n n' : Int32} {cs : List Char} (h : WritesEnum e n cs)
    (h' : WritesEnum e n' cs) : n = n' := by
  obtain ⟨d, text, spells⟩ := writesEnum_iff.mp h
  obtain ⟨d', text', spells'⟩ := writesEnum_iff.mp h'
  obtain rfl := text.unique text'
  exact Except.ok.inj ((spells.read 0).symm.trans (spells'.read 0))

/-! ### Writing one value -/

theorem writesEnum_print (n : Int32) (l : Layout) (depth : ℕ) :
    WritesEnum e n ((ofScalar (.enum e) n).print l depth) :=
  writesEnum_iff.mpr ⟨_, (ofScalar_isWritable (.enum e) n).writes depth, spellsScalar_ofScalar rfl⟩

theorem print_injective (l : Layout) (depth : ℕ) :
    Function.Injective fun n : Int32 => (ofScalar (.enum e) n).print l depth := by
  intro n n' same
  have text := writesEnum_print (e := e) n l depth
  rw [show (ofScalar (.enum e) n).print l depth = (ofScalar (.enum e) n').print l depth from same]
    at text
  exact text.unique (writesEnum_print n' l depth)

theorem print_of_mem_values {v : String × Int32} (hv : v ∈ e.values) (l : Layout) (depth : ℕ) :
    (ofScalar (.enum e) v.2).print l depth = literal v.1.toList := by
  rw [ofScalar, Enumeration.nameOf?_eq_some_iff.mpr hv, Value.print]

theorem print_of_notMem_numbers {n : Int32} (hn : n ∉ e.values.map Prod.snd) (l : Layout)
    (depth : ℕ) : (ofScalar (.enum e) n).print l depth = intText n.toInt := by
  have unnamed : e.nameOf? n = none := by
    rw [Option.eq_none_iff_forall_ne_some]
    intro s hs
    exact hn (List.mem_map_of_mem (Enumeration.nameOf?_eq_some_iff.mp hs))
  rw [ofScalar, unnamed, Value.print, numberText]

/-! ### Lists -/

theorem WritesEnums.exists_items {ns : List Int32} {cs : List Char} (h : WritesEnums e ns cs) :
    ∃ ds, WritesItems ds cs ∧ List.Forall₂ (SpellsScalar (.enum e)) ns ds := by
  induction h with
  | one hb h ha =>
    obtain ⟨d, text, spells⟩ := writesEnum_iff.mp h
    exact ⟨[d], .one (.mk hb text ha), .cons spells .nil⟩
  | more hb h ha _ ih =>
    obtain ⟨d, text, spells⟩ := writesEnum_iff.mp h
    obtain ⟨ds, texts, others⟩ := ih
    exact ⟨d :: ds, .more (.mk hb text ha) texts, .cons spells others⟩

theorem writesEnums_of_items {ns : List Int32} {ds : List Draft} {cs : List Char}
    (h : WritesItems ds cs) (spells : List.Forall₂ (SpellsScalar (.enum e)) ns ds) :
    WritesEnums e ns cs := by
  induction spells generalizing cs with
  | nil => cases h
  | cons first others ih =>
    cases h with
    | one h =>
      cases others
      obtain ⟨hb, text, ha⟩ := h
      exact .one hb (writesEnum_iff.mpr ⟨_, text, first⟩) ha
    | more h h' =>
      obtain ⟨hb, text, ha⟩ := h
      exact .more hb (writesEnum_iff.mpr ⟨_, text, first⟩) ha (ih h')

theorem writesEnumSlot_repeated_iff {packed : Bool} {ns : List Int32} {cs : List Char} :
    WritesEnumSlot e (.repeated ns : Slot (.repeated (.enum e) packed)) cs ↔
      ∃ ds, Writes (.array ds .closed) cs ∧ List.Forall₂ (SpellsScalar (.enum e)) ns ds := by
  constructor
  · intro h
    cases h with
    | noItems hb => exact ⟨[], .noItems hb, .nil⟩
    | items h =>
      obtain ⟨ds, texts, spells⟩ := h.exists_items
      exact ⟨ds, .array texts, spells⟩
  · rintro ⟨ds, text, spells⟩
    cases text with
    | noItems hb =>
      cases spells
      exact .noItems hb
    | array texts => exact .items (writesEnums_of_items texts spells)

/-! ### Fields -/

/-- What is written for a field that holds something is a text of it. -/
theorem writesEnumSlot_print {k : Kind} (hk : k.scalar? = some (.enum e)) {s : Slot k} {v : Value}
    (hv : slotValue? s = some v) (l : Layout) (depth : ℕ) :
    WritesEnumSlot e s (v.print l depth) := by
  have text := (slotValue?_isWritable s v hv).writes (l := l) depth
  cases s with
  | required n =>
    obtain rfl := Option.some.inj hk
    obtain rfl := Option.some.inj hv
    exact .required (writesEnum_print n l depth)
  | optional n =>
    obtain rfl := Option.some.inj hk
    obtain ⟨n, rfl, rfl⟩ := Option.map_eq_some_iff.mp hv
    exact .optional (writesEnum_print n l depth)
  | repeated ns =>
    obtain rfl := Option.some.inj hk
    rw [slotValue?] at hv
    split_ifs at hv
    obtain rfl := Option.some.inj hv
    exact writesEnumSlot_repeated_iff.mpr ⟨_, text, forall₂_ofScalar fun _ _ => rfl⟩
  | absent | present | messages => cases hk

theorem SpellsScalar.nesting {s : Scalar} {v : s.Value} {d : Draft} (h : SpellsScalar s v d) :
    d.nesting = 0 := by
  cases h <;> rfl

theorem draftsNesting_scalars {s : Scalar} {vs : List s.Value} {ds : List Draft}
    (h : List.Forall₂ (SpellsScalar s) vs ds) : draftsNesting ds = 0 := by
  induction h with
  | nil => rfl
  | cons h _ ih => rw [draftsNesting, h.nesting, ih, Nat.max_self]

/-- A list takes a pair of brackets, with none inside. -/
theorem WritesEnumSlot.exists_writes {k : Kind} {s : Slot k} {cs : List Char}
    (written : WritesEnumSlot e s cs) : ∃ d, Writes d cs ∧ d.nesting ≤ 1 := by
  cases written with
  | required text | optional text =>
    obtain ⟨d, text, spells⟩ := writesEnum_iff.mp text
    exact ⟨d, text, spells.nesting.trans_le zero_le_one⟩
  | unset => exact ⟨_, .null, zero_le_one⟩
  | noItems hb => exact ⟨_, .noItems hb, le_rfl⟩
  | items texts =>
    obtain ⟨ds, texts, spells⟩ := texts.exists_items
    refine ⟨_, .array texts, ?_⟩
    rw [Draft.nesting, draftsNesting_scalars spells]

section

variable {depth : ℕ} {nested : Nested} {d : Draft} {cs : List Char} (h : Writes d cs)

include h

theorem WritesEnum.nesting {n : Int32} (hn : WritesEnum e n cs) : d.nesting = 0 := by
  obtain ⟨d', h', spells⟩ := writesEnum_iff.mp hn
  rw [h.unique h', spells.nesting]

theorem readSlot_required_iff {s : Slot (.required (.enum e))} :
    readSlot depth nested d (.required (.enum e)) = .ok s ↔
      WritesEnumSlot e s cs ∧ d.nesting ≤ depth := by
  constructor
  · intro read
    obtain ⟨n, hn, ⟨⟩⟩ := bind_eq_ok.mp read
    have text := (readScalar_iff_writesEnum h).mp hn
    exact ⟨.required text, (text.nesting h).trans_le (Nat.zero_le depth)⟩
  · rintro ⟨⟨text⟩, -⟩
    show (do return Slot.required (← readScalar depth (.enum e) d)) = _
    rw [(readScalar_iff_writesEnum h).mpr text]
    rfl

theorem readSlot_optional_iff {s : Slot (.optional (.enum e))} :
    readSlot depth nested d (.optional (.enum e)) = .ok s ↔
      WritesEnumSlot e s cs ∧ d.nesting ≤ depth := by
  by_cases null : d = .null
  · subst null
    constructor
    · rintro ⟨⟩
      cases h
      exact ⟨.unset, Nat.zero_le depth⟩
    · rintro ⟨_ | _ | text, -⟩
      · rfl
      · obtain ⟨d, text, spells⟩ := writesEnum_iff.mp text
        exact absurd (text.unique h) spells.ne_null
  · rw [readSlot_optional null]
    constructor
    · intro read
      obtain ⟨n, hn, rfl⟩ := map_eq_ok_iff.mp read
      have text := (readScalar_iff_writesEnum h).mp hn
      exact ⟨.optional text, (text.nesting h).trans_le (Nat.zero_le depth)⟩
    · rintro ⟨_ | _ | text, -⟩
      · exact absurd (h.unique .null) null
      · rw [(readScalar_iff_writesEnum h).mpr text]
        rfl

theorem readSlot_repeated_iff {packed : Bool} {s : Slot (.repeated (.enum e) packed)} :
    readSlot depth nested d (.repeated (.enum e) packed) = .ok s ↔
      WritesEnumSlot e s cs ∧ d.nesting ≤ depth := by
  constructor
  · intro read
    obtain ⟨ns, hns, ⟨⟩⟩ := bind_eq_ok.mp read
    obtain ⟨k, ds, rfl, rfl, items⟩ := readList_eq_ok_iff.mp hns
    have spells := items.imp fun n d hn => readScalar_enum_iff.mp hn
    refine ⟨writesEnumSlot_repeated_iff.mpr ⟨ds, h, spells⟩, ?_⟩
    rw [Draft.nesting, draftsNesting_scalars spells]
    omega
  · rintro ⟨written, levels⟩
    cases s with
    | repeated ns =>
      obtain ⟨ds, text, spells⟩ := writesEnumSlot_repeated_iff.mp written
      obtain rfl := h.unique text
      obtain ⟨k, rfl⟩ := Nat.exists_eq_add_of_le' (Nat.le_of_add_left_le levels)
      have items : readList (k + 1) (fun k => readScalar k (.enum e)) (.array ds .closed) = .ok ns :=
        readList_eq_ok_iff.mpr ⟨k, ds, rfl, rfl, spells.imp fun n d hn => hn.read k⟩
      show (do return Slot.repeated (← readList (k + 1) (fun k => readScalar k (.enum e)) _)) = _
      rw [items]
      rfl

/-- A field of the enumeration is read from the texts of what it holds, if there is a level for the
brackets of a list. -/
theorem readSlot_iff_writesEnumSlot {k : Kind} (hk : k.scalar? = some (.enum e)) {s : Slot k} :
    readSlot depth nested d k = .ok s ↔ WritesEnumSlot e s cs ∧ d.nesting ≤ depth := by
  cases k with
  | required sc =>
    obtain rfl := Option.some.inj hk
    exact readSlot_required_iff h
  | optional sc =>
    obtain rfl := Option.some.inj hk
    exact readSlot_optional_iff h
  | repeated sc packed =>
    obtain rfl := Option.some.inj hk
    exact readSlot_repeated_iff h
  | message t => cases hk
  | messages t => cases hk

/-- A message of which one such field is given, with any blanks around what it is given as. -/
theorem read_fieldText_iff {t : MessageType} {f : Field} (hf : f ∈ t.fields)
    (hk : f.kind.scalar? = some (.enum e)) {before after : List Char} (hb : IsBlank before)
    (ha : IsBlank after) {m : Message t} :
    read t (fieldText f (before ++ (cs ++ after))) = .ok m ↔
      ∃ s, WritesEnumSlot e s cs ∧ (Message.empty t).put f s = m := by
  rw [read_fieldText hf (.mk hb h ha), map_eq_ok_iff]
  refine exists_congr fun s => and_congr_left fun _ => ?_
  rw [readSlot_iff_writesEnumSlot h hk, and_iff_left_iff_imp]
  intro written
  obtain ⟨d', h', levels⟩ := written.exists_writes
  rw [h.unique h']
  omega

end

/-- Numbers that are declared are written as their names, all others in decimal, and no two alike.
What is written for a number is read as it. Of all JSON values, those that stand for a number of this
enumeration are read, as that number. What is written for a field of it is one of the texts of what
the field holds, and it is read from these texts only: from a value that stands for a number, from
null if it may be unset, and from an array of such values if it is a list. -/
theorem enumeration_by_name_or_number (e : Enumeration) :
    (∀ l depth,
      (∀ v ∈ e.values, (ofScalar (.enum e) v.2).print l depth = literal v.1.toList) ∧
      (∀ n, n ∉ e.values.map Prod.snd → (ofScalar (.enum e) n).print l depth = intText n.toInt) ∧
      (Function.Injective fun n : Int32 => (ofScalar (.enum e) n).print l depth) ∧
      ∀ n, ∃ d, Writes d ((ofScalar (.enum e) n).print l depth) ∧
        ∀ levels, readScalar levels (.enum e) d = .ok n) ∧
    (∀ d cs, Writes d cs → ∀ levels n,
      readScalar levels (.enum e) d = .ok n ↔ WritesEnum e n cs) ∧
    (∀ k : Kind, k.scalar? = some (.enum e) → ∀ s : Slot k,
      (∀ v, slotValue? s = some v → ∀ l depth, WritesEnumSlot e s (v.print l depth)) ∧
      ∀ d cs, Writes d cs → ∀ levels nested,
        readSlot levels nested d k = .ok s ↔ WritesEnumSlot e s cs ∧ d.nesting ≤ levels) ∧
    (∀ t, ∀ f ∈ MessageType.fields t, f.kind.scalar? = some (.enum e) → ∀ d cs, Writes d cs →
      ∀ before after, IsBlank before → IsBlank after → ∀ m,
        read t (fieldText f (before ++ (cs ++ after))) = .ok m ↔
          ∃ s, WritesEnumSlot e s cs ∧ (Message.empty t).put f s = m) := by
  refine ⟨fun l depth => ⟨fun v hv => print_of_mem_values hv l depth,
    fun n hn => print_of_notMem_numbers hn l depth, print_injective l depth, fun n => ?_⟩,
    fun d cs h levels n => readScalar_iff_writesEnum h,
    fun k hk s => ⟨fun v hv l depth => writesEnumSlot_print hk hv l depth,
      fun d cs h levels nested => readSlot_iff_writesEnumSlot h hk⟩,
    fun t f hf hk d cs h before after hb ha m => read_fieldText_iff h hf hk hb ha⟩
  obtain ⟨d, text, spells⟩ := writesEnum_iff.mp (writesEnum_print (e := e) n l depth)
  exact ⟨d, text, fun levels => spells.read levels⟩

/-- The list of what an option may be set on. -/
def targets : Field := .repeated 19 "targets" "targets" (.enum .optionTargetType)

/-- The name of a value, its first letter given by number. -/
def fileLiteral : Literal := ⟨.unit 0x54 :: "ARGET_TYPE_FILE".toList.map pieceOf, .closed⟩

theorem fileLiteral_spells : fileLiteral.Spells "TARGET_TYPE_FILE" :=
  ⟨rfl, .unit (by decide) (by decide) (stands_map_pieceOf _)⟩

def fileText : List Char :=
  '"' :: ("\\u0054".toList ++ "ARGET_TYPE_FILE".toList.flatMap writeChar) ++ ['"']

theorem writesLiteral_fileText : WritesLiteral fileLiteral fileText :=
  .mk (.cons (.unit (by decide)) (writesPieces_flatMap _))

/-- A name and a number that is not declared. -/
def targetsText : List Char := '[' :: (fileText ++ ',' :: ' ' :: intText 77) ++ [']']

def targetsSlot : Slot targets.kind := .repeated [1, 77]

theorem writesEnumSlot_targetsText :
    WritesEnumSlot .optionTargetType targetsSlot targetsText := by
  have file : WritesEnum .optionTargetType 1 fileText :=
    .name (v := ("TARGET_TYPE_FILE", 1)) (by decide) fileLiteral_spells writesLiteral_fileText
  have other : WritesEnum .optionTargetType 77 (intText 77) :=
    .number (i := 77) (by norm_num) (by norm_num)
  have space : IsBlank [' '] := by simp [IsBlank, isSpace]
  have items := WritesEnums.more isBlank_nil file isBlank_nil (.one space other isBlank_nil)
  rw [List.nil_append, List.append_nil, List.append_nil] at items
  exact .items items

theorem targets_by_name_or_number :
    (("TARGET_TYPE_FILE", 1) ∈ Enumeration.optionTargetType.values ∧
      (ofScalar (.enum .optionTargetType) 1).print none 0 = literal "TARGET_TYPE_FILE".toList) ∧
    (77 ∉ Enumeration.optionTargetType.values.map Prod.snd ∧
      (ofScalar (.enum .optionTargetType) 77).print none 0 = intText 77) ∧
    targets.kind.scalar? = some (.enum .optionTargetType) ∧
    (∃ v, slotValue? targetsSlot = some v ∧
      WritesEnumSlot .optionTargetType targetsSlot (v.print none 0)) ∧
    targets ∈ MessageType.fieldOptions.fields ∧ IsBlank [] ∧ IsBlank ['\n'] ∧
    ∃ d, Writes d targetsText ∧
      (∀ nested, readSlot 1 nested d targets.kind = .ok targetsSlot) ∧
      read .fieldOptions (fieldText targets ([] ++ (targetsText ++ ['\n']))) =
        .ok ((Message.empty .fieldOptions).put targets targetsSlot) := by
  obtain ⟨written, -, slots, messages⟩ := enumeration_by_name_or_number .optionTargetType
  have declared : ("TARGET_TYPE_FILE", 1) ∈ Enumeration.optionTargetType.values := by decide
  have other : 77 ∉ Enumeration.optionTargetType.values.map Prod.snd := by decide
  have known : targets ∈ MessageType.fieldOptions.fields := by simp [MessageType.fields, targets]
  have end_of_line : IsBlank ['\n'] := by simp [IsBlank, isSpace]
  have list := writesEnumSlot_targetsText
  obtain ⟨d, text, levels⟩ := list.exists_writes
  obtain ⟨printed, readAs⟩ := slots targets.kind rfl targetsSlot
  refine ⟨⟨declared, (written none 0).1 _ declared⟩, ⟨other, (written none 0).2.1 _ other⟩, rfl,
    ⟨_, rfl, printed _ rfl none 0⟩, known, isBlank_nil, end_of_line, d, text, fun nested => ?_, ?_⟩
  · exact (readAs d targetsText text 1 nested).mpr ⟨list, levels⟩
  · exact (messages _ targets known rfl d targetsText text [] ['\n'] isBlank_nil end_of_line _).mpr
      ⟨_, list, rfl⟩

end Json

end SchemaReport
