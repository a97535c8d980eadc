import Mathlib.Data.List.Forall2
import SchemaReport.Options
import SchemaReport.Proofs.Text.Digits
import SchemaReport.Proofs.Text.Pieces

/-! What a parameter text sets. Each option has the value of the last entry for its key that is
valid, and its standard value without one; each of the other entries leaves one warning. So the
options depend on nothing but the valid values for each key, in their order. -/

namespace SchemaReport

def Scope.text : Scope → List Char
  | .all => "all".toList
  | .generate => "generate".toList

theorem Scope.text_all_ne : Scope.all.text ≠ Scope.generate.text := by decide

namespace Options

open Text (IsCore isBlank)

/-! ### Values -/

def IsLetter (c : Char) : Prop :=
  ('A' ≤ c ∧ c ≤ 'Z') ∨ ('a' ≤ c ∧ c ≤ 'z') ∨ c = '_'

/-- A letter, an underscore being one, and then letters and digits. -/
def IsIdentifier (cs : List Char) : Prop :=
  ∃ first rest, cs = first :: rest ∧ IsLetter first ∧
    ∀ c ∈ rest, IsLetter c ∨ ('0' ≤ c ∧ c ≤ '9')

theorem isUpper_iff {c : Char} : c.isUpper = true ↔ 'A' ≤ c ∧ c ≤ 'Z' := decide_eq_true_iff

theorem isLower_iff {c : Char} : c.isLower = true ↔ 'a' ≤ c ∧ c ≤ 'z' :=
  Bool.and_eq_true_iff.trans (and_congr decide_eq_true_iff decide_eq_true_iff)

theorem isDigit_iff {c : Char} : c.isDigit = true ↔ '0' ≤ c ∧ c ≤ '9' :=
  Bool.and_eq_true_iff.trans (and_congr decide_eq_true_iff decide_eq_true_iff)

theorem isLetter_iff {c : Char} : (c.isAlpha || c == '_') = true ↔ IsLetter c := by
  show (c.isUpper || c.isLower || c == '_') = true ↔ _
  rw [Bool.or_eq_true, Bool.or_eq_true, isUpper_iff, isLower_iff, beq_iff_eq, or_assoc]
  exact Iff.rfl

/-- A letter or a digit is neither blank nor one of the characters at which a parameter is cut. -/
theorem plain_of_letter_or_digit {c : Char} (h : IsLetter c ∨ ('0' ≤ c ∧ c ≤ '9')) :
    isBlank c = false ∧ c ≠ '=' ∧ c ≠ ',' := by
  have range : ∀ {a b : Char}, a ≤ c ∧ c ≤ b → a.toNat ≤ c.toNat ∧ c.toNat ≤ b.toNat := id
  have bounds : 48 ≤ c.toNat ∧ c.toNat ≤ 122 ∧ c.toNat ≠ 61 := by
    obtain (h | h | rfl) | h := h
    · have : 65 ≤ c.toNat ∧ c.toNat ≤ 90 := range h
      omega
    · have : 97 ≤ c.toNat ∧ c.toNat ≤ 122 := range h
      omega
    · decide
    · have : 48 ≤ c.toNat ∧ c.toNat ≤ 57 := range h
      omega
  refine ⟨?_, ?_, ?_⟩
  · simp only [isBlank, Bool.or_eq_false_iff, Bool.and_eq_false_iff, decide_eq_false_iff_not,
      beq_eq_false_iff_ne]
    omega
  · rintro rfl
    exact bounds.2.2 rfl
  · rintro rfl
    exact absurd bounds.1 (by decide)

theorem isIdentifier_iff {cs : List Char} : isIdentifier cs = true ↔ IsIdentifier cs := by
  have inner : ∀ c : Char, (c.isAlphanum || c == '_') = true ↔
      IsLetter c ∨ ('0' ≤ c ∧ c ≤ '9') := by
    intro c
    rw [← isLetter_iff, ← isDigit_iff, Char.isAlphanum]
    simp only [Bool.or_eq_true]
    tauto
  cases cs with
  | nil => simp [isIdentifier, IsIdentifier]
  | cons c cs =>
    rw [isIdentifier, Bool.and_eq_true, isLetter_iff, List.all_eq_true]
    simp only [inner]
    constructor
    · exact fun h => ⟨c, cs, rfl, h⟩
    · rintro ⟨_, _, ⟨⟩, h⟩
      exact h

/-- The decimal digits of `n`, behind any number of zeros and behind a plus sign or none. -/
def IsNumeral (cs : List Char) (n : ℕ) : Prop :=
  ∃ sign zeros, (sign = [] ∨ sign = ['+']) ∧
    cs = sign ++ (List.replicate zeros '0' ++ Text.decimal n)

theorem unsigned_iff {ds : List Char} {n : ℕ} :
    (if ds.isEmpty || !ds.all Char.isDigit then none else some (Text.natOfDigits ds)) = some n ↔
      ∃ zeros, ds = List.replicate zeros '0' ++ Text.decimal n := by
  rw [← Text.natOfDigits_eq_iff]
  split_ifs with h
  · simp only [Bool.or_eq_true, List.isEmpty_iff, Bool.not_eq_true', List.all_eq_false] at h
    refine iff_of_false (by simp) ?_
    rintro ⟨hne, hd, -⟩
    obtain rfl | ⟨c, hc, bad⟩ := h
    · exact hne rfl
    · exact bad (hd c hc)
  · simp_all

/-- A sign is not a digit, so there is one way to read a numeral. -/
theorem isNumeral_iff {cs : List Char} {n : ℕ} : natOf? cs = some n ↔ IsNumeral cs n := by
  have unsigned : ∀ {zeros r}, '+' :: r ≠ List.replicate zeros '0' ++ Text.decimal n := by
    intro zeros r h
    obtain ⟨-, digits, -⟩ := Text.natOfDigits_eq_iff.mpr ⟨zeros, h⟩
    exact absurd (digits '+' (by simp)) (by decide)
  unfold natOf?
  split
  next r =>
    rw [unsigned_iff]
    constructor
    · rintro ⟨zeros, h⟩
      exact ⟨['+'], zeros, .inr rfl, congrArg _ h⟩
    · rintro ⟨_, zeros, rfl | rfl, h⟩
      · exact absurd h unsigned
      · exact ⟨zeros, List.cons_injective h⟩
  next hplain =>
    rw [unsigned_iff]
    constructor
    · rintro ⟨zeros, h⟩
      exact ⟨[], zeros, .inl rfl, h⟩
    · rintro ⟨_, zeros, rfl | rfl, h⟩
      · exact ⟨zeros, h⟩
      · exact absurd h (hplain _)

/-! ### Keys -/

inductive Key
  | graphName | scope | dumpIndent
  deriving DecidableEq

namespace Key

def text : Key → List Char
  | .graphName => "graph_name".toList
  | .scope => "scope".toList
  | .dumpIndent => "dump_indent".toList

/-- What the option of a key can be. -/
abbrev Value : Key → Type
  | .graphName => String
  | .scope => Scope
  | .dumpIndent => ℕ

def get : (k : Key) → Options → k.Value
  | .graphName, o => o.graphName
  | .scope, o => o.scope
  | .dumpIndent, o => o.dumpIndent

/-- The text is valid for the key, and stands for `v`. -/
def Accepts : (k : Key) → List Char → k.Value → Prop
  | .graphName, cs, name => IsIdentifier cs ∧ name = String.ofList cs
  | .scope, cs, s => cs = s.text
  | .dumpIndent, cs, n => IsNumeral cs n ∧ n ≤ 16

def setting : (k : Key) → k.Value → Setting
  | .graphName, name => .graphName name
  | .scope, s => .scope s
  | .dumpIndent, n => .dumpIndent n

/-- What the text of a value stands for, unless it is not valid. -/
def value? : (k : Key) → List Char → Option k.Value
  | .graphName, cs => if isIdentifier cs then some (String.ofList cs) else none
  | .scope, cs =>
    if cs = Scope.all.text then some .all
    else if cs = Scope.generate.text then some .generate
    else none
  | .dumpIndent, cs => (natOf? cs).filter (· ≤ maxDumpIndent)

/-- Why a value is not valid. -/
def refusal : Key → List Char → Refusal
  | .graphName, _ => .notIdentifier
  | .scope, cs => .notScope (String.ofList cs)
  | .dumpIndent, cs => .notIndent (String.ofList cs)

def ofText? (cs : List Char) : Option Key := [graphName, scope, dumpIndent].find? (·.text = cs)

theorem ofText?_text (k : Key) : ofText? k.text = some k := by
  cases k <;> decide

theorem text_of_ofText? {cs : List Char} {k : Key} (h : ofText? cs = some k) : k.text = cs := by
  simpa using List.find?_some h

theorem value?_eq_some_iff {k : Key} {cs : List Char} {v : k.Value} :
    k.value? cs = some v ↔ k.Accepts cs v := by
  cases k with
  | graphName =>
    rw [value?, Accepts, ← isIdentifier_iff]
    split_ifs with h
    · simp [h, eq_comm]
    · simp [h]
  | scope =>
    rw [value?, Accepts]
    split_ifs with hall hgenerate
    · cases v <;> simp [hall, Scope.text_all_ne]
    · cases v <;> simp [hgenerate, Scope.text_all_ne.symm]
    · cases v <;> simp [hall, hgenerate]
  | dumpIndent =>
    rw [value?, Accepts, ← isNumeral_iff, Option.filter_eq_some_iff]
    exact and_congr_right fun _ => decide_eq_true_iff

theorem get_apply_setting (k : Key) (v : k.Value) (o : Options) :
    k.get (o.apply (k.setting v)) = v := by
  cases k <;> rfl

theorem get_apply_of_ne {k l : Key} (h : k ≠ l) (v : l.Value) (o : Options) :
    k.get (o.apply (l.setting v)) = k.get o := by
  cases k <;> cases l <;> first | rfl | exact absurd rfl h

end Key

/-- Options are what their keys give. -/
theorem ext_get {o o' : Options} (h : ∀ k : Key, k.get o = k.get o') : o = o' := by
  cases o
  cases o'
  have name := h .graphName
  have scope := h .scope
  have indent := h .dumpIndent
  simp only [Key.get] at name scope indent
  rw [name, scope, indent]

/-! ### The text of an entry -/

theorem Entry.of_plain {text : List Char} (h : '=' ∉ text) :
    Entry.of text = ⟨text, Text.trim text, []⟩ := by
  have all : ∀ c ∈ text, decide (c ≠ '=') = true := fun c hc =>
    decide_eq_true fun e => h (e ▸ hc)
  rw [Entry.of, List.takeWhile_eq_self_iff.mpr all, List.dropWhile_eq_nil_iff.mpr all]
  rfl

/-- The value begins behind the first equals sign, and holds all the others. -/
theorem Entry.of_cut {key : List Char} (h : '=' ∉ key) (value : List Char) :
    Entry.of (key ++ '=' :: value) =
      ⟨key ++ '=' :: value, Text.trim key, Text.trim value⟩ := by
  have all : ∀ c ∈ key, decide (c ≠ '=') = true := fun c hc =>
    decide_eq_true fun e => h (e ▸ hc)
  rw [Entry.of, List.takeWhile_append_of_pos all, List.dropWhile_append_of_pos all]
  simp

/-- The entry that a piece of a parameter text stands for. Blanks around it do not count, nor do
those around its key and its value. -/
structure Entry.IsOf (piece : List Char) (e : Entry) : Prop where
  text : IsCore isBlank piece e.text
  plain : '=' ∉ e.text → e.key = e.text ∧ e.value = []
  cut : ∀ key value, e.text = key ++ '=' :: value → '=' ∉ key →
    IsCore isBlank key e.key ∧ IsCore isBlank value e.value

theorem isOf_trim (piece : List Char) : (Entry.of (Text.trim piece)).IsOf piece where
  text := Text.isCore_trimBoth isBlank piece
  plain := by
    intro h
    have core := Text.isCore_trimBoth isBlank piece
    have plain : '=' ∉ Text.trim piece := h
    rw [Entry.of_plain plain]
    exact ⟨Text.trimBoth_eq_self_iff.mpr ⟨core.first, core.last⟩, rfl⟩
  cut := by
    intro key value text h
    have text : Text.trim piece = key ++ '=' :: value := text
    rw [text, Entry.of_cut h]
    exact ⟨Text.isCore_trimBoth isBlank key, Text.isCore_trimBoth isBlank value⟩

/-- The entries are those of the pieces between commas that are not blank, in their order. -/
def AreEntries (p : String) (es : List Entry) : Prop :=
  ∃ pieces, [','].intercalate pieces = p.toList ∧ (∀ piece ∈ pieces, ',' ∉ piece) ∧
    List.Forall₂ Entry.IsOf (pieces.filter (·.any fun c => !isBlank c)) es

theorem areEntries_entries (p : String) : AreEntries p (entries p) := by
  refine ⟨p.toList.splitOn ',', List.intercalate_splitOn _, fun _ => notMem_of_mem_splitOn, ?_⟩
  have blank : ∀ piece : List Char,
      decide (Text.trim piece ≠ []) = piece.any fun c => !isBlank c := by
    intro piece
    rw [Bool.eq_iff_iff, decide_eq_true_eq, Text.trim, ne_eq, Text.trimBoth_eq_nil_iff]
    simp
  rw [entries, List.filter_map, List.map_map]
  simp only [Function.comp_def, blank]
  rw [List.forall₂_map_right_iff, List.forall₂_same]
  exact fun piece _ => isOf_trim piece

/-! ### Validity -/

variable {e : Entry} {k : Key}

namespace Entry

/-- The entry sets the option of the key to `v`. -/
def Sets (e : Entry) (k : Key) (v : k.Value) : Prop := e.key = k.text ∧ k.Accepts e.value v

def IsValidFor (e : Entry) (k : Key) : Prop := ∃ v, e.Sets k v

def IsValid (e : Entry) : Prop := ∃ k, e.IsValidFor k

theorem isValidFor_iff :
    e.IsValidFor k ↔ e.key = k.text ∧ (k.value? e.value).isSome = true := by
  simp only [IsValidFor, Sets, ← Key.value?_eq_some_iff, Option.isSome_iff_exists,
    exists_and_left]

instance (e : Entry) (k : Key) : Decidable (e.IsValidFor k) :=
  decidable_of_iff _ isValidFor_iff.symm

theorem isValid_iff : e.IsValid ↔ e.IsValidFor .graphName ∨ e.IsValidFor .scope ∨
    e.IsValidFor .dumpIndent := by
  constructor
  · rintro ⟨k, h⟩
    cases k <;> simp [h]
  · rintro (h | h | h) <;> exact ⟨_, h⟩

instance (e : Entry) : Decidable e.IsValid := decidable_of_iff _ isValid_iff.symm

/-- Why an entry that is not valid is passed over. -/
def refusal (e : Entry) : Refusal :=
  match Key.ofText? e.key with
  | some k => k.refusal e.value
  | none => .unknownKey

end Entry

theorem Setting.of_text (k : Key) (cs : List Char) : Setting.of k.text cs =
    match k.value? cs with
    | some v => .ok (k.setting v)
    | none => .error (k.refusal cs) := by
  cases k with
  | graphName =>
    have own : Key.graphName.text = "graph_name".toList := rfl
    rw [Setting.of, if_pos own, Key.value?]
    by_cases h : isIdentifier cs = true
    · rw [if_pos h, if_pos h]
      rfl
    · rw [if_neg h, if_neg h]
      rfl
  | scope =>
    have own : Key.scope.text = "scope".toList := rfl
    rw [Setting.of, if_neg (by decide), if_pos own, Key.value?]
    by_cases hall : cs = Scope.all.text
    · rw [hall]
      rfl
    by_cases hgenerate : cs = Scope.generate.text
    · rw [hgenerate]
      rfl
    · rw [if_neg hall, if_neg hgenerate]
      exact (if_neg hall).trans (if_neg hgenerate)
  | dumpIndent =>
    have own : Key.dumpIndent.text = "dump_indent".toList := rfl
    rw [Setting.of, if_neg (by decide), if_neg (by decide), if_pos own, Key.value?]
    cases natOf? cs with
    | none => rfl
    | some n =>
      by_cases h : n ≤ maxDumpIndent
      · simp [h, Option.filter, Key.setting]
      · simp [h, Option.filter, Key.refusal]

theorem Setting.of_unknown {key : List Char} (h : Key.ofText? key = none) (value : List Char) :
    Setting.of key value = .error .unknownKey := by
  have other : ∀ k : Key, key ≠ k.text := fun k hk =>
    Option.some_ne_none k (by rw [← h, hk, Key.ofText?_text])
  have name : key ≠ "graph_name".toList := other .graphName
  have scope : key ≠ "scope".toList := other .scope
  have indent : key ≠ "dump_indent".toList := other .dumpIndent
  rw [Setting.of, if_neg name, if_neg scope, if_neg indent]

theorem Setting.of_sets {v : k.Value} (h : e.Sets k v) :
    Setting.of e.key e.value = .ok (k.setting v) := by
  rw [h.1, Setting.of_text, Key.value?_eq_some_iff.mpr h.2]

theorem Setting.of_not_isValid (h : ¬ e.IsValid) :
    Setting.of e.key e.value = .error e.refusal := by
  rw [Entry.refusal]
  cases hk : Key.ofText? e.key with
  | none => exact Setting.of_unknown hk _
  | some k =>
    have key := Key.text_of_ofText? hk
    have refused : k.value? e.value = none := by
      cases hv : k.value? e.value with
      | none => rfl
      | some v => exact absurd ⟨k, v, key.symm, Key.value?_eq_some_iff.mp hv⟩ h
    rw [← key, Setting.of_text, refused]

/-! ### The run -/

namespace Entry

/-- The record that every entry leaves. -/
def noticed (e : Entry) : LogRecord :=
  ⟨.debug, .options, "plugin option: " ++ Text.quoted (String.ofList e.key) ++ " = " ++
    Text.quoted (String.ofList e.value)⟩

/-- The record that an entry leaves if it is not valid. -/
def warning (e : Entry) : LogRecord :=
  ⟨.warn, .options, "ignoring plugin option `" ++ String.ofList e.text ++ "`: " ++
    e.refusal.message⟩

end Entry

theorem value_applyEntry_of_sets {v : k.Value} (h : e.Sets k v) (o : Options) :
    (applyEntry o e).value = o.apply (k.setting v) := by
  rw [applyEntry, Setting.of_sets h]
  rfl

theorem value_applyEntry_of_not_isValid (h : ¬ e.IsValid) (o : Options) :
    (applyEntry o e).value = o := by
  rw [applyEntry, Setting.of_not_isValid h]
  rfl

theorem log_applyEntry (o : Options) (e : Entry) :
    (applyEntry o e).log = e.noticed :: if e.IsValid then [] else [e.warning] := by
  split_ifs with h
  · obtain ⟨k, v, sets⟩ := h
    rw [applyEntry, Setting.of_sets sets]
    rfl
  · rw [applyEntry, Setting.of_not_isValid h]
    rfl

/-- An entry sets nothing but the option of its own key. -/
theorem get_applyEntry_of_not_isValidFor (h : ¬ e.IsValidFor k) (o : Options) :
    k.get (applyEntry o e).value = k.get o := by
  by_cases hvalid : e.IsValid
  · obtain ⟨l, v, sets⟩ := hvalid
    have hne : k ≠ l := by
      rintro rfl
      exact h ⟨v, sets⟩
    rw [value_applyEntry_of_sets sets, Key.get_apply_of_ne hne]
  · rw [value_applyEntry_of_not_isValid hvalid]

/-- `v` is what the last entry that is valid for the key says, or `d` if none is valid for it. -/
def LastOr (k : Key) (es : List Entry) (d v : k.Value) : Prop :=
  (∃ before e after, es = before ++ e :: after ∧ e.Sets k v ∧ ∀ x ∈ after, ¬ x.IsValidFor k) ∨
    (∀ x ∈ es, ¬ x.IsValidFor k) ∧ v = d

theorem lastOr_foldlM (k : Key) (es : List Entry) (o : Options) :
    LastOr k es (k.get o) (k.get (es.foldlM applyEntry o).value) := by
  -- the options so far are what the rest of the entries start from
  induction es generalizing o with
  | nil => exact .inr ⟨by simp, rfl⟩
  | cons e es ih =>
    rw [List.foldlM_cons, Logged.value_bind]
    obtain ⟨before, x, after, rfl, sets, rest⟩ | ⟨none, same⟩ := ih (applyEntry o e).value
    · exact .inl ⟨e :: before, x, after, rfl, sets, rest⟩
    · rw [same]
      by_cases h : e.IsValidFor k
      · obtain ⟨v, sets⟩ := h
        rw [value_applyEntry_of_sets sets, Key.get_apply_setting]
        exact .inl ⟨[], e, es, rfl, sets, none⟩
      · rw [get_applyEntry_of_not_isValidFor h]
        exact .inr ⟨List.forall_mem_cons.mpr ⟨h, none⟩, rfl⟩

theorem log_foldlM (es : List Entry) (o : Options) : (es.foldlM applyEntry o).log =
    es.flatMap fun e => e.noticed :: if e.IsValid then [] else [e.warning] := by
  induction es generalizing o with
  | nil => rfl
  | cons e es ih =>
    rw [List.foldlM_cons, Logged.log_bind, ih, log_applyEntry, List.flatMap_cons]

theorem warnings_foldlM (es : List Entry) (o : Options) :
    (es.foldlM applyEntry o).log.filter (·.level = .warn) =
      (es.filter fun e => ¬ e.IsValid).map Entry.warning := by
  rw [log_foldlM, List.filter_flatMap]
  induction es with
  | nil => rfl
  | cons e es ih =>
    rw [List.flatMap_cons, ih, List.filter_cons]
    by_cases h : e.IsValid <;> simp [h, Entry.noticed, Entry.warning]

/-! ### What has no influence -/

/-- The values that are valid for a key, in their order. -/
def validValues (k : Key) (es : List Entry) : List (List Char) :=
  (es.filter (·.IsValidFor k)).map Entry.value

theorem LastOr.value {es : List Entry} {d v : k.Value} (h : LastOr k es d v) :
    v = ((validValues k es).getLast?.bind k.value?).getD d := by
  obtain ⟨before, e, after, rfl, sets, rest⟩ | ⟨none, rfl⟩ := h
  · have valid : e.IsValidFor k := ⟨v, sets⟩
    have last : validValues k (before ++ e :: after) = validValues k before ++ [e.value] := by
      have done : after.filter (·.IsValidFor k) = [] := by simpa using rest
      simp [validValues, valid, done]
    rw [last, List.getLast?_concat, Option.bind_some, Key.value?_eq_some_iff.mpr sets.2]
    rfl
  · have empty : validValues k es = [] := by simpa [validValues] using none
    rw [empty]
    rfl

/-- Each option has the value of the last entry for its key that is valid, or its standard value.
There is a warning for each entry that is not valid, in their order, and no other. What is not valid
has no influence, and neither has the order of entries for different keys. -/
theorem ofParameter_last_valid (p : String) :
    AreEntries p (entries p) ∧
    (∀ k : Key, LastOr k (entries p) (k.get standard) (k.get (ofParameter p).value)) ∧
    (ofParameter p).log.filter (·.level = .warn) =
      ((entries p).filter fun e => ¬ e.IsValid).map Entry.warning ∧
    ∀ q, (∀ k : Key, validValues k (entries q) = validValues k (entries p)) →
      (ofParameter q).value = (ofParameter p).value := by
  refine ⟨areEntries_entries p, fun k => lastOr_foldlM k _ _, warnings_foldlM _ _, ?_⟩
  intro q same
  apply ext_get
  intro k
  have left := (lastOr_foldlM k (entries q) standard).value
  have right := (lastOr_foldlM k (entries p) standard).value
  rw [same k] at left
  exact left.trans right.symm

/-- An unknown key, a refused value and blanks make no difference, nor does the order of keys. -/
theorem ofParameter_eq_of_noise :
    (∀ k : Key, validValues k (entries " dump_indent = +007,scope=some,, graph_name=a") =
      validValues k (entries "graph_name=a,paths=x,dump_indent=+007,graph_name=1st")) ∧
    (ofParameter " dump_indent = +007,scope=some,, graph_name=a").value =
      (ofParameter "graph_name=a,paths=x,dump_indent=+007,graph_name=1st").value := by
  have same : ∀ k : Key, validValues k (entries " dump_indent = +007,scope=some,, graph_name=a") =
      validValues k (entries "graph_name=a,paths=x,dump_indent=+007,graph_name=1st") := by
    intro k
    cases k <;> decide +kernel
  exact ⟨same, (ofParameter_last_valid _).2.2.2 _ same⟩

end Options

end SchemaReport
