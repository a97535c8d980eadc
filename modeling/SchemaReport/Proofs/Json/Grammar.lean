import Mathlib.Data.List.DropRight
import SchemaReport.Json.Draft
import SchemaReport.Proofs.Json.Literal
import SchemaReport.Proofs.Json.Number

/-! The texts of JSON values, with any blanks between the tokens. Such a text is scanned as the draft
that it writes, up to something that no number goes on with, and nothing is wrong with the draft. -/

namespace SchemaReport.Json

/-! ### Grammar -/

def IsBlank (cs : List Char) : Prop := ∀ c ∈ cs, isSpace c

mutual

/-- The text of a value, without blanks around it. -/
inductive Writes : Draft → List Char → Prop
  | null : Writes .null "null".toList
  | bool (b : Bool) : Writes (.bool b) (boolText b)
  | number {n : Numeral} {cs : List Char} (h : WritesNumber n cs) : Writes (.number n) cs
  | text {l : Literal} {cs : List Char} (h : WritesLiteral l cs) : Writes (.text l) cs
  | noItems {bs : List Char} (h : IsBlank bs) : Writes (.array [] .closed) ('[' :: bs ++ [']'])
  | array {ds : List Draft} {cs : List Char} (h : WritesItems ds cs) :
    Writes (.array ds .closed) ('[' :: cs ++ [']'])
  | noMembers {bs : List Char} (h : IsBlank bs) : Writes (.object [] .closed) ('{' :: bs ++ ['}'])
  | object {ms : List (Literal × Draft)} {cs : List Char} (h : WritesMembers ms cs) :
    Writes (.object ms .closed) ('{' :: cs ++ ['}'])

inductive WritesElement : Draft → List Char → Prop
  | mk {d : Draft} {before cs after : List Char} (hb : IsBlank before) (h : Writes d cs)
    (ha : IsBlank after) : WritesElement d (before ++ (cs ++ after))

inductive WritesItems : List Draft → List Char → Prop
  | one {d : Draft} {cs : List Char} (h : WritesElement d cs) : WritesItems [d] cs
  | more {d : Draft} {ds : List Draft} {cs cs' : List Char} (h : WritesElement d cs)
    (h' : WritesItems ds cs') : WritesItems (d :: ds) (cs ++ ',' :: cs')

inductive WritesMember : Literal × Draft → List Char → Prop
  | mk {k : Literal} {d : Draft} {before key after cs : List Char} (hb : IsBlank before)
    (hk : WritesLiteral k key) (ha : IsBlank after) (h : WritesElement d cs) :
    WritesMember (k, d) (before ++ (key ++ (after ++ ':' :: cs)))

inductive WritesMembers : List (Literal × Draft) → List Char → Prop
  | one {m : Literal × Draft} {cs : List Char} (h : WritesMember m cs) : WritesMembers [m] cs
  | more {m : Literal × Draft} {ms : List (Literal × Draft)} {cs cs' : List Char}
    (h : WritesMember m cs) (h' : WritesMembers ms cs') : WritesMembers (m :: ms) (cs ++ ',' :: cs')

end

/-! ### Blanks -/

theorem skipSpace_cons {c : Char} {r : List Char} (h : isSpace c = false) :
    skipSpace (c :: r) = c :: r := by
  simp [skipSpace, h]

theorem scanValue_skipSpace (fuel : ℕ) (cs : List Char) :
    scanValue fuel (skipSpace cs) = scanValue fuel cs := by
  cases fuel with
  | zero => rfl
  | succ fuel =>
    have idem : skipSpace (skipSpace cs) = skipSpace cs := List.dropWhile_idempotent _ _
    rw [scanValue.eq_def, scanValue.eq_def]
    simp only [idem]

theorem scanItem_skipSpace (fuel : ℕ) (cs : List Char) :
    scanItem fuel (skipSpace cs) = scanItem fuel cs := by
  cases fuel with
  | zero => rfl
  | succ fuel => rw [scanItem, scanItem, scanValue_skipSpace]

namespace IsBlank

variable {bs : List Char} (h : IsBlank bs)

include h

theorem skipSpace_append (r : List Char) : skipSpace (bs ++ r) = skipSpace r :=
  List.dropWhile_append_of_pos h

/-- A blank, or what follows where there is none, ends a number. -/
theorem endsNumber {r : List Char} (hr : EndsNumber r) : EndsNumber (bs ++ r) := by
  cases bs with
  | nil => exact hr
  | cons c bs =>
    have space := h c (by simp)
    simp only [isSpace, Bool.or_eq_true, decide_eq_true_eq] at space
    rcases space with ((rfl | rfl) | rfl) | rfl <;> exact endsNumber_cons (by decide)

end IsBlank

theorem isBlank_nil : IsBlank [] := List.forall_mem_nil _

/-! ### Heads of values -/

/-- The first character of a value: no blank, and no closing bracket. -/
def IsHead (c : Char) : Prop := isSpace c = false ∧ c ≠ ']' ∧ c ≠ '}'

theorem isHead_of_isDigit {c : Char} (h : c.isDigit) : IsHead c := by
  refine ⟨?_, ?_, ?_⟩
  · rw [Bool.eq_false_iff]
    intro hs
    simp only [isSpace, Bool.or_eq_true, decide_eq_true_eq] at hs
    rcases hs with ((rfl | rfl) | rfl) | rfl <;> exact absurd h (by decide)
  · rintro rfl
    exact absurd h (by decide)
  · rintro rfl
    exact absurd h (by decide)

theorem Writes.head {d : Draft} {cs : List Char} (h : Writes d cs) :
    ∃ c r, cs = c :: r ∧ IsHead c := by
  have mark (c : Char) (hc : c ∈ ['n', 't', 'f', '"', '[', '{', '-']) : IsHead c := by
    simp only [List.mem_cons, List.not_mem_nil, or_false] at hc
    rcases hc with rfl | rfl | rfl | rfl | rfl | rfl | rfl <;> exact ⟨rfl, by decide, by decide⟩
  cases h with
  | null => exact ⟨_, _, rfl, mark 'n' (by simp)⟩
  | bool b =>
    cases b with
    | true => exact ⟨_, _, rfl, mark 't' (by simp)⟩
    | false => exact ⟨_, _, rfl, mark 'f' (by simp)⟩
  | number h =>
    obtain ⟨negative, cs, rfl, scanned⟩ := h.scan
    obtain ⟨⟨d, ds, head, hd⟩, -⟩ := scanned []
    rw [List.append_nil] at head
    cases negative with
    | true => exact ⟨_, _, rfl, mark '-' (by simp)⟩
    | false => exact ⟨d, ds, head, isHead_of_isDigit hd⟩
  | text h =>
    obtain ⟨h⟩ := h
    exact ⟨_, _, rfl, mark '"' (by simp)⟩
  | noItems => exact ⟨_, _, rfl, mark '[' (by simp)⟩
  | array => exact ⟨_, _, rfl, mark '[' (by simp)⟩
  | noMembers => exact ⟨_, _, rfl, mark '{' (by simp)⟩
  | object => exact ⟨_, _, rfl, mark '{' (by simp)⟩

theorem Writes.length_pos {d : Draft} {cs : List Char} (h : Writes d cs) : 0 < cs.length := by
  obtain ⟨c, r, rfl, -⟩ := h.head
  exact Nat.succ_pos _

theorem WritesElement.head {d : Draft} {cs : List Char} (h : WritesElement d cs) (r : List Char) :
    ∃ c r', skipSpace (cs ++ r) = c :: r' ∧ IsHead c := by
  obtain ⟨hb, h, -⟩ := h
  obtain ⟨c, cs, rfl, hc⟩ := h.head
  exact ⟨c, _, by rw [List.append_assoc, hb.skipSpace_append]; exact skipSpace_cons hc.1, hc⟩

theorem WritesItems.head {ds : List Draft} {cs : List Char} (h : WritesItems ds cs)
    (r : List Char) : ∃ c r', skipSpace (cs ++ r) = c :: r' ∧ IsHead c := by
  cases h with
  | one h => exact h.head r
  | more h _ =>
    rw [List.append_assoc]
    exact h.head _

theorem WritesMember.head {m : Literal × Draft} {cs : List Char} (h : WritesMember m cs)
    (r : List Char) : ∃ r', skipSpace (cs ++ r) = '"' :: r' := by
  obtain ⟨hb, ⟨-⟩, -, -⟩ := h
  exact ⟨_, by rw [List.append_assoc, hb.skipSpace_append]; exact skipSpace_cons rfl⟩

theorem WritesMembers.head {ms : List (Literal × Draft)} {cs : List Char}
    (h : WritesMembers ms cs) (r : List Char) : ∃ r', skipSpace (cs ++ r) = '"' :: r' := by
  cases h with
  | one h => exact h.head r
  | more h _ =>
    rw [List.append_assoc]
    exact h.head _

/-! ### Scanning -/

theorem scanWord_append (d : Draft) (word rest : List Char) :
    scanWord d word (word ++ rest) = (d, some rest) := by
  induction word with
  | nil => rfl
  | cons c word ih => rw [List.cons_append, scanWord, if_pos rfl, ih]

theorem scanValue_digit {d : Char} (hd : d.isDigit) (fuel : ℕ) (r : List Char) :
    scanValue (fuel + 1) (d :: r) = scanNumber false (d :: r) := by
  have hs : skipSpace (d :: r) = d :: r := skipSpace_cons (isHead_of_isDigit hd).1
  have hne : ∀ c, c.isDigit = false → d ≠ c := by
    rintro c hc rfl
    rw [hd] at hc
    cases hc
  have := hne 'n' rfl
  have := hne 't' rfl
  have := hne 'f' rfl
  have := hne '"' rfl
  have := hne '[' rfl
  have := hne '{' rfl
  have := hne '-' rfl
  rw [scanValue.eq_def]
  simp [*]

theorem WritesNumber.scanValue {n : Numeral} {cs : List Char} (h : WritesNumber n cs) (fuel : ℕ)
    {rest : List Char} (hr : EndsNumber rest) :
    scanValue (fuel + 1) (cs ++ rest) = (.number n, some rest) := by
  obtain ⟨negative, cs, rfl, scanned⟩ := h.scan
  obtain ⟨⟨d, ds, head, hd⟩, unsigned⟩ := scanned rest
  rw [List.append_assoc]
  cases negative with
  | false =>
    rw [sign, if_neg (by decide), List.nil_append, head, scanValue_digit hd, scanNumber, ← head,
      unsigned hr]
  | true =>
    rw [sign, if_pos rfl, List.cons_append, List.nil_append, scanValue.eq_def]
    simp only [skipSpace_cons (show isSpace '-' = false from rfl), scanNumber, unsigned hr]

theorem scanValue_bracket {fuel : ℕ} {c : Char} {r r' : List Char} {ds : List Draft}
    {e : ArrayEnd} {rest : Option (List Char)} (hs : skipSpace r = c :: r') (hc : c ≠ ']')
    (h : scanItem fuel (c :: r') = ((ds, e), rest)) :
    scanValue (fuel + 1) ('[' :: r) = (.array ds e, rest) := by
  rw [scanValue.eq_def]
  simp only [skipSpace_cons (show isSpace '[' = false from rfl), hs]
  split
  next heq => cases heq
  next heq =>
    cases heq
    exact absurd rfl hc
  next => rw [h]

theorem scanValue_brace {fuel : ℕ} {c : Char} {r r' : List Char} {ms : List (Literal × Draft)}
    {e : ObjectEnd} {rest : Option (List Char)} (hs : skipSpace r = c :: r') (hc : c ≠ '}')
    (h : scanMember fuel (c :: r') = ((ms, e), rest)) :
    scanValue (fuel + 1) ('{' :: r) = (.object ms e, rest) := by
  rw [scanValue.eq_def]
  simp only [skipSpace_cons (show isSpace '{' = false from rfl), hs]
  split
  next heq => cases heq
  next heq =>
    cases heq
    exact absurd rfl hc
  next => rw [h]

/-- One item, the comma behind it, and the items after that. -/
theorem scanItem_more {fuel : ℕ} {cs r r' r'' : List Char} {d : Draft} {c : Char}
    {result : Scanned (List Draft × ArrayEnd)} (hd : scanValue fuel cs = (d, some r))
    (hr : skipSpace r = ',' :: r') (hr' : skipSpace r' = c :: r'') (hc : IsHead c)
    (hi : scanItem fuel r' = result) : scanItem (fuel + 1) cs = consItem d result := by
  rw [scanItem, hd]
  simp only [hr, hr']
  split
  next heq => cases heq
  next heq =>
    cases heq
    exact absurd rfl hc.2.1
  next => rw [← hr', scanItem_skipSpace, hi]

mutual

/-- The text of a value is scanned as the value, whatever ends it. -/
theorem Writes.scan : {d : Draft} → {cs : List Char} → Writes d cs → ∀ fuel rest,
    EndsNumber rest → 2 * cs.length ≤ fuel + 1 →
    scanValue (fuel + 1) (cs ++ rest) = (d, some rest)
  | _, _, .null, fuel, rest, _, _ => by
    rw [scanValue.eq_def]
    exact scanWord_append .null "ull".toList rest
  | _, _, .bool b, fuel, rest, _, _ => by
    rw [scanValue.eq_def]
    cases b with
    | true => exact scanWord_append (.bool true) "rue".toList rest
    | false => exact scanWord_append (.bool false) "alse".toList rest
  | _, _, .number h, fuel, rest, hr, _ => h.scanValue fuel hr
  | _, _, .text h, fuel, rest, _, _ => by
    obtain ⟨body, text, scanned, closed⟩ := h.scan rest
    rw [text, scanValue.eq_def]
    simp only [skipSpace_cons (show isSpace '"' = false from rfl), scanText, scanned, closed,
      if_true]
  | _, _, .noItems h, fuel, rest, _, _ => by
    rw [List.cons_append, List.cons_append, List.append_assoc, scanValue.eq_def]
    simp only [skipSpace_cons (show isSpace '[' = false from rfl), h.skipSpace_append,
      List.cons_append, skipSpace_cons (show isSpace ']' = false from rfl), List.nil_append]
  | _, _, .array h, fuel, rest, _, hf => by
    have items := h.scan fuel rest
      (by simp only [List.length_cons, List.length_append] at hf; omega)
    obtain ⟨c, r, first, hc⟩ := h.head (']' :: rest)
    rw [List.cons_append, List.cons_append, List.append_assoc]
    rw [← scanItem_skipSpace, first] at items
    exact scanValue_bracket first hc.2.1 items
  | _, _, .noMembers h, fuel, rest, _, _ => by
    rw [List.cons_append, List.cons_append, List.append_assoc, scanValue.eq_def]
    simp only [skipSpace_cons (show isSpace '{' = false from rfl), h.skipSpace_append,
      List.cons_append, skipSpace_cons (show isSpace '}' = false from rfl), List.nil_append]
  | _, _, .object h, fuel, rest, _, hf => by
    have members := h.scan fuel rest
      (by simp only [List.length_cons, List.length_append] at hf; omega)
    obtain ⟨r, first⟩ := h.head ('}' :: rest)
    rw [List.cons_append, List.cons_append, List.append_assoc]
    rw [first] at members
    exact scanValue_brace first (by decide) members

theorem WritesElement.scan : {d : Draft} → {cs : List Char} → WritesElement d cs → ∀ fuel rest,
    EndsNumber rest → 2 * cs.length ≤ fuel →
    ∃ r, scanValue fuel (cs ++ rest) = (d, some r) ∧ skipSpace r = skipSpace rest
  | _, _, @WritesElement.mk d before cs after hb h ha, fuel, rest, hr, hf => by
    simp only [List.length_append] at hf
    obtain ⟨k, rfl⟩ : ∃ k, fuel = k + 1 := by
      have := h.length_pos
      exact ⟨fuel - 1, by omega⟩
    have value := h.scan k _ (ha.endsNumber hr) (by omega)
    refine ⟨after ++ rest, ?_, ha.skipSpace_append rest⟩
    rw [List.append_assoc, List.append_assoc, ← scanValue_skipSpace, hb.skipSpace_append,
      scanValue_skipSpace, value]

/-- Items one after the other, and the bracket behind them. -/
theorem WritesItems.scan : {ds : List Draft} → {cs : List Char} → WritesItems ds cs →
    ∀ fuel rest, 2 * cs.length + 1 ≤ fuel →
    scanItem fuel (cs ++ ']' :: rest) = ((ds, .closed), some rest)
  | _, _, .one h, fuel + 1, rest, hf => by
    obtain ⟨r, value, space⟩ := h.scan fuel (']' :: rest) (endsNumber_cons (by decide)) (by omega)
    rw [scanItem, value]
    simp only [space, skipSpace_cons (show isSpace ']' = false from rfl)]
    rfl
  | _, _, @WritesItems.more d ds cs cs' h h', fuel + 1, rest, hf => by
    simp only [List.length_append, List.length_cons] at hf
    obtain ⟨r, value, space⟩ :=
      h.scan fuel (',' :: (cs' ++ ']' :: rest)) (endsNumber_cons (by decide)) (by omega)
    have items := h'.scan fuel rest (by omega)
    obtain ⟨c, r', first, hc⟩ := h'.head (']' :: rest)
    rw [List.append_assoc, List.cons_append]
    exact scanItem_more value (space.trans (skipSpace_cons rfl)) first hc items

theorem WritesMember.scan : {m : Literal × Draft} → {cs : List Char} → WritesMember m cs →
    ∀ fuel rest, EndsNumber rest → 2 * cs.length ≤ fuel →
    ∃ key r r', skipSpace (cs ++ rest) = '"' :: key ∧ scanKey key = .ok (m.1, r) ∧
      scanValue fuel r = (m.2, some r') ∧ skipSpace r' = skipSpace rest
  | _, _, @WritesMember.mk k d before key after cs hb hk ha h, fuel, rest, hr, hf => by
    simp only [List.length_append, List.length_cons] at hf
    obtain ⟨r', value, space⟩ := h.scan fuel rest hr (by omega)
    obtain ⟨body, text, scanned, closed⟩ := hk.scan (after ++ ':' :: (cs ++ rest))
    refine ⟨body, cs ++ rest, r', ?_, ?_, value, space⟩
    · rw [List.append_assoc, hb.skipSpace_append, List.append_assoc, List.append_assoc,
        List.cons_append, text]
      exact skipSpace_cons rfl
    · rw [scanKey, scanned]
      simp only [closed, if_true, ha.skipSpace_append,
        skipSpace_cons (show isSpace ':' = false from rfl)]

/-- Members one after the other, and the bracket behind them. -/
theorem WritesMembers.scan : {ms : List (Literal × Draft)} → {cs : List Char} →
    WritesMembers ms cs → ∀ fuel rest, 2 * cs.length + 1 ≤ fuel →
    scanMember fuel (skipSpace (cs ++ '}' :: rest)) = ((ms, .closed), some rest)
  | _, _, .one h, fuel + 1, rest, hf => by
    obtain ⟨key, r, r', text, scanned, value, space⟩ :=
      h.scan fuel ('}' :: rest) (endsNumber_cons (by decide)) (by omega)
    rw [text, scanMember, scanned]
    simp only [value, space, skipSpace_cons (show isSpace '}' = false from rfl)]
    rfl
  | _, _, @WritesMembers.more m ms cs cs' h h', fuel + 1, rest, hf => by
    simp only [List.length_append, List.length_cons] at hf
    obtain ⟨key, r, r', text, scanned, value, space⟩ :=
      h.scan fuel (',' :: (cs' ++ '}' :: rest)) (endsNumber_cons (by decide)) (by omega)
    have members := h'.scan fuel rest (by omega)
    obtain ⟨next, first⟩ := h'.head ('}' :: rest)
    rw [first] at members
    rw [List.append_assoc, List.cons_append, text, scanMember, scanned]
    simp only [value, space, skipSpace_cons (show isSpace ',' = false from rfl), first]
    show consMember m (scanMember fuel ('"' :: next)) = _
    rw [members]
    rfl

end

/-- The whole text of a value, with blanks around it. -/
theorem WritesElement.scan_eq {d : Draft} {cs : List Char} (h : WritesElement d cs) :
    ∃ r, Json.scan cs = (d, some r) ∧ skipSpace r = [] := by
  have nothing : EndsNumber [] := by simp [EndsNumber]
  obtain ⟨r, value, space⟩ := h.scan (2 * cs.length + 2) [] nothing (by omega)
  rw [List.append_nil] at value
  exact ⟨r, value, space⟩

/-- A text is the text of one value. -/
theorem Writes.unique {d d' : Draft} {cs : List Char} (h : Writes d cs) (h' : Writes d' cs) :
    d = d' := by
  have nothing : EndsNumber [] := by simp [EndsNumber]
  have value := h.scan (2 * cs.length) [] nothing (by omega)
  have value' := h'.scan (2 * cs.length) [] nothing (by omega)
  exact congrArg Prod.fst (value.symm.trans value')

/-! ### Nothing is wrong with a value that is written -/

mutual

theorem Writes.skipFault?_eq_none : {d : Draft} → {cs : List Char} → Writes d cs →
    d.skipFault? = none
  | _, _, .null | _, _, .bool _ | _, _, .number _ => rfl
  | _, _, .text h => h.fault?_eq_none
  | _, _, .noItems _ | _, _, .noMembers _ => rfl
  | _, _, .array h => Option.or_eq_none_iff.mpr ⟨h.itemsFault?_eq_none, rfl⟩
  | _, _, .object h => Option.or_eq_none_iff.mpr ⟨h.membersFault?_eq_none, rfl⟩

theorem WritesElement.skipFault?_eq_none : {d : Draft} → {cs : List Char} → WritesElement d cs →
    d.skipFault? = none
  | _, _, .mk _ h _ => h.skipFault?_eq_none

theorem WritesItems.itemsFault?_eq_none : {ds : List Draft} → {cs : List Char} →
    WritesItems ds cs → itemsFault? ds = none
  | _, _, .one h => Option.or_eq_none_iff.mpr ⟨h.skipFault?_eq_none, rfl⟩
  | _, _, .more h h' => Option.or_eq_none_iff.mpr ⟨h.skipFault?_eq_none, h'.itemsFault?_eq_none⟩

theorem WritesMember.skipFault?_eq_none : {m : Literal × Draft} → {cs : List Char} →
    WritesMember m cs → m.2.skipFault? = none
  | _, _, .mk _ _ _ h => h.skipFault?_eq_none

theorem WritesMembers.membersFault?_eq_none : {ms : List (Literal × Draft)} → {cs : List Char} →
    WritesMembers ms cs → membersFault? ms = none
  | _, _, .one h => Option.or_eq_none_iff.mpr ⟨h.skipFault?_eq_none, rfl⟩
  | _, _, .more h h' =>
    Option.or_eq_none_iff.mpr ⟨h.skipFault?_eq_none, h'.membersFault?_eq_none⟩

end

end SchemaReport.Json
