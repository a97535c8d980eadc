import SchemaReport.Proofs.Json.Scan

/-! How deep the arrays and objects of a text nest: the most brackets that stand open at one place
of it, where brackets inside literals do not count. In every text of a value this is how deep the
value nests. -/

namespace SchemaReport.Json

/-- The most brackets open at one place of a text, `n` of them before it and `quoted` if the text
begins inside a literal. -/
def mostOpen : (quoted : Bool) → (n : ℕ) → List Char → ℕ
  | _, n, [] => n
  | true, n, '\\' :: _ :: r => mostOpen true n r
  | quoted, n, c :: r =>
    if c = '"' then mostOpen (!quoted) n r
    else if quoted then mostOpen true n r
    else if c = '[' ∨ c = '{' then mostOpen false (n + 1) r
    else if c = ']' ∨ c = '}' then max n (mostOpen false (n - 1) r)
    else mostOpen false n r

/-- How deep the arrays and objects of a text nest. -/
def nesting (cs : List Char) : ℕ := mostOpen false 0 cs

mutual

def Value.nesting : Value → ℕ
  | .array vs => itemsNesting vs + 1
  | .object ms => membersNesting ms + 1
  | _ => 0

def itemsNesting : List Value → ℕ
  | [] => 0
  | v :: vs => max v.nesting (itemsNesting vs)

def memberNesting : String × Value → ℕ
  | (_, v) => v.nesting

def membersNesting : List (String × Value) → ℕ
  | [] => 0
  | m :: ms => max (memberNesting m) (membersNesting ms)

end

mutual

def Draft.nesting : Draft → ℕ
  | .array ds _ => draftsNesting ds + 1
  | .object ms _ => memberDraftsNesting ms + 1
  | _ => 0

def draftsNesting : List Draft → ℕ
  | [] => 0
  | d :: ds => max d.nesting (draftsNesting ds)

def memberDraftsNesting : List (Literal × Draft) → ℕ
  | [] => 0
  | (_, d) :: ms => max d.nesting (memberDraftsNesting ms)

end

mutual

theorem Value.draft_nesting : (v : Value) → v.draft.nesting = v.nesting
  | .null | .bool _ | .number _ | .text _ => rfl
  | .array vs => congrArg (· + 1) (itemDrafts_nesting vs)
  | .object ms => congrArg (· + 1) (memberDrafts_nesting ms)

theorem itemDrafts_nesting : (vs : List Value) → draftsNesting (itemDrafts vs) = itemsNesting vs
  | [] => rfl
  | v :: vs => congrArg₂ max v.draft_nesting (itemDrafts_nesting vs)

theorem memberDrafts_nesting : (ms : List (String × Value)) →
    memberDraftsNesting (memberDrafts ms) = membersNesting ms
  | [] => rfl
  | (_, v) :: ms => congrArg₂ max v.draft_nesting (memberDrafts_nesting ms)

end

theorem le_mostOpen (quoted : Bool) (n : ℕ) (cs : List Char) : n ≤ mostOpen quoted n cs := by
  fun_induction mostOpen quoted n cs <;> omega

/-! ### Brackets -/

theorem mostOpen_open {c : Char} (h : c = '[' ∨ c = '{') (n : ℕ) (r : List Char) :
    mostOpen false n (c :: r) = mostOpen false (n + 1) r := by
  rcases h with rfl | rfl <;> simp [mostOpen]

theorem mostOpen_close {c : Char} (h : c = ']' ∨ c = '}') (n : ℕ) (r : List Char) :
    mostOpen false n (c :: r) = max n (mostOpen false (n - 1) r) := by
  rcases h with rfl | rfl <;> simp [mostOpen]

theorem mostOpen_bracketed {o c : Char} (ho : o = '[' ∨ o = '{') (hc : c = ']' ∨ c = '}')
    {body : List Char} {k : ℕ}
    (h : ∀ n r, mostOpen false n (body ++ r) = max (n + k) (mostOpen false n r)) (n : ℕ)
    (r : List Char) :
    mostOpen false n (o :: body ++ [c] ++ r) = max (n + (k + 1)) (mostOpen false n r) := by
  rw [List.cons_append, List.cons_append, List.append_assoc, mostOpen_open ho, h,
    List.cons_append, mostOpen_close hc, Nat.add_sub_cancel, List.nil_append]
  omega

/-! ### Texts without brackets -/

/-- What opens nothing is no deeper than what follows it. -/
theorem mostOpen_flat {cs : List Char} (h : ∀ n r, mostOpen false n (cs ++ r) = mostOpen false n r)
    (n : ℕ) (r : List Char) : mostOpen false n (cs ++ r) = max (n + 0) (mostOpen false n r) := by
  have le := le_mostOpen false n r
  rw [h]
  omega

/-- A character that neither opens nor closes anything. -/
def isPlain (c : Char) : Bool := c ∉ ['"', '[', '{', ']', '}']

theorem mostOpen_plain {cs : List Char} (h : cs.all isPlain) (n : ℕ) (r : List Char) :
    mostOpen false n (cs ++ r) = mostOpen false n r := by
  induction cs with
  | nil => rfl
  | cons c cs ih =>
    obtain ⟨hc, hcs⟩ := Bool.and_eq_true_iff.mp h
    simp only [isPlain, List.mem_cons, List.not_mem_nil, or_false, not_or, decide_eq_true_eq] at hc
    rw [List.cons_append, mostOpen.eq_def]
    simp only [hc, if_false, or_self, Bool.false_eq_true]
    exact ih hcs

theorem mostOpen_mark {c : Char} (h : isPlain c) (n : ℕ) (r : List Char) :
    mostOpen false n (c :: r) = mostOpen false n r := by
  have plain : [c].all isPlain := by simpa using h
  exact mostOpen_plain plain n r

theorem isPlain_of_isSpace {c : Char} (h : isSpace c) : isPlain c := by
  simp only [isSpace, Bool.or_eq_true, decide_eq_true_eq] at h
  rcases h with ((rfl | rfl) | rfl) | rfl <;> rfl

theorem IsBlank.isPlain {bs : List Char} (h : IsBlank bs) : bs.all isPlain :=
  List.all_eq_true.mpr fun c hc => isPlain_of_isSpace (h c hc)

/-- The characters of numbers. -/
def isNumeric (c : Char) : Bool := c.isDigit || c ∈ ['.', 'e', 'E', '-', '+']

theorem isPlain_of_isNumeric {c : Char} (h : isNumeric c) : isPlain c := by
  refine decide_eq_true fun hm => ?_
  simp only [List.mem_cons, List.not_mem_nil, or_false] at hm
  rcases hm with rfl | rfl | rfl | rfl | rfl <;> exact absurd h (by decide)

theorem IsDigits.isNumeric {ds : List Char} (h : IsDigits ds) : ds.all isNumeric := by
  refine List.all_eq_true.mpr fun c hc => ?_
  rw [Json.isNumeric, h.digits c hc, Bool.true_or]

theorem WritesFraction.isNumeric {fr f : List Char} (h : WritesFraction fr f) :
    f.all isNumeric := by
  cases h with
  | none => rfl
  | point h => exact h.isNumeric

theorem WritesExponent.isNumeric {e : ℤ} {x : List Char} (h : WritesExponent e x) :
    x.all isNumeric := by
  cases h with
  | bare h | plus h | minus h => exact h.isNumeric

theorem WritesNumber.isNumeric {n : Numeral} {cs : List Char} (h : WritesNumber n cs) :
    cs.all isNumeric := by
  have sign (negative : Bool) : (sign negative).all Json.isNumeric := by cases negative <;> rfl
  cases h with
  | integer negative hw => simp only [List.all_append, sign, hw.isNumeric, Bool.and_self]
  | fraction negative hw hf =>
    have point : Json.isNumeric '.' := rfl
    simp only [List.all_append, List.all_cons, sign, hw.isNumeric, point, hf.isNumeric,
      Bool.and_self]
  | @exponent negative w fr f x letter e hw hf hl hx =>
    have letter : Json.isNumeric letter := by rcases hl with rfl | rfl <;> rfl
    simp only [List.all_append, List.all_cons, sign, hw.isNumeric, hf.isNumeric, letter,
      hx.isNumeric, Bool.and_self]

theorem WritesNumber.isPlain {n : Numeral} {cs : List Char} (h : WritesNumber n cs) :
    cs.all isPlain :=
  List.all_eq_true.mpr fun c hc =>
    isPlain_of_isNumeric (List.all_eq_true.mp h.isNumeric c hc)

/-! ### Literals -/

theorem mostOpen_quoted {c : Char} (hq : c ≠ '"') (hb : c ≠ '\\') (n : ℕ) (r : List Char) :
    mostOpen true n (c :: r) = mostOpen true n r := by
  cases r <;> simp [mostOpen, hq, hb]

theorem mostOpen_quotedText {cs : List Char} (h : ∀ c ∈ cs, c ≠ '"' ∧ c ≠ '\\') (n : ℕ)
    (r : List Char) : mostOpen true n (cs ++ r) = mostOpen true n r := by
  induction cs with
  | nil => rfl
  | cons c cs ih =>
    obtain ⟨hq, hb⟩ := h c (by simp)
    rw [List.cons_append, mostOpen_quoted hq hb]
    exact ih fun d hd => h d (by simp [hd])

theorem WritesPieces.mostOpen {ps : List Piece} {cs : List Char} (h : WritesPieces ps cs) (n : ℕ)
    (r : List Char) : mostOpen true n (cs ++ r) = mostOpen true n r := by
  induction h with
  | nil => rfl
  | cons h _ ih =>
    rw [List.append_assoc, ← ih]
    cases h with
    | char hq hb _ => exact mostOpen_quoted hq hb n _
    | short => simp [Json.mostOpen]
    | unit h =>
      rw [List.cons_append, List.cons_append, Json.mostOpen]
      exact mostOpen_quotedText (fun e he => ne_of_hexDigit? (hexDigit?_of_unit? h e he)) n _

theorem WritesLiteral.mostOpen {l : Literal} {cs : List Char} (h : WritesLiteral l cs) (n : ℕ)
    (r : List Char) : mostOpen false n (cs ++ r) = mostOpen false n r := by
  obtain ⟨h⟩ := h
  have closing : Json.mostOpen true n ('"' :: r) = Json.mostOpen false n r := by
    cases r <;> simp [Json.mostOpen]
  rw [← closing, ← h.mostOpen]
  simp [Json.mostOpen]

/-! ### Values -/

mutual

theorem Writes.mostOpen : {d : Draft} → {cs : List Char} → Writes d cs → ∀ n r,
    mostOpen false n (cs ++ r) = max (n + d.nesting) (mostOpen false n r)
  | _, _, .null => mostOpen_flat (mostOpen_plain rfl)
  | _, _, .bool b => mostOpen_flat (mostOpen_plain (by cases b <;> rfl))
  | _, _, .number h => mostOpen_flat (mostOpen_plain h.isPlain)
  | _, _, .text h => mostOpen_flat h.mostOpen
  | _, _, .noItems h =>
    mostOpen_bracketed (.inl rfl) (.inl rfl) (mostOpen_flat (mostOpen_plain h.isPlain))
  | _, _, .array h => mostOpen_bracketed (.inl rfl) (.inl rfl) h.mostOpen
  | _, _, .noMembers h =>
    mostOpen_bracketed (.inr rfl) (.inr rfl) (mostOpen_flat (mostOpen_plain h.isPlain))
  | _, _, .object h => mostOpen_bracketed (.inr rfl) (.inr rfl) h.mostOpen

theorem WritesElement.mostOpen : {d : Draft} → {cs : List Char} → WritesElement d cs → ∀ n r,
    mostOpen false n (cs ++ r) = max (n + d.nesting) (mostOpen false n r)
  | _, _, .mk hb h ha, n, r => by
    simp only [List.append_assoc, mostOpen_plain hb.isPlain, h.mostOpen, mostOpen_plain ha.isPlain]

theorem WritesItems.mostOpen : {ds : List Draft} → {cs : List Char} → WritesItems ds cs → ∀ n r,
    mostOpen false n (cs ++ r) = max (n + draftsNesting ds) (mostOpen false n r)
  | _, _, .one h, n, r => by
    rw [h.mostOpen, draftsNesting, draftsNesting, Nat.max_zero]
  | _, _, .more h h', n, r => by
    rw [List.append_assoc, List.cons_append, h.mostOpen, mostOpen_mark rfl, h'.mostOpen,
      draftsNesting]
    omega

theorem WritesMember.mostOpen : {m : Literal × Draft} → {cs : List Char} → WritesMember m cs →
    ∀ n r, mostOpen false n (cs ++ r) = max (n + m.2.nesting) (mostOpen false n r)
  | _, _, .mk hb hk ha h, n, r => by
    rw [List.append_assoc, List.append_assoc, List.append_assoc, List.cons_append,
      mostOpen_plain hb.isPlain, hk.mostOpen, mostOpen_plain ha.isPlain, mostOpen_mark rfl,
      h.mostOpen]

theorem WritesMembers.mostOpen : {ms : List (Literal × Draft)} → {cs : List Char} →
    WritesMembers ms cs → ∀ n r,
    mostOpen false n (cs ++ r) = max (n + memberDraftsNesting ms) (mostOpen false n r)
  | _, _, .one (m := (k, d)) h, n, r => by
    rw [h.mostOpen, memberDraftsNesting, memberDraftsNesting, Nat.max_zero]
  | _, _, .more (m := (k, d)) h h', n, r => by
    rw [List.append_assoc, List.cons_append, h.mostOpen, mostOpen_mark rfl, h'.mostOpen,
      memberDraftsNesting]
    dsimp only
    omega

end

theorem WritesElement.nesting {d : Draft} {cs : List Char} (h : WritesElement d cs) :
    nesting cs = d.nesting := by
  have text := h.mostOpen 0 []
  rw [List.append_nil] at text
  rw [Json.nesting, text, Json.mostOpen]
  omega

end SchemaReport.Json
