import SchemaReport.Proofs.Json.Nesting

/-! The two layouts of a value. They have the same tokens in the same order: what is left of a text
without the blanks between its tokens is the text on one line. Line breaks stand only behind an
opening bracket or a comma and before a closing bracket, and every line is indented by the brackets
that are open where its first token begins, without the one that this token closes. -/

namespace SchemaReport.Json

/-- Where a text has got to: how many brackets are open, and whether a literal is, with a backslash
before the next character or without. -/
structure Place where
  depth : ℕ
  quoted : Bool
  escaped : Bool

namespace Place

/-- Outside literals, with `n` brackets open. -/
def outside (n : ℕ) : Place := ⟨n, false, false⟩

def inside (n : ℕ) : Place := ⟨n, true, false⟩

def next (p : Place) (c : Char) : Place :=
  if p.escaped then { p with escaped := false }
  else if p.quoted then
    if c = '"' then { p with quoted := false } else { p with escaped := c = '\\' }
  else if c = '"' then { p with quoted := true }
  else if c = '[' ∨ c = '{' then { p with depth := p.depth + 1 }
  else if c = ']' ∨ c = '}' then { p with depth := p.depth - 1 }
  else p

def after (p : Place) (cs : List Char) : Place := cs.foldl next p

/-- The place behind a text. -/
def ofText (cs : List Char) : Place := (outside 0).after cs

theorem after_append (p : Place) (xs ys : List Char) :
    p.after (xs ++ ys) = (p.after xs).after ys := List.foldl_append

theorem next_open {c : Char} (h : c = '[' ∨ c = '{') (n : ℕ) :
    (outside n).next c = outside (n + 1) := by
  rcases h with rfl | rfl <;> rfl

theorem next_close {c : Char} (h : c = ']' ∨ c = '}') (n : ℕ) :
    (outside (n + 1)).next c = outside n := by
  rcases h with rfl | rfl <;> rfl

theorem next_plain {c : Char} (h : isPlain c) (n : ℕ) : (outside n).next c = outside n := by
  simp only [isPlain, List.mem_cons, List.not_mem_nil, or_false, not_or, decide_eq_true_eq] at h
  simp [next, outside, h]

theorem next_inside {c : Char} (hq : c ≠ '"') (hb : c ≠ '\\') (n : ℕ) :
    (inside n).next c = inside n := by
  simp [next, inside, hq, hb]

theorem depth_next_newline (p : Place) : (p.next '\n').depth = p.depth := by
  simp only [next, Char.reduceEq, if_false, or_self]
  split_ifs <;> rfl

end Place

open Place

/-- The text without the blanks outside its literals. -/
def withoutBlanks : Place → List Char → List Char
  | _, [] => []
  | p, c :: r =>
    if p.quoted = false ∧ isSpace c then withoutBlanks (p.next c) r
    else c :: withoutBlanks (p.next c) r

theorem withoutBlanks_append (p : Place) (xs ys : List Char) :
    withoutBlanks p (xs ++ ys) = withoutBlanks p xs ++ withoutBlanks (p.after xs) ys := by
  induction xs generalizing p with
  | nil => rfl
  | cons c xs ih =>
    rw [List.cons_append, withoutBlanks, withoutBlanks, ih]
    split_ifs <;> rfl

theorem withoutBlanks_outside {c : Char} (h : isSpace c = false) (n : ℕ) (r : List Char) :
    withoutBlanks (outside n) (c :: r) = c :: withoutBlanks ((outside n).next c) r := by
  rw [withoutBlanks, if_neg (by simp [h])]

theorem withoutBlanks_of_isBlank {bs : List Char} (h : IsBlank bs) (n : ℕ) (r : List Char) : withoutBlanks (outside n) (bs ++ r) = withoutBlanks (outside n) r := by
  induction bs with
  | nil => rfl
  | cons c bs ih =>
    have hc := h c List.mem_cons_self
    rw [List.cons_append, withoutBlanks, if_pos ⟨rfl, hc⟩, next_plain (isPlain_of_isSpace hc)]
    exact ih fun d hd => h d (List.mem_cons_of_mem c hd)

/-! ### Tokens -/

/-- A text that opens and closes nothing, with no blanks outside literals and no control characters
at all. -/
structure IsToken (cs : List Char) : Prop where
  after : ∀ n, (outside n).after cs = outside n
  kept : ∀ n, withoutBlanks (outside n) cs = cs
  printable : ∀ c ∈ cs, 0x20 ≤ c.toNat

/-- A character of numbers and words. -/
def isSolid (c : Char) : Bool := isPlain c && !isSpace c && 0x20 ≤ c.toNat

theorem isToken_of_isSolid {cs : List Char} (h : cs.all isSolid) : IsToken cs := by
  induction cs with
  | nil => exact ⟨fun _ => rfl, fun _ => rfl, by simp⟩
  | cons c cs ih =>
    simp only [List.all_cons, isSolid, Bool.and_eq_true, Bool.not_eq_true', decide_eq_true_eq] at h
    obtain ⟨⟨⟨plain, solid⟩, printable⟩, rest⟩ := h
    have rest := ih rest
    refine ⟨fun n => ?_, fun n => ?_, List.forall_mem_cons.mpr ⟨printable, rest.printable⟩⟩
    · rw [after, List.foldl_cons, next_plain plain]
      exact rest.after n
    · rw [withoutBlanks_outside solid, next_plain plain, rest.kept]

theorem isSolid_of_isNumeric {c : Char} (h : isNumeric c) : isSolid c := by
  have plain := isPlain_of_isNumeric h
  rcases Bool.or_eq_true_iff.mp h with digit | mark
  · have solid := (isHead_of_isDigit digit).1
    have printable : 0x20 ≤ c.toNat := by
      simp only [Char.isDigit, Bool.and_eq_true, decide_eq_true_eq, UInt32.le_iff_toNat_le] at digit
      exact Nat.le_trans (by decide) digit.1
    simp [isSolid, plain, solid, printable]
  · simp only [List.mem_cons, List.not_mem_nil, or_false, decide_eq_true_eq] at mark
    rcases mark with rfl | rfl | rfl | rfl | rfl <;> decide

theorem WritesNumber.isToken {n : Numeral} {cs : List Char} (h : WritesNumber n cs) : IsToken cs :=
  isToken_of_isSolid (List.all_eq_true.mpr fun c hc =>
    isSolid_of_isNumeric (List.all_eq_true.mp h.isNumeric c hc))

/-- A part of a literal, between its quotes. -/
structure IsInner (cs : List Char) : Prop where
  after : ∀ n, (inside n).after cs = inside n
  kept : ∀ n, withoutBlanks (inside n) cs = cs
  printable : ∀ c ∈ cs, 0x20 ≤ c.toNat

theorem IsInner.append {xs ys : List Char} (hx : IsInner xs) (hy : IsInner ys) :
    IsInner (xs ++ ys) where
  after n := by rw [after_append, hx.after, hy.after]
  kept n := by rw [withoutBlanks_append, hx.after, hx.kept, hy.kept]
  printable := List.forall_mem_append.mpr ⟨hx.printable, hy.printable⟩

theorem isInner_char {c : Char} (hq : c ≠ '"') (hb : c ≠ '\\') (printable : 0x20 ≤ c.toNat) :
    IsInner [c] where
  after n := next_inside hq hb n
  kept n := by simp [withoutBlanks, inside]
  printable := by simpa using printable

theorem isInner_escape {e : Char} (printable : 0x20 ≤ e.toNat) : IsInner ['\\', e] where
  after n := by simp [after, next, inside]
  kept n := by simp [withoutBlanks, inside, next]
  printable := by simp [printable]

theorem isInner_of_forall {cs : List Char}
    (h : ∀ c ∈ cs, (c ≠ '"' ∧ c ≠ '\\') ∧ 0x20 ≤ c.toNat) : IsInner cs := by
  induction cs with
  | nil => exact ⟨fun _ => rfl, fun _ => rfl, List.forall_mem_nil _⟩
  | cons c cs ih =>
    obtain ⟨⟨⟨hq, hb⟩, printable⟩, others⟩ := List.forall_mem_cons.mp h
    exact (isInner_char hq hb printable).append (ih others)

theorem printable_of_unescape? {c e : Char} (h : unescape? e = some c) : 0x20 ≤ e.toNat := by
  unfold unescape? at h
  split_ifs at h <;> subst e <;> decide

theorem printable_of_hexDigit? {c : Char} (h : (hexDigit? c).isSome) : 0x20 ≤ c.toNat := by
  unfold hexDigit? at h
  dsimp only at h
  split_ifs at h
  · omega
  · omega
  · omega
  · cases h

theorem WritesPiece.isInner {p : Piece} {cs : List Char} (h : WritesPiece p cs) : IsInner cs := by
  cases h with
  | char hq hb printable => exact isInner_char hq hb printable
  | short h => exact isInner_escape (printable_of_unescape? h)
  | unit h =>
    have digits := hexDigit?_of_unit? h
    exact (isInner_escape (e := 'u') (by decide)).append (isInner_of_forall fun e he =>
      ⟨ne_of_hexDigit? (digits e he), printable_of_hexDigit? (digits e he)⟩)

theorem WritesPieces.isInner {ps : List Piece} {cs : List Char} (h : WritesPieces ps cs) :
    IsInner cs := by
  induction h with
  | nil => exact isInner_of_forall (List.forall_mem_nil _)
  | cons h _ ih => exact h.isInner.append ih

theorem WritesLiteral.isToken {l : Literal} {cs : List Char} (h : WritesLiteral l cs) :
    IsToken cs := by
  obtain ⟨pieces⟩ := h
  have inner := pieces.isInner
  have opened (n : ℕ) : (outside n).next '"' = inside n := rfl
  have closed (n : ℕ) : (inside n).next '"' = outside n := rfl
  refine ⟨fun n => ?_, fun n => ?_, ?_⟩
  · rw [List.cons_append, after, List.foldl_cons, opened, ← after, after_append, inner.after]
    exact closed n
  · rw [List.cons_append, withoutBlanks_outside (by decide), opened, withoutBlanks_append,
      inner.kept, inner.after, withoutBlanks, if_neg (by simp [inside])]
    rfl
  · simp only [List.cons_append, List.forall_mem_cons, List.forall_mem_append]
    exact ⟨by decide, inner.printable, by decide, List.forall_mem_nil _⟩

theorem isToken_null : IsToken "null".toList := isToken_of_isSolid rfl

theorem isToken_boolText (b : Bool) : IsToken (boolText b) := by
  cases b <;> exact isToken_of_isSolid rfl

/-! ### Line breaks -/

/-- Whether a line may end behind such a character. -/
def isOpening (c : Char) : Bool := c ∈ ['[', '{', ',']

def isClosing (c : Char) : Bool := c ∈ [']', '}']

/-- A line begins here, with `n` brackets open: `width` blanks for each of them, except for one that
the first token closes, and then that token. -/
def IsIndented (width n : ℕ) (cs : List Char) : Prop :=
  ∃ c r, cs = List.replicate (width * if isClosing c then n - 1 else n) ' ' ++ c :: r ∧
    isSpace c = false

/-- Before and after a line break between two tokens, or at the end of a text. -/
def AreApart (last : Option Char) (rest : List Char) : Prop :=
  (∃ c ∈ last, isOpening c) ∨ (∃ c ∈ (skipSpace rest).head?, isClosing c) ∨ rest = []

/-- What holds of a line break at a place: `last` comes before it and `rest` after it. -/
structure Breaks (l : Layout) (p : Place) (last : Option Char) (rest : List Char) : Prop where
  unquoted : p.quoted = false
  apart : AreApart last rest
  indented : rest = [] ∨ ∃ width, l = some width ∧ IsIndented width p.depth rest

/-- There are no control characters but line breaks of a layout. -/
def Tidy (l : Layout) : Place → Option Char → List Char → Prop
  | _, _, [] => True
  | p, last, c :: r =>
    (c.toNat < 0x20 → c = '\n' ∧ Breaks l p last r) ∧ Tidy l (p.next c) (some c) r

variable {l : Layout}

theorem Tidy.breaks {p : Place} {last : Option Char} {before after : List Char} {c : Char}
    (h : Tidy l p last (before ++ c :: after)) (control : c.toNat < 0x20) :
    c = '\n' ∧ Breaks l (p.after before) (before.getLast?.or last) after := by
  induction before generalizing p last with
  | nil => exact h.1 control
  | cons b before ih =>
    have last_eq : (b :: before).getLast?.or last = before.getLast?.or (some b) := by
      rw [List.getLast?_cons]
      cases before.getLast? <;> rfl
    rw [last_eq]
    exact ih h.2

theorem tidy_of_printable {cs : List Char} (h : ∀ c ∈ cs, 0x20 ≤ c.toNat) {p : Place}
    {r : List Char} (hr : ∀ last, Tidy l (p.after cs) last r) (last : Option Char) :
    Tidy l p last (cs ++ r) := by
  induction cs generalizing p last with
  | nil => exact hr last
  | cons c cs ih =>
    obtain ⟨hc, hcs⟩ := List.forall_mem_cons.mp h
    exact ⟨fun control => absurd control (Nat.not_lt.mpr hc), ih hcs hr (some c)⟩

/-- The text begins with a token that closes nothing. -/
def Begins (cs : List Char) : Prop := ∃ c r, cs = c :: r ∧ isSpace c = false ∧ isClosing c = false

theorem Begins.append {xs : List Char} (h : Begins xs) (ys : List Char) : Begins (xs ++ ys) := by
  obtain ⟨c, r, rfl, hc⟩ := h
  exact ⟨c, r ++ ys, rfl, hc⟩

theorem skipSpace_blanks (k : ℕ) {c : Char} (hc : isSpace c = false) (r : List Char) :
    skipSpace (List.replicate k ' ' ++ c :: r) = c :: r := by
  have blank : IsBlank (List.replicate k ' ') := by
    intro b hb
    rw [List.eq_of_mem_replicate hb]
    rfl
  rw [blank.skipSpace_append, skipSpace_cons hc]

theorem after_blanks (k n : ℕ) : (outside n).after (List.replicate k ' ') = outside n := by
  induction k with
  | zero => rfl
  | succ k ih => exact ih

/-- A line break with the blanks that belong to what follows. -/
theorem tidy_newline {k n : ℕ} {c : Char} {r : List Char} (hc : isSpace c = false)
    (depth : (if isClosing c then n - 1 else n) = k) {last : Option Char}
    (apart : (∃ b ∈ last, isOpening b) ∨ isClosing c)
    (hr : ∀ last, Tidy l (outside n) last (c :: r)) :
    Tidy l (outside n) last (newline l k ++ c :: r) := by
  cases l with
  | none => exact hr last
  | some width =>
    have space := skipSpace_blanks (width * k) hc r
    refine ⟨fun _ => ⟨rfl, rfl, ?_, .inr ⟨width, rfl, c, r, ?_, hc⟩⟩, ?_⟩
    · exact apart.imp_right fun closing => .inl ⟨c, congrArg List.head? space, closing⟩
    · rw [outside, depth]
      rfl
    · have printable : ∀ b ∈ List.replicate (width * k) ' ', 0x20 ≤ b.toNat := by
        intro b hb
        rw [List.eq_of_mem_replicate hb]
        decide
      refine tidy_of_printable printable ?_ (some '\n')
      rw [next_plain rfl, after_blanks]
      exact hr

/-! ### Values -/

/-- A layout of a text without blanks, with `n` brackets open before and after it. -/
structure IsLayout (l : Layout) (n : ℕ) (xs ys : List Char) : Prop where
  kept : ∀ r, withoutBlanks (outside n) (xs ++ r) = ys ++ withoutBlanks (outside n) r
  tidy : ∀ {r}, (∀ last, Tidy l (outside n) last r) → ∀ last, Tidy l (outside n) last (xs ++ r)

theorem IsToken.isLayout {cs : List Char} (h : IsToken cs) (n : ℕ) : IsLayout l n cs cs where
  kept r := by rw [withoutBlanks_append, h.kept, h.after]
  tidy hr := by
    refine tidy_of_printable h.printable ?_
    rw [h.after]
    exact hr

theorem IsLayout.append {n : ℕ} {xs ys xs' ys' : List Char} (h : IsLayout l n xs ys)
    (h' : IsLayout l n xs' ys') : IsLayout l n (xs ++ xs') (ys ++ ys') where
  kept r := by rw [List.append_assoc, h.kept, h'.kept, List.append_assoc]
  tidy hr := by
    rw [List.append_assoc]
    exact h.tidy (h'.tidy hr)

theorem withoutBlanks_newline (k n : ℕ) (r : List Char) :
    withoutBlanks (outside n) (newline l k ++ r) = withoutBlanks (outside n) r :=
  withoutBlanks_of_isBlank (isBlank_newline l k) n r

theorem isLayout_colon (n : ℕ) : IsLayout l n (colon l) [':'] := by
  cases l with
  | none => exact (isToken_of_isSolid rfl).isLayout n
  | some width =>
    refine ⟨fun r => rfl, fun {r} hr => ?_⟩
    have printable : ∀ c ∈ [':', ' '], 0x20 ≤ c.toNat := by simp
    exact tidy_of_printable printable hr

/-- A comma and an item on a line of its own. -/
theorem IsLayout.item {n : ℕ} {xs ys : List Char} (h : IsLayout l n xs ys) (begins : Begins xs) :
    IsLayout l n (',' :: newline l n ++ xs) (',' :: ys) := by
  refine ⟨fun r => ?_, fun {r} hr last => ?_⟩
  · have comma : (outside n).next ',' = outside n := next_plain rfl n
    rw [List.cons_append, List.cons_append, List.append_assoc, withoutBlanks_outside rfl, comma,
      withoutBlanks_newline, h.kept]
    rfl
  · obtain ⟨c, xs, rfl, space, closing⟩ := begins
    rw [List.append_assoc]
    refine ⟨fun control => absurd control (by decide), ?_⟩
    rw [next_plain rfl]
    exact tidy_newline space (by simp [closing]) (.inl ⟨',', rfl, rfl⟩) (h.tidy hr)

theorem isLayout_brackets (n : ℕ) {o c : Char} (ho : o = '[' ∨ o = '{') (hc : c = ']' ∨ c = '}') :
    IsLayout l n [o, c] [o, c] := by
  have token : (∀ b ∈ [o, c], isSpace b = false) ∧ ∀ b ∈ [o, c], 0x20 ≤ b.toNat := by
    rcases ho with rfl | rfl <;> rcases hc with rfl | rfl <;> simp [isSpace]
  have after : (outside n).after [o, c] = outside n := by
    rw [Place.after, List.foldl_cons, List.foldl_cons, next_open ho, next_close hc]
    rfl
  refine ⟨fun r => ?_, fun {r} hr => ?_⟩
  · simp only [List.cons_append, List.nil_append, withoutBlanks_outside (token.1 o (by simp)),
      next_open ho, withoutBlanks_outside (token.1 c (by simp)), next_close hc]
  · refine tidy_of_printable token.2 ?_
    rw [after]
    exact hr

/-- Items on lines of their own, between two brackets. -/
theorem IsLayout.bracketed {n : ℕ} {xs ys : List Char} (h : IsLayout l (n + 1) xs ys)
    (begins : Begins xs) {o c : Char} (ho : o = '[' ∨ o = '{') (hc : c = ']' ∨ c = '}') :
    IsLayout l n (o :: newline l (n + 1) ++ xs ++ newline l n ++ [c]) (o :: ys ++ [c]) := by
  have opening : isSpace o = false ∧ isOpening o ∧ 0x20 ≤ o.toNat := by
    rcases ho with rfl | rfl <;> decide
  have closing : isSpace c = false ∧ isClosing c ∧ 0x20 ≤ c.toNat := by
    rcases hc with rfl | rfl <;> decide
  refine ⟨fun r => ?_, fun {r} hr last => ?_⟩
  · simp only [List.cons_append, List.append_assoc, List.nil_append,
      withoutBlanks_outside opening.1, next_open ho, withoutBlanks_newline, h.kept,
      withoutBlanks_outside closing.1, next_close hc]
  · have close (last) : Tidy l (outside (n + 1)) last (c :: r) := by
      refine ⟨fun control => absurd control (Nat.not_lt.mpr closing.2.2), ?_⟩
      rw [next_close hc]
      exact hr (some c)
    have end_line (last) : Tidy l (outside (n + 1)) last (newline l n ++ c :: r) :=
      tidy_newline closing.1 (by simp [closing.2.1]) (.inr closing.2.1) close
    have items := h.tidy end_line
    simp only [List.cons_append, List.append_assoc, List.nil_append]
    refine ⟨fun control => absurd control (Nat.not_lt.mpr opening.2.2), ?_⟩
    rw [next_open ho]
    obtain ⟨d, xs, rfl, space, other⟩ := begins
    exact tidy_newline space (by simp [other]) (.inl ⟨o, rfl, opening.2.1⟩) items

theorem Value.IsWritable.begins {v : Value} (hv : v.IsWritable) (depth : ℕ) :
    Begins (v.print l depth) := by
  obtain ⟨c, r, text, hc⟩ := (hv.writes depth).head
  exact ⟨c, r, text, hc.1, by simp [isClosing, hc.2.1, hc.2.2]⟩

theorem begins_printMember (depth : ℕ) (m : String × Value) : Begins (printMember l depth m) := by
  obtain ⟨k, v⟩ := m
  exact ⟨'"', _, rfl, rfl, rfl⟩

section

variable {n : ℕ}

theorem isLayout_printItems {vs : List Value} (hvs : ∀ v ∈ vs, v.IsWritable)
    (h : ∀ v ∈ vs, IsLayout l n (v.print l n) (v.print none n)) :
    IsLayout l n (printItems l n vs) (printItems none n vs) := by
  induction vs with
  | nil => exact (isToken_of_isSolid rfl).isLayout n
  | cons v vs ih =>
    obtain ⟨hv, hvs⟩ := List.forall_mem_cons.mp hvs
    obtain ⟨first, others⟩ := List.forall_mem_cons.mp h
    exact (first.item (hv.begins n)).append (ih hvs others)

theorem isLayout_printMember {m : String × Value}
    (h : IsLayout l n (m.2.print l n) (m.2.print none n)) :
    IsLayout l n (printMember l n m) (printMember none n m) := by
  obtain ⟨k, v⟩ := m
  have key := (writesLiteral_literal k.toList).isToken.isLayout (l := l) n
  exact (key.append (isLayout_colon n)).append h

theorem isLayout_printMembers {ms : List (String × Value)}
    (h : ∀ m ∈ ms, IsLayout l n (m.2.print l n) (m.2.print none n)) :
    IsLayout l n (printMembers l n ms) (printMembers none n ms) := by
  induction ms with
  | nil => exact (isToken_of_isSolid rfl).isLayout n
  | cons m ms ih =>
    obtain ⟨first, others⟩ := List.forall_mem_cons.mp h
    exact ((isLayout_printMember first).item (begins_printMember n m)).append (ih others)

end

/-- The text of a value in any layout is a layout of its text on one line. -/
theorem Value.IsWritable.isLayout {v : Value} (hv : v.IsWritable) (n : ℕ) :
    IsLayout l n (v.print l n) (v.print none n) := by
  induction hv generalizing n with
  | null => exact isToken_null.isLayout n
  | bool b => exact (isToken_boolText b).isLayout n
  | number hn => exact hn.writes.isToken.isLayout n
  | text s => exact (writesLiteral_literal s.toList).isToken.isLayout n
  | @array vs hvs ih =>
    cases vs with
    | nil => exact isLayout_brackets n (.inl rfl) (.inl rfl)
    | cons v vs =>
      obtain ⟨hv, hvs⟩ := List.forall_mem_cons.mp hvs
      obtain ⟨first, others⟩ := List.forall_mem_cons.mp ih
      have items := (first (n + 1)).append (isLayout_printItems hvs fun w hw => others w hw (n + 1))
      have text := items.bracketed ((hv.begins (n + 1)).append _) (.inl rfl) (.inl rfl)
      simpa only [Value.print, newline, List.append_assoc, List.cons_append, List.nil_append]
        using text
  | @object ms _ ih =>
    cases ms with
    | nil => exact isLayout_brackets n (.inr rfl) (.inr rfl)
    | cons m ms =>
      obtain ⟨first, others⟩ := List.forall_mem_cons.mp ih
      have members := (isLayout_printMember (first (n + 1))).append
        (isLayout_printMembers fun x hx => others x hx (n + 1))
      have text := members.bracketed ((begins_printMember (n + 1) m).append _) (.inr rfl) (.inr rfl)
      simpa only [Value.print, newline, List.append_assoc, List.cons_append, List.nil_append]
        using text

/-! ### Texts that end with a line break -/

section

variable {v : Value} (hv : v.IsWritable)

include hv

theorem withoutBlanks_print (l : Layout) :
    withoutBlanks (outside 0) (v.print l 0 ++ ['\n']) = v.print none 0 := by
  rw [(hv.isLayout 0).kept]
  exact List.append_nil _

theorem tidy_print (l : Layout) : Tidy l (outside 0) none (v.print l 0 ++ ['\n']) := by
  have last_line (last) : Tidy l (outside 0) last ['\n'] :=
    ⟨fun _ => ⟨rfl, rfl, .inr (.inr rfl), .inl rfl⟩, trivial⟩
  exact (hv.isLayout 0).tidy last_line none

theorem breaks_of_print {before after : List Char} {c : Char}
    (h : v.print l 0 ++ ['\n'] = before ++ c :: after) (control : c.toNat < 0x20) :
    c = '\n' ∧ Breaks l (ofText before) before.getLast? after := by
  have tidy := tidy_print hv l
  rw [h] at tidy
  have breaks := tidy.breaks control
  rwa [Option.or_none] at breaks

/-- On one line there is no other line break. -/
theorem newline_notMem_print : '\n' ∉ v.print none 0 := by
  intro mem
  obtain ⟨before, after, h⟩ := List.append_of_mem mem
  have text : v.print none 0 ++ ['\n'] = before ++ '\n' :: (after ++ ['\n']) := by
    rw [h, List.append_assoc, List.cons_append]
  rcases (breaks_of_print hv text (by decide)).2.indented with empty | ⟨width, layout, -⟩
  · exact absurd empty (by simp)
  · cases layout

/-- The first line and whatever comes behind a line break is indented by the brackets open there. -/
theorem isIndented_of_print {width : ℕ} {before rest : List Char}
    (h : v.print (some width) 0 ++ ['\n'] = before ++ rest) (nonempty : rest ≠ [])
    (start : before = [] ∨ before.getLast? = some '\n') :
    IsIndented width (ofText before).depth rest := by
  rcases start with rfl | start
  · obtain ⟨c, r, text, space, closing⟩ := (hv.begins (l := some width) 0).append ['\n']
    refine ⟨c, r, ?_, space⟩
    have blanks : (width * if isClosing c then 0 - 1 else 0) = 0 := by simp
    rw [ofText, Place.after, List.foldl_nil, outside, blanks]
    exact h.symm.trans text
  · obtain ⟨line, rfl⟩ := List.getLast?_eq_some_iff.mp start
    rw [List.append_assoc] at h
    have depth : (ofText (line ++ ['\n'])).depth = (ofText line).depth := by
      rw [ofText, after_append]
      exact depth_next_newline _
    rcases (breaks_of_print hv h (by decide)).2.indented with empty | ⟨width', layout, indented⟩
    · exact absurd empty nonempty
    · cases layout
      rwa [depth]

end

end SchemaReport.Json
