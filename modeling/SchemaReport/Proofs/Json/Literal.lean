import Mathlib.Tactic.NormNum
import SchemaReport.Json.Literal

/-! Text literals. A character stands for itself or is given with one letter, and units of 16 bits
are given by number. Every such literal is scanned as its pieces, and stands for a text if the units
that are halves of characters come in pairs. What is written for a text is one of its literals: a
control character without a short form is written by its number, all others by themselves or with
one letter. -/

namespace SchemaReport.Json

/-- A character by itself or with one letter, or a unit by four hexadecimal digits. -/
inductive WritesPiece : Piece → List Char → Prop
  | char {c : Char} (hq : c ≠ '"') (hb : c ≠ '\\') (printable : 0x20 ≤ c.toNat) :
    WritesPiece (.char c) [c]
  | short {c e : Char} (h : unescape? e = some c) : WritesPiece (.char c) ['\\', e]
  | unit {a b c d : Char} {n : ℕ} (h : unit? a b c d = some n) :
    WritesPiece (.unit n) ['\\', 'u', a, b, c, d]

inductive WritesPieces : List Piece → List Char → Prop
  | nil : WritesPieces [] []
  | cons {p : Piece} {ps : List Piece} {cs cs' : List Char} (h : WritesPiece p cs)
    (h' : WritesPieces ps cs') : WritesPieces (p :: ps) (cs ++ cs')

inductive WritesLiteral : Literal → List Char → Prop
  | mk {ps : List Piece} {cs : List Char} (h : WritesPieces ps cs) :
    WritesLiteral ⟨ps, .closed⟩ ('"' :: cs ++ ['"'])

theorem ne_of_hexDigit? {c : Char} (h : (hexDigit? c).isSome) : c ≠ '"' ∧ c ≠ '\\' := by
  constructor <;> rintro rfl <;> exact absurd h (by decide)

theorem hexDigit?_of_unit? {a b c d : Char} {n : ℕ} (h : unit? a b c d = some n) :
    ∀ e ∈ [a, b, c, d], (hexDigit? e).isSome := by
  simp only [unit?, Option.bind_eq_bind, Option.bind_eq_some_iff] at h
  obtain ⟨w, hw, x, hx, y, hy, z, hz, -⟩ := h
  simp [hw, hx, hy, hz]

/-! ### Scanning -/

theorem WritesPiece.scan {p : Piece} {cs : List Char} (h : WritesPiece p cs) (r : List Char) :
    scanLiteral (cs ++ r) = cons p (scanLiteral r) := by
  cases h with
  | char hq hb printable =>
    rw [scanLiteral.eq_def]
    simp [hq, hb, Nat.not_lt.mpr printable]
  | @short c e h =>
    have other : e ≠ 'u' := by
      rintro rfl
      have long : unescape? 'u' = none := rfl
      cases long.symm.trans h
    rw [scanLiteral.eq_def]
    simp [other, h]
  | unit h =>
    simp only [List.cons_append, List.nil_append]
    rw [scanLiteral]
    simp [h]

theorem WritesPieces.scan {ps : List Piece} {cs : List Char} (h : WritesPieces ps cs)
    (r : List Char) : scanLiteral (cs ++ '"' :: r) = (⟨ps, .closed⟩, r) := by
  induction h with
  | nil => simp [scanLiteral]
  | cons h _ ih =>
    rw [List.append_assoc, h.scan, ih]
    rfl

theorem WritesLiteral.scan {l : Literal} {cs : List Char} (h : WritesLiteral l cs)
    (r : List Char) :
    ∃ body, cs ++ r = '"' :: body ∧ scanLiteral body = (l, r) ∧ l.isClosed = true := by
  obtain ⟨h⟩ := h
  exact ⟨_, by rw [List.append_assoc]; rfl, h.scan r, rfl⟩

theorem WritesLiteral.fault?_eq_none {l : Literal} {cs : List Char} (h : WritesLiteral l cs) :
    l.stop.fault? = none := by
  obtain ⟨-⟩ := h
  rfl

/-! ### Texts of literals -/

/-- The characters that pieces stand for. Halves of characters come in pairs. -/
inductive Stands : List Piece → List Char → Prop
  | nil : Stands [] []
  | char (c : Char) {ps : List Piece} {cs : List Char} (h : Stands ps cs) :
    Stands (.char c :: ps) (c :: cs)
  | unit {n : ℕ} {ps : List Piece} {cs : List Char} (hh : isHighSurrogate n = false)
    (hl : isLowSurrogate n = false) (h : Stands ps cs) : Stands (.unit n :: ps) (Char.ofNat n :: cs)
  | pair {high low : ℕ} {ps : List Piece} {cs : List Char} (hh : isHighSurrogate high)
    (hl : isLowSurrogate low) (h : Stands ps cs) :
    Stands (.unit high :: .unit low :: ps) (paired high low :: cs)

structure Literal.Spells (l : Literal) (s : String) : Prop where
  closed : l.stop = .closed
  stands : Stands l.pieces s.toList

theorem Stands.joinPieces {ps : List Piece} {cs : List Char} (h : Stands ps cs) :
    joinPieces .closed ps = .ok cs := by
  induction h with
  | nil => rfl
  | char c _ ih =>
    rw [Json.joinPieces, ih]
    rfl
  | @unit n ps cs hh hl _ ih =>
    cases ps with
    | nil =>
      cases ih
      simp [Json.joinPieces, hh, hl, LiteralEnd.fault?]
    | cons p ps =>
      rw [Json.joinPieces.eq_def]
      simp only [hh, hl, ih]
      rfl
  | @pair high low ps cs hh hl _ ih =>
    have other : isLowSurrogate high = false := by
      simp only [isHighSurrogate, isLowSurrogate, Bool.and_eq_true, decide_eq_true_eq,
        Bool.and_eq_false_iff, decide_eq_false_iff_not] at hh ⊢
      omega
    rw [Json.joinPieces.eq_def]
    simp only [hh, hl, other, ih, if_true]
    rfl

theorem Literal.Spells.text {l : Literal} {s : String} (h : l.Spells s) : l.text = .ok s := by
  rw [Literal.text, Literal.chars, h.closed, h.stands.joinPieces]
  exact congrArg Except.ok s.ofList_toList

theorem bind_eq_ok {ε α β : Type} {x : Except ε α} {f : α → Except ε β} {b : β} :
    x >>= f = .ok b ↔ ∃ a, x = .ok a ∧ f a = .ok b := by
  constructor
  · intro h
    cases x with
    | error e => cases h
    | ok a => exact ⟨a, rfl, h⟩
  · rintro ⟨a, rfl, h⟩
    exact h

theorem map_eq_ok_iff {ε α β : Type} {x : Except ε α} {f : α → β} {b : β} :
    x.map f = .ok b ↔ ∃ a, x = .ok a ∧ f a = b := by
  cases x <;> simp [Except.map]

theorem LiteralEnd.eq_closed {stop : LiteralEnd} (h : stop.fault? = none) : stop = .closed := by
  cases stop with
  | closed => rfl
  | _ => cases h

/-- Only a closed literal has a text, and its pieces stand for it. -/
theorem stands_of_joinPieces {stop : LiteralEnd} {ps : List Piece} {cs : List Char}
    (h : joinPieces stop ps = .ok cs) : stop = .closed ∧ Stands ps cs := by
  fun_induction Json.joinPieces stop ps generalizing cs with
  | case1 sound =>
    cases h
    exact ⟨LiteralEnd.eq_closed sound, .nil⟩
  | case3 c r ih =>
    obtain ⟨cs, hr, ⟨⟩⟩ := bind_eq_ok.mp h
    exact ⟨(ih hr).1, .char c (ih hr).2⟩
  | case6 n low high sound =>
    cases h
    exact ⟨LiteralEnd.eq_closed sound,
      .unit (Bool.eq_false_iff.mpr high) (Bool.eq_false_iff.mpr low) .nil⟩
  | case10 n r _ high m low ih =>
    obtain ⟨cs, hr, ⟨⟩⟩ := bind_eq_ok.mp h
    exact ⟨(ih hr).1, .pair high low (ih hr).2⟩
  | case12 n p r low high ih =>
    obtain ⟨cs, hr, ⟨⟩⟩ := bind_eq_ok.mp h
    exact ⟨(ih hr).1, .unit (Bool.eq_false_iff.mpr high) (Bool.eq_false_iff.mpr low) (ih hr).2⟩
  | case2 | case4 | case5 | case7 | case8 | case9 | case11 => cases h

theorem Literal.text_eq_ok_iff {l : Literal} {s : String} : l.text = .ok s ↔ l.Spells s := by
  refine ⟨fun h => ?_, Spells.text⟩
  obtain ⟨cs, hcs, ⟨⟩⟩ := bind_eq_ok.mp h
  obtain ⟨closed, stands⟩ := stands_of_joinPieces hcs
  exact ⟨closed, by rwa [String.toList_ofList]⟩

/-! ### Writing -/

/-- The piece as which a character is written. -/
def pieceOf (c : Char) : Piece :=
  if (escapeOf? c).isNone ∧ c.toNat < 0x20 then .unit c.toNat else .char c

/-- The literal of a text. -/
def Literal.of (cs : List Char) : Literal := ⟨cs.map pieceOf, .closed⟩

theorem unescape?_of_escapeOf? {c e : Char} (h : escapeOf? c = some e) : unescape? e = some c := by
  unfold escapeOf? at h
  split_ifs at h with h₁ h₂ h₃ h₄ h₅ h₆ h₇ <;> cases h <;> subst c <;> rfl

theorem escapeOf?_eq_none {c : Char} (h : escapeOf? c = none) : c ≠ '"' ∧ c ≠ '\\' := by
  constructor <;> rintro rfl <;> exact absurd h (by decide)

theorem unit?_hexadecimal {n : ℕ} (h : n < 0x20) :
    ∃ a b c d, (Text.hexadecimal n).leftpad 4 '0' = [a, b, c, d] ∧ unit? a b c d = some n := by
  have all : ∀ m < 0x20, let digit i := ((Text.hexadecimal m).leftpad 4 '0').getD i '0'
      (Text.hexadecimal m).leftpad 4 '0' = [digit 0, digit 1, digit 2, digit 3] ∧
        unit? (digit 0) (digit 1) (digit 2) (digit 3) = some m := by
    decide
  obtain ⟨digits, unit⟩ := all n h
  exact ⟨_, _, _, _, digits, unit⟩

theorem writesPiece_writeChar (c : Char) : WritesPiece (pieceOf c) (writeChar c) := by
  unfold writeChar pieceOf
  cases he : escapeOf? c with
  | some e =>
    rw [if_neg (by simp)]
    exact .short (unescape?_of_escapeOf? he)
  | none =>
    obtain ⟨hq, hb⟩ := escapeOf?_eq_none he
    by_cases control : c.toNat < 0x20
    · obtain ⟨w, x, y, z, digits, unit⟩ := unit?_hexadecimal control
      rw [if_pos ⟨rfl, control⟩]
      simp only [if_pos control, digits]
      exact .unit unit
    · rw [if_neg fun h => control h.2]
      simp only [if_neg control]
      exact .char hq hb (Nat.not_lt.mp control)

theorem writesPieces_flatMap (cs : List Char) :
    WritesPieces (cs.map pieceOf) (cs.flatMap writeChar) := by
  induction cs with
  | nil => exact .nil
  | cons c cs ih => exact .cons (writesPiece_writeChar c) ih

theorem writesLiteral_literal (cs : List Char) : WritesLiteral (.of cs) (literal cs) :=
  .mk (writesPieces_flatMap cs)

theorem stands_map_pieceOf (cs : List Char) : Stands (cs.map pieceOf) cs := by
  induction cs with
  | nil => exact .nil
  | cons c cs ih =>
    rw [List.map_cons, pieceOf]
    split_ifs with h
    · have high : isHighSurrogate c.toNat = false := by simp [isHighSurrogate]; omega
      have low : isLowSurrogate c.toNat = false := by simp [isLowSurrogate]; omega
      have unit := Stands.unit high low ih
      rwa [Char.ofNat_toNat] at unit
    · exact .char c ih

theorem spells_of (s : String) : (Literal.of s.toList).Spells s := ⟨rfl, stands_map_pieceOf _⟩

@[simp] theorem text_of (s : String) : (Literal.of s.toList).text = .ok s := (spells_of s).text

end SchemaReport.Json
