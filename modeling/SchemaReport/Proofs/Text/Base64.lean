import Mathlib.Algebra.Group.Nat.Defs
import Mathlib.Data.List.Basic
import SchemaReport.Text.Base64

/-! Base64 both ways. Every list of bytes is what its text stands for, and a text that is read is the
one that is written for its bytes. So exactly the canonical texts are read: those of whole groups,
with their padding, in which no bit is set that stands for nothing. -/

namespace SchemaReport.Text.Base64

theorem value?_letter {n : ℕ} (h : n < 64) : value? (letter n) = some n := by
  have all : ∀ m < 64, value? (letter m) = some m := by decide
  exact all n h

theorem letter_ne_pad {n : ℕ} (h : n < 64) : letter n ≠ pad := by
  have all : ∀ m < 64, letter m ≠ pad := by decide
  exact all n h

theorem first_byte (a : UInt8) (n : ℕ) (h : n < 16) :
    UInt8.ofNat (a.toNat / 4 * 4 + (a.toNat % 4 * 16 + n) / 16) = a := by
  rw [show a.toNat / 4 * 4 + (a.toNat % 4 * 16 + n) / 16 = a.toNat by omega, UInt8.ofNat_toNat]

theorem second_byte (b : UInt8) (m n : ℕ) (h : n < 4) :
    UInt8.ofNat ((m * 16 + b.toNat / 16) % 16 * 16 + (b.toNat % 16 * 4 + n) / 4) = b := by
  have hb := b.toNat_lt
  rw [show (m * 16 + b.toNat / 16) % 16 * 16 + (b.toNat % 16 * 4 + n) / 4 = b.toNat by omega,
    UInt8.ofNat_toNat]

theorem third_byte (c : UInt8) (m : ℕ) :
    UInt8.ofNat ((m * 4 + c.toNat / 64) % 4 * 64 + c.toNat % 64) = c := by
  have hc := c.toNat_lt
  rw [show (m * 4 + c.toNat / 64) % 4 * 64 + c.toNat % 64 = c.toNat by omega, UInt8.ofNat_toNat]

/-- A group of three bytes, last or not. -/
theorem decode_group (a b c : UInt8) (r : List Char) :
    decode (letter (a.toNat / 4) :: letter (a.toNat % 4 * 16 + b.toNat / 16) ::
        letter (b.toNat % 16 * 4 + c.toNat / 64) :: letter (c.toNat % 64) :: r) =
      (decode r).map (a :: b :: c :: ·) := by
  have ha := a.toNat_lt
  have hb := b.toNat_lt
  have hc := c.toNat_lt
  have h₁ := value?_letter (n := a.toNat / 4) (by omega)
  have h₂ := value?_letter (n := a.toNat % 4 * 16 + b.toNat / 16) (by omega)
  have h₃ := value?_letter (n := b.toNat % 16 * 4 + c.toNat / 64) (by omega)
  have h₄ := value?_letter (n := c.toNat % 64) (by omega)
  have p₃ := letter_ne_pad (n := b.toNat % 16 * 4 + c.toNat / 64) (by omega)
  have p₄ := letter_ne_pad (n := c.toNat % 64) (by omega)
  have first := first_byte a (b.toNat / 16) (by omega)
  have second := second_byte b (a.toNat % 4) (c.toNat / 64) (by omega)
  have third := third_byte c (b.toNat % 16)
  cases r with
  | nil => simp only [decode, decodeLast, h₁, h₂, h₃, h₄, p₃, p₄, first, second, third,
      Option.bind_eq_bind, Option.bind_some, if_false, Option.map_some]
  | cons x r =>
    rw [decode]
    · simp only [h₁, h₂, h₃, h₄, first, second, third, Option.bind_eq_bind, Option.bind_some]
      cases decode (x :: r) <;> rfl
    · simp

theorem decode_encode (bs : List UInt8) : decode (encode bs) = some bs := by
  fun_induction encode bs with
  | case1 => rfl
  | case2 a =>
    have ha := a.toNat_lt
    have h₁ := value?_letter (n := a.toNat / 4) (by omega)
    have h₂ := value?_letter (n := a.toNat % 4 * 16) (by omega)
    have first := first_byte a 0 (by omega)
    rw [Nat.add_zero] at first
    have unused : a.toNat % 4 * 16 % 16 = 0 := by omega
    simp only [decode, decodeLast, h₁, h₂, first, unused, Option.bind_eq_bind, Option.bind_some,
      and_self, if_true]
  | case3 a b =>
    have ha := a.toNat_lt
    have hb := b.toNat_lt
    have h₁ := value?_letter (n := a.toNat / 4) (by omega)
    have h₂ := value?_letter (n := a.toNat % 4 * 16 + b.toNat / 16) (by omega)
    have h₃ := value?_letter (n := b.toNat % 16 * 4) (by omega)
    have p₃ := letter_ne_pad (n := b.toNat % 16 * 4) (by omega)
    have first := first_byte a (b.toNat / 16) (by omega)
    have second := second_byte b (a.toNat % 4) 0 (by omega)
    rw [Nat.add_zero] at second
    have unused : b.toNat % 16 * 4 % 4 = 0 := by omega
    simp only [decode, decodeLast, h₁, h₂, h₃, p₃, first, second, unused, Option.bind_eq_bind,
      Option.bind_some, if_false, if_true]
  | case4 a b c r ih => rw [decode_group, ih, Option.map_some]

/-! ### Texts that are read -/

theorem lt_of_value? {c : Char} {n : ℕ} (h : value? c = some n) : n < 64 := by
  simp only [value?] at h
  split_ifs at h <;> cases h <;> omega

theorem letter_of_value? {c : Char} {n : ℕ} (h : value? c = some n) : letter n = c := by
  have back {m : ℕ} (hm : m = c.toNat) : Char.ofNat m = c := by rw [hm, Char.ofNat_toNat]
  simp only [value?] at h
  split_ifs at h with upper lower digit plus slash <;> obtain rfl := Option.some.inj h
  · rw [letter, if_pos (by omega)]
    exact back (by omega)
  · rw [letter, if_neg (by omega), if_pos (by omega)]
    exact back (by omega)
  · rw [letter, if_neg (by omega), if_neg (by omega), if_pos (by omega)]
    exact back (by omega)
  · exact back plus.symm
  · exact back slash.symm

/-- The letters of a group stand for the bytes that they were made of. -/
theorem bytes_of_letters {w x y z : ℕ} (hw : w < 64) (hx : x < 64) (hy : y < 64) (hz : z < 64) :
    (UInt8.ofNat (w * 4 + x / 16)).toNat = w * 4 + x / 16 ∧
      (UInt8.ofNat (x % 16 * 16 + y / 4)).toNat = x % 16 * 16 + y / 4 ∧
      (UInt8.ofNat (y % 4 * 64 + z)).toNat = y % 4 * 64 + z := by
  simp only [UInt8.toNat_ofNat']
  omega

theorem encode_group {w x y z : ℕ} (hw : w < 64) (hx : x < 64) (hy : y < 64) (hz : z < 64)
    (bs : List UInt8) :
    encode (UInt8.ofNat (w * 4 + x / 16) :: UInt8.ofNat (x % 16 * 16 + y / 4) ::
        UInt8.ofNat (y % 4 * 64 + z) :: bs) =
      letter w :: letter x :: letter y :: letter z :: encode bs := by
  obtain ⟨first, second, third⟩ := bytes_of_letters hw hx hy hz
  rw [encode, first, second, third]
  congr <;> omega

theorem eq_encode_of_decodeLast {a b c d : Char} {bs : List UInt8}
    (h : decodeLast a b c d = some bs) : [a, b, c, d] = encode bs := by
  simp only [decodeLast, Option.bind_eq_bind, Option.bind_eq_some_iff] at h
  obtain ⟨w, hw, x, hx, h⟩ := h
  have w64 := lt_of_value? hw
  have x64 := lt_of_value? hx
  obtain rfl := letter_of_value? hw
  obtain rfl := letter_of_value? hx
  by_cases hc : c = pad
  · rw [if_pos hc] at h
    split_ifs at h with last
    obtain rfl := Option.some.inj h
    obtain ⟨first, -, -⟩ := bytes_of_letters w64 x64 (y := 0) (z := 0) (by omega) (by omega)
    rw [encode, first, hc, last.1]
    congr <;> omega
  · rw [if_neg hc, Option.bind_eq_some_iff] at h
    obtain ⟨y, hy, h⟩ := h
    have y64 := lt_of_value? hy
    obtain rfl := letter_of_value? hy
    by_cases hd : d = pad
    · rw [if_pos hd] at h
      split_ifs at h with unused
      obtain rfl := Option.some.inj h
      obtain ⟨first, second, -⟩ := bytes_of_letters w64 x64 y64 (z := 0) (by omega)
      rw [encode, first, second, hd]
      congr <;> omega
    · rw [if_neg hd, Option.bind_eq_some_iff] at h
      obtain ⟨z, hz, h⟩ := h
      obtain rfl := letter_of_value? hz
      obtain rfl := Option.some.inj h
      rw [encode_group w64 x64 y64 (lt_of_value? hz), encode]

theorem eq_encode_of_decode {cs : List Char} {bs : List UInt8} (h : decode cs = some bs) :
    cs = encode bs := by
  fun_induction decode cs generalizing bs with
  | case1 =>
    obtain rfl := Option.some.inj h
    rfl
  | case2 a b c d => exact eq_encode_of_decodeLast h
  | case3 a b c d r _ ih =>
    simp only [Option.bind_eq_bind, Option.bind_eq_some_iff] at h
    obtain ⟨w, hw, x, hx, y, hy, z, hz, rest, hr, h⟩ := h
    obtain rfl := Option.some.inj h
    rw [encode_group (lt_of_value? hw) (lt_of_value? hx) (lt_of_value? hy) (lt_of_value? hz),
      ← ih hr, letter_of_value? hw, letter_of_value? hx, letter_of_value? hy, letter_of_value? hz]
  | case4 => cases h

theorem decode_eq_some_iff {cs : List Char} {bs : List UInt8} :
    decode cs = some bs ↔ cs = encode bs :=
  ⟨eq_encode_of_decode, fun h => h ▸ decode_encode bs⟩

/-! ### Canonical texts -/

/-- The alphabet in the order of the values. -/
def alphabet : List Char :=
  "ABCDEFGHIJKLMNOPQRSTUVWXYZabcdefghijklmnopqrstuvwxyz0123456789+/".toList

/-- Letters of the alphabet and up to two pads, together whole groups of four. Each pad leaves two
bits of the last letter without a byte, and those are zero. -/
def IsCanonical (cs : List Char) : Prop :=
  ∃ (letters : List Char) (pads : ℕ), cs = letters ++ List.replicate pads '=' ∧ 4 ∣ cs.length ∧
    pads ≤ 2 ∧ (∀ c ∈ letters, c ∈ alphabet) ∧ ∀ c ∈ letters.getLast?, 4 ^ pads ∣ alphabet.idxOf c

theorem letter_mem_alphabet {n : ℕ} (h : n < 64) : letter n ∈ alphabet := by
  have all : ∀ m < 64, letter m ∈ alphabet := by decide +kernel
  exact all n h

theorem idxOf_letter {n : ℕ} (h : n < 64) : alphabet.idxOf (letter n) = n := by
  have all : ∀ m < 64, alphabet.idxOf (letter m) = m := by decide +kernel
  exact all n h

theorem value?_of_mem_alphabet {c : Char} (h : c ∈ alphabet) :
    value? c = some (alphabet.idxOf c) := by
  have all : (alphabet.all fun c => value? c == some (alphabet.idxOf c)) = true := by
    decide +kernel
  exact beq_iff_eq.mp (List.all_eq_true.mp all c h)

theorem ne_pad_of_mem_alphabet {c : Char} (h : c ∈ alphabet) : c ≠ pad := by
  rintro rfl
  exact absurd h (by decide)

/-- A group of letters in front of a text. -/
theorem IsCanonical.group {a b c d : Char} {r : List Char} (h : IsCanonical r)
    (group : ∀ x ∈ [a, b, c, d], x ∈ alphabet) : IsCanonical (a :: b :: c :: d :: r) := by
  obtain ⟨letters, pads, text, whole, few, known, unused⟩ := h
  refine ⟨[a, b, c, d] ++ letters, pads, by rw [text]; rfl, ?_, few, ?_, ?_⟩
  · simp only [List.length_cons]
    omega
  · exact List.forall_mem_append.mpr ⟨group, known⟩
  · -- with no letter behind the group there are no pads either
    cases letters with
    | nil =>
      have none : pads = 0 := by
        rw [text, List.nil_append, List.length_replicate] at whole
        omega
      simp [none]
    | cons l ls => simpa using unused

theorem isCanonical_encode (bs : List UInt8) : IsCanonical (encode bs) := by
  fun_induction encode bs with
  | case1 => exact ⟨[], 0, rfl, by simp, by omega, by simp, by simp⟩
  | case2 a =>
    have ha := a.toNat_lt
    have first := letter_mem_alphabet (n := a.toNat / 4) (by omega)
    have last := letter_mem_alphabet (n := a.toNat % 4 * 16) (by omega)
    refine ⟨[_, _], 2, rfl, by simp, by omega, by simp [first, last], fun c hc => ?_⟩
    obtain rfl : letter (a.toNat % 4 * 16) = c := Option.some.inj hc
    rw [idxOf_letter (by omega)]
    exact Nat.dvd_mul_left 16 (a.toNat % 4)
  | case3 a b =>
    have ha := a.toNat_lt
    have hb := b.toNat_lt
    have first := letter_mem_alphabet (n := a.toNat / 4) (by omega)
    have second := letter_mem_alphabet (n := a.toNat % 4 * 16 + b.toNat / 16) (by omega)
    have last := letter_mem_alphabet (n := b.toNat % 16 * 4) (by omega)
    refine ⟨[_, _, _], 1, rfl, by simp, by omega, by simp [first, second, last], fun c hc => ?_⟩
    obtain rfl : letter (b.toNat % 16 * 4) = c := Option.some.inj hc
    rw [idxOf_letter (by omega)]
    exact Nat.dvd_mul_left 4 (b.toNat % 16)
  | case4 a b c r ih =>
    have ha := a.toNat_lt
    have hb := b.toNat_lt
    have hc := c.toNat_lt
    apply ih.group
    simp only [List.forall_mem_cons]
    refine ⟨?_, ?_, ?_, ?_, List.forall_mem_nil _⟩ <;> exact letter_mem_alphabet (by omega)

theorem exists_decodeLast {a b c d : Char} (h : IsCanonical [a, b, c, d]) :
    ∃ bs, decodeLast a b c d = some bs := by
  obtain ⟨letters, pads, text, -, few, known, unused⟩ := h
  have count := congrArg List.length text
  simp only [List.length_cons, List.length_nil, List.length_append, List.length_replicate] at count
  obtain rfl | rfl | rfl : pads = 0 ∨ pads = 1 ∨ pads = 2 := by omega
  · obtain rfl : [a, b, c, d] = letters := by simpa using text
    have ⟨ha, hb, hc, hd⟩ : a ∈ alphabet ∧ b ∈ alphabet ∧ c ∈ alphabet ∧ d ∈ alphabet := by
      simpa using known
    simp [decodeLast, value?_of_mem_alphabet, ha, hb, hc, hd, ne_pad_of_mem_alphabet]
  · have text : [a, b, c] ++ [d] = letters ++ [pad] := text
    obtain ⟨rfl, h⟩ := List.append_inj' text rfl
    obtain rfl : d = pad := by simpa using h
    have ⟨ha, hb, hc⟩ : a ∈ alphabet ∧ b ∈ alphabet ∧ c ∈ alphabet := by simpa using known
    have zero : alphabet.idxOf c % 4 = 0 := by simpa [Nat.dvd_iff_mod_eq_zero] using unused
    simp [decodeLast, value?_of_mem_alphabet, ha, hb, hc, ne_pad_of_mem_alphabet, zero]
  · have text : [a, b] ++ [c, d] = letters ++ [pad, pad] := text
    obtain ⟨rfl, h⟩ := List.append_inj' text rfl
    obtain ⟨rfl, rfl⟩ : c = pad ∧ d = pad := by simpa using h
    have ⟨ha, hb⟩ : a ∈ alphabet ∧ b ∈ alphabet := by simpa using known
    have zero : alphabet.idxOf b % 16 = 0 := by simpa [Nat.dvd_iff_mod_eq_zero] using unused
    simp [decodeLast, value?_of_mem_alphabet, ha, hb, zero]

theorem IsCanonical.of_group {a b c d e : Char} {r : List Char}
    (h : IsCanonical (a :: b :: c :: d :: e :: r)) :
    (∀ x ∈ [a, b, c, d], x ∈ alphabet) ∧ IsCanonical (e :: r) := by
  obtain ⟨letters, pads, text, whole, few, known, unused⟩ := h
  have count := congrArg List.length text
  simp only [List.length_cons, List.length_append, List.length_replicate] at count whole
  have split : letters = letters.take 4 ++ letters.drop 4 := (List.take_append_drop 4 letters).symm
  have first : (letters.take 4).length = 4 := by rw [List.length_take]; omega
  have text : [a, b, c, d] ++ e :: r =
      letters.take 4 ++ (letters.drop 4 ++ List.replicate pads '=') := by
    rw [← List.append_assoc, ← split]
    exact text
  obtain ⟨group, rest⟩ := List.append_inj text first.symm
  refine ⟨fun x hx => known x (List.mem_of_mem_take (group ▸ hx)), letters.drop 4, pads, rest, ?_,
    few, fun x hx => known x (List.mem_of_mem_drop hx), fun x hx => unused x ?_⟩
  · simp only [List.length_cons]
    omega
  · rw [List.getLast?_drop, if_neg (by omega)] at hx
    exact hx

theorem exists_decode : (cs : List Char) → IsCanonical cs → ∃ bs, decode cs = some bs
  | [], _ => ⟨[], rfl⟩
  | [_], h | [_, _], h | [_, _, _], h => by
    obtain ⟨_, _, _, whole, _⟩ := h
    simp at whole
  | [_, _, _, _], h => exists_decodeLast h
  | a :: b :: c :: d :: e :: r, h => by
    obtain ⟨group, rest⟩ := h.of_group
    obtain ⟨bs, hbs⟩ := exists_decode (e :: r) rest
    simp only [List.forall_mem_cons] at group
    obtain ⟨ha, hb, hc, hd, -⟩ := group
    rw [decode, value?_of_mem_alphabet ha, value?_of_mem_alphabet hb, value?_of_mem_alphabet hc,
      value?_of_mem_alphabet hd, hbs]
    · exact ⟨_, rfl⟩
    · simp

/-- Exactly the canonical texts are read. -/
theorem exists_decode_iff {cs : List Char} : (∃ bs, decode cs = some bs) ↔ IsCanonical cs := by
  constructor
  · rintro ⟨bs, h⟩
    rw [eq_encode_of_decode h]
    exact isCanonical_encode bs
  · exact exists_decode cs

end SchemaReport.Text.Base64
