import Mathlib.Data.List.Perm.Basic
import SchemaReport.Wire.Encode

/-! The number of bytes of a message, added up from its parts, is the length of its form. The order
in which the fields are written does not matter for this, and the wire type of a key fits into the
bits that its number leaves free. -/

namespace SchemaReport.Wire

-- Sums start at the zero of the core library, also where an algebraic hierarchy brings its own.
attribute [local instance (high)] Zero.ofOfNat0

theorem length_varint (n : ℕ) : (varint n).length = varintSize n := length_varintWithin 9 n

theorem length_block (bs : List UInt8) : (block bs).length = blockSize bs.length := by
  rw [block, List.length_append, length_varint, blockSize]

theorem varintSizeWithin_add {c : ℕ} (hc : c < 8) (more n : ℕ) :
    varintSizeWithin more (8 * n + c) = varintSizeWithin more (8 * n) := by
  cases more with
  | zero => rfl
  | succ more =>
    have same : (8 * n + c) / 128 = 8 * n / 128 := by omega
    by_cases h : 8 * n < 128
    · rw [varintSizeWithin, if_pos (by omega), varintSizeWithin, if_pos h]
    · rw [varintSizeWithin, if_neg (by omega), varintSizeWithin, if_neg h, same]

theorem length_key (n : ℕ) (w : WireType) : (key n w).length = keySize n := by
  have hw : w.code < 8 := by cases w <;> decide
  rw [key, length_varint, varintSize, varintSizeWithin_add hw]
  rfl

theorem length_littleEndian (k n : ℕ) : (littleEndian k n).length = k := by
  induction k generalizing n with
  | zero => rfl
  | succ k ih => rw [littleEndian, List.length_cons, ih]

theorem toList_loop (b : ByteArray) (i : ℕ) (r : List UInt8) :
    ByteArray.toList.loop b i r = r.reverse ++ b.data.toList.drop i := by
  fun_induction ByteArray.toList.loop b i r with
  | case1 i r hi ih =>
    have hi' : i < b.data.toList.length := hi
    rw [ih, List.drop_eq_getElem_cons hi', List.reverse_cons, List.append_assoc]
    congr 2
    simp [ByteArray.get!, hi]
  | case2 i r hi =>
    have hi' : b.data.toList.length ≤ i := Nat.le_of_not_lt hi
    rw [List.drop_eq_nil_of_le hi', List.append_nil]

theorem toList_toUTF8 (s : String) : s.toUTF8.toList = s.toUTF8.data.toList := toList_loop _ 0 []

theorem length_encodeScalar (s : Scalar) (v : s.Value) :
    (encodeScalar s v).length = sizeScalar s v := by
  cases s with
  | string =>
    rw [encodeScalar, length_block, toList_toUTF8]
    rfl
  | bytes => exact length_block _
  | bool => rfl
  | double => exact length_littleEndian 8 _
  | _ => exact length_varint _

theorem length_encodeOne (n : ℕ) (s : Scalar) (v : s.Value) :
    (encodeOne n s v).length = sizeOne n s v := by
  rw [encodeOne, List.length_append, length_key, length_encodeScalar, sizeOne]

/-! ### Pieces in order -/

theorem Piece.insert_perm (p : Piece) (ps : List Piece) : (p.insert ps).Perm (p :: ps) := by
  induction ps with
  | nil => exact List.Perm.refl _
  | cons q qs ih =>
    rw [insert]
    split_ifs
    · exact List.Perm.refl _
    · exact (ih.cons q).trans (List.Perm.swap p q qs)

theorem foldr_insert_perm (ps : List Piece) : (ps.foldr Piece.insert []).Perm ps := by
  induction ps with
  | nil => exact List.Perm.refl _
  | cons p ps ih => exact (Piece.insert_perm p _).trans (ih.cons p)

theorem length_assemble (ps : List Piece) :
    (assemble ps).length = (ps.map fun p => p.bytes.length).sum := by
  rw [assemble, List.length_flatMap]
  exact ((foldr_insert_perm ps).map _).sum_nat

mutual

theorem sum_pieces : {fs : List Field} → (r : Record fs) →
    ((pieces r).map fun p => p.bytes.length).sum = size r
  | _, .nil => rfl
  | f :: _, .cons s r => by
    rw [pieces, List.map_cons, List.sum_cons, length_encodeSlot f.number s, sum_pieces r, size]

theorem length_encodeSlot (n : ℕ) : {k : Kind} → (s : Slot k) →
    (encodeSlot n s).length = sizeSlot n s
  | .required s, .required v => length_encodeOne n s v
  | .optional s, .optional v => by
    rw [encodeSlot, sizeSlot, List.length_flatMap]
    simp only [length_encodeOne]
  | .repeated s packed, .repeated vs => by
    rw [encodeSlot, sizeSlot]
    split_ifs
    · rfl
    · rw [List.length_append, length_key, length_block, List.length_flatMap]
      simp only [length_encodeScalar]
    · rw [List.length_flatMap]
      simp only [length_encodeOne]
  | _, .absent => rfl
  | _, .present m => by
    rw [encodeSlot, sizeSlot, List.length_append, length_key, length_block, length_assemble,
      sum_pieces m]
  | _, .messages ms => length_encodeMessages n ms

theorem length_encodeMessages (n : ℕ) : {t : MessageType} → (ms : Messages t) →
    (encodeMessages n ms).length = sizeMessages n ms
  | _, .nil => rfl
  | _, .cons m ms => by
    rw [encodeMessages, sizeMessages, List.length_append, List.length_append, length_key,
      length_block, length_assemble, sum_pieces m, length_encodeMessages n ms]

end

theorem length_encode {t : MessageType} (m : Message t) : (encode m).length = size m := by
  rw [encode, length_assemble, sum_pieces]

end SchemaReport.Wire
