import Mathlib.Tactic.Ring
import SchemaReport.Proofs.Wire.Reader
import SchemaReport.Proofs.Wire.Size

/-! The parts of the wire form read back: variable-length integers, keys, blocks and scalars. All
lengths and numbers must fit into 64 bits, as they do where a length counts bytes in memory. -/

namespace SchemaReport.Wire

/-! ### Variable-length integers -/

theorem varintWithin_ne_nil (more n : ℕ) : varintWithin more n ≠ [] := by
  cases more with
  | zero => simp [varintWithin]
  | succ more =>
    rw [varintWithin]
    split_ifs <;> simp

theorem varint_ne_nil (n : ℕ) : varint n ≠ [] := varintWithin_ne_nil 9 n

theorem Input.next?_cons (b : UInt8) (bs : List UInt8) :
    (ofList (b :: bs)).next? = some (b, ofList bs) := rfl

/-- One byte that nothing follows. -/
theorem Input.varintWithin?_last {top more n : ℕ} (hn : n < 128) (ht : more = 0 → n ≤ top)
    (rest : List UInt8) :
    (ofList (UInt8.ofNat n :: rest)).varintWithin? top more = some (n, ofList rest) := by
  have hb : (UInt8.ofNat n).toNat = n := by
    rw [UInt8.toNat_ofNat']
    omega
  have hlt : UInt8.ofNat n < 128 := by
    rw [UInt8.lt_iff_toNat_lt, hb]
    exact hn
  have within : ¬ (more = 0 ∧ top < n) := fun h => absurd (ht h.1) (by omega)
  rw [varintWithin?.eq_def]
  simp only [next?_cons, Option.bind_eq_bind, Option.bind_some, if_pos hlt, hb, if_neg within]

/-- The form of a number is read as the number, if the bytes allowed hold it. -/
theorem Input.varintWithin?_varintWithin {top more n : ℕ} (ht : top < 128)
    (h : n < 128 ^ more * (top + 1)) (rest : List UInt8) :
    (ofList (varintWithin more n ++ rest)).varintWithin? top more = some (n, ofList rest) := by
  induction more generalizing n with
  | zero =>
    rw [pow_zero, one_mul] at h
    exact varintWithin?_last (by omega) (fun _ => by omega) rest
  | succ more ih =>
    rw [varintWithin]
    split_ifs with hn
    · exact varintWithin?_last hn (by simp) rest
    · have hb : (UInt8.ofNat (128 + n % 128)).toNat = 128 + n % 128 := by
        rw [UInt8.toNat_ofNat']
        omega
      have hge : ¬ UInt8.ofNat (128 + n % 128) < 128 := by
        rw [UInt8.lt_iff_toNat_lt, hb]
        simp
      have hdiv : n / 128 < 128 ^ more * (top + 1) := by
        rw [Nat.div_lt_iff_lt_mul (by decide)]
        rw [pow_succ] at h
        calc n < 128 ^ more * 128 * (top + 1) := h
          _ = 128 ^ more * (top + 1) * 128 := by rw [Nat.mul_right_comm]
      rw [List.cons_append, varintWithin?]
      simp only [next?_cons, Option.bind_eq_bind, Option.bind_some, if_neg hge, ih hdiv, hb]
      rw [show 128 + n % 128 - 128 + 128 * (n / 128) = n by omega]

theorem reads_varint {n : ℕ} (h : n < 2 ^ 64) : Reads readVarint (varint n) n := by
  intro rest
  have found : (Input.ofList (varint n ++ rest)).varint? = some (n, .ofList rest) :=
    Input.varintWithin?_varintWithin (by decide) h rest
  rw [readVarint, found]

/-! ### Bytes and blocks -/

theorem Input.take?_append (bs rest : List UInt8) :
    (ofList (bs ++ rest)).take? bs.length = some (bs, ofList rest) := by
  have fits : bs.length ≤ (ofList (bs ++ rest)).size := by
    show bs.length ≤ (bs ++ rest).length
    simp
  rw [take?, if_pos fits]
  congr 2
  · exact List.take_left
  · ext1
    exact List.drop_left

theorem reads_bytes {bs : List UInt8} {n : ℕ} (h : bs.length = n) :
    Reads (readBytes n) bs bs := by
  intro rest
  subst h
  rw [readBytes, Input.take?_append]

theorem reads_block {bs : List UInt8} (h : bs.length < 2 ^ 64) : Reads readBlock (block bs) bs :=
  (reads_varint h).bind (reads_bytes rfl)

/-- A block of steps. -/
theorem reads_frame {α : Type} {step : α → Reader α} {bs : List UInt8} {a b : α}
    (hs : Steps step bs a b) (h : bs.length < 2 ^ 64) :
    Reads (readFrame step a) (block bs) b := hs.readFrame (reads_varint h)

/-! ### Keys -/

theorem code_lt (w : WireType) : w.code < 8 := by cases w <;> decide

theorem ofCode?_code (w : WireType) : WireType.ofCode? w.code = some w := by cases w <;> rfl

/-- A key is read from any form of its number and wire type together. -/
theorem reads_key_of {bs : List UInt8} {k : Key}
    (read : Reads readVarint bs (8 * k.number + k.type.code)) (hpos : 0 < k.number)
    (hlt : k.number < 2 ^ 29) : Reads readKey bs k := by
  have hw := code_lt k.type
  have type : (8 * k.number + k.type.code) % 8 = k.type.code := by omega
  have number : (8 * k.number + k.type.code) / 8 = k.number := by omega
  rw [← List.append_nil bs]
  unfold readKey
  refine read.bind fun rest => ?_
  show (if 2 ^ 32 ≤ 8 * k.number + k.type.code then _ else _ : Reader Key) _ = _
  rw [if_neg (by omega), type, ofCode?_code, number]
  show (if k.number = 0 then _ else _ : Reader Key) _ = _
  rw [if_neg hpos.ne']
  rfl

theorem reads_key {n : ℕ} (hpos : 0 < n) (hlt : n < 2 ^ 29) (w : WireType) :
    Reads readKey (key n w) ⟨n, w⟩ := by
  have hw := code_lt w
  exact reads_key_of (reads_varint (by omega)) hpos hlt

/-! ### Scalars -/

theorem ofLittleEndian_littleEndian {k n : ℕ} (h : n < 256 ^ k) :
    ofLittleEndian (littleEndian k n) = n := by
  induction k generalizing n with
  | zero =>
    rw [pow_zero] at h
    rw [littleEndian, ofLittleEndian]
    omega
  | succ k ih =>
    have hdiv : n / 256 < 256 ^ k := by
      rw [Nat.div_lt_iff_lt_mul (by decide), ← pow_succ]
      exact h
    rw [littleEndian, ofLittleEndian, ih hdiv, UInt8.toNat_ofNat']
    omega

theorem signed64_lt (i : ℤ) : signed64 i < 2 ^ 64 := by
  unfold signed64
  omega

theorem int32_signed64 (i : Int32) : Int32.ofNat (signed64 i.toInt) = i := by
  have lo := i.le_toInt
  have hi := i.toInt_lt
  apply Int32.toInt_inj.mp
  rw [Int32.toInt_ofNat', signed64, Int.toNat_of_nonneg (by omega), Int.bmod_eq_emod,
    show Int32.size = 2 ^ 32 from rfl]
  split_ifs <;> omega

theorem int64_signed64 (i : Int64) : Int64.ofNat (signed64 i.toInt) = i := by
  have lo := i.le_toInt
  have hi := i.toInt_lt
  apply Int64.toInt_inj.mp
  rw [Int64.toInt_ofNat', signed64, Int.toNat_of_nonneg (by omega), Int.bmod_eq_emod,
    show Int64.size = 2 ^ 64 from rfl]
  split_ifs <;> omega

theorem fromUTF8?_toUTF8 (s : String) : String.fromUTF8? s.toUTF8.toList.toByteArray = some s := by
  have bytes : s.toUTF8.toList.toByteArray = s.toUTF8 := by
    ext1
    rw [toList_toUTF8, List.data_toByteArray]
  rw [bytes]
  exact dif_pos s.isValidUTF8

theorem encodeScalar_ne_nil (s : Scalar) (v : s.Value) : encodeScalar s v ≠ [] := by
  have block : ∀ bs, block bs ≠ [] := fun bs h => varint_ne_nil _ (List.append_eq_nil_iff.mp h).1
  cases s with
  | string => exact block _
  | bytes => exact block _
  | bool => simp [encodeScalar]
  | double => simp [encodeScalar, littleEndian]
  | _ => exact varint_ne_nil _

theorem reads_scalar (s : Scalar) (v : s.Value) (h : (encodeScalar s v).length < 2 ^ 64) :
    Reads (readScalar s) (encodeScalar s v) v := by
  cases s with
  | string =>
    have fits : (String.toUTF8 v).toList.length < 2 ^ 64 := by
      rw [encodeScalar, block, List.length_append] at h
      omega
    rw [← List.append_nil (encodeScalar _ _)]
    unfold readScalar
    refine (reads_block fits).bind fun rest => ?_
    rw [fromUTF8?_toUTF8]
    rfl
  | bytes =>
    apply reads_block
    rw [encodeScalar, block, List.length_append] at h
    omega
  | bool =>
    have read := (reads_varint (n := if v then 1 else 0) (by split_ifs <;> decide)).map (· != 0)
    cases v <;> exact read
  | int32 =>
    have read := (reads_varint (signed64_lt (Int32.toInt v))).map Int32.ofNat
    rwa [int32_signed64] at read
  | int64 =>
    have read := (reads_varint (signed64_lt (Int64.toInt v))).map Int64.ofNat
    rwa [int64_signed64] at read
  | uint64 =>
    have read := (reads_varint (UInt64.toNat_lt v)).map UInt64.ofNat
    rwa [UInt64.ofNat_toNat] at read
  | double =>
    have read := (reads_bytes (length_littleEndian 8 (Double.bits v).toNat)).map
      fun bs => (⟨UInt64.ofNat (ofLittleEndian bs)⟩ : Double)
    rwa [ofLittleEndian_littleEndian (UInt64.toNat_lt (Double.bits v)), UInt64.ofNat_toNat] at read
  | enum e =>
    have read := (reads_varint (signed64_lt (Int32.toInt v))).map Int32.ofNat
    rwa [int32_signed64] at read

theorem reads_typed (s : Scalar) (v : s.Value) (h : (encodeScalar s v).length < 2 ^ 64) :
    Reads (readTyped (scalarType s) s) (encodeScalar s v) v := by
  have expected : Reads (expect (scalarType s) (scalarType s)) [] () := by
    rw [expect, if_pos rfl]
    exact .pure ()
  exact expected.bind (reads_scalar s v h)

end SchemaReport.Wire
