import SchemaReport.Proofs.Double.Integer
import SchemaReport.Proofs.Json.Member

/-! Integer literals where a double is asked for. The literal is taken if the double nearest to it
has its value, and refused as a wrong value otherwise. There is one exception: the greatest integer
of 64 bits is not the value of a double, but the double that it is rounded to turns back into the
greatest integer, so it is taken for the next power of two. -/

namespace SchemaReport.Json

open Double (Holds)

/-- The greatest integer of 64 bits is rounded up to a double that none of them equals. -/
theorem nearest_greatest : Double.nearest (2 ^ 64 - 1) = 2 ^ 64 := by decide +kernel

theorem doubleOfInt?_eq {n : ℤ} (hlo : -2 ^ 63 ≤ n) (hhi : n < 2 ^ 64) :
    doubleOfInt? n = if Holds n.natAbs ∨ n = 2 ^ 64 - 1 then some (.ofInt n) else none := by
  have bits : n.natAbs < 2 ^ 64 := by omega
  have back := Double.truncate_ofInt bits
  unfold doubleOfInt?
  by_cases h0 : 0 ≤ n
  · rw [if_pos h0, Double.lossless?_eq bits h0 (by omega)]
    rw [if_neg (by omega)] at back
    refine if_congr (or_congr_right ⟨?_, ?_⟩) rfl rfl
    · rintro (⟨h, -⟩ | ⟨-, h⟩)
      · exact h
      · omega
    · rintro rfl
      have greatest : (2 ^ 64 - 1 : ℤ).natAbs = 2 ^ 64 - 1 := by decide
      rw [greatest, nearest_greatest] at back
      exact .inl ⟨rfl, by rw [back]; decide⟩
  · rw [if_neg h0, Double.lossless?_eq bits (by omega) (by omega)]
    -- the least integer is a power of two, and the greatest one is not negative
    refine if_congr ⟨?_, ?_⟩ rfl rfl
    · rintro (h | ⟨h, -⟩ | ⟨rfl, -⟩)
      · exact .inl h
      · omega
      · exact .inl ⟨1, 63, by decide, by norm_num⟩
    · rintro (h | h)
      · exact .inl h
      · omega

/-- The field of an option that holds a double. -/
def doubleValue : Field := .optional 6 "double_value" "doubleValue" .double

/-- An option of which only the double is given, as the integer literal of `n`. -/
def optionText (n : ℤ) : List Char :=
  '{' :: literal doubleValue.key.toList ++ ':' :: intText n ++ ['}']

/-- Where a double is asked for, the literal of `n` gives `r`: in a field of any message, however
deep it stands, and so in an option that has nothing else. -/
structure ReadsAsDouble (n : ℤ) (r : ReadResult Double) : Prop where
  slot : ∀ depth nested, readSlot depth nested (.number (Number.int n).numeral) doubleValue.kind =
    r.map fun d => .optional (some d)
  text : read .uninterpretedOption (optionText n) =
    r.map fun d => (Message.empty .uninterpretedOption).put doubleValue (.optional (some d))

theorem readScalar_integer {n : ℤ} (h : (Number.int n).IsWritable) (depth : ℕ) (s : Scalar) :
    readScalar depth s (.number (Number.int n).numeral) = scalarOf s (.number (.int n)) := by
  have found := found_number h
  rw [Value.draft] at found
  exact readScalar_of_found found (by simp) (by simp)

theorem optionText_eq (n : ℤ) : optionText n = memberText doubleValue (.number (.int n)) := by
  simp only [memberText_eq, optionText, Value.print, numberText]

/-- What a scalar makes of the integer is what its literal gives wherever it stands. -/
theorem readsAsDouble {n : ℤ} (h : (Number.int n).IsWritable) :
    ReadsAsDouble n (scalarOf .double (.number (.int n))) := by
  have slot : ∀ depth nested,
      readSlot depth nested (.number (Number.int n).numeral) doubleValue.kind =
        (scalarOf .double (.number (.int n))).map fun d => .optional (some d) := by
    intro depth nested
    rw [← readScalar_integer h depth]
    exact readSlot_optional (by simp) depth nested .double
  refine ⟨slot, ?_⟩
  have known : doubleValue ∈ MessageType.uninterpretedOption.fields := by
    simp [MessageType.fields, doubleValue]
  rw [optionText_eq, read_memberText known (.number h), Value.draft, slot]
  cases scalarOf .double (.number (.int n)) <;> rfl

/-- The literal of an integer that 64 bits hold, signed or unsigned, is taken as a double that has
its value, if there is one, and is refused as a wrong value otherwise. Only the greatest integer is
taken for the number after it. -/
theorem integer_as_double {n : ℤ} (hlo : -2 ^ 63 ≤ n) (hhi : n < 2 ^ 64) :
    (Holds n.natAbs → ∃ d : Double, ReadsAsDouble n (.ok d) ∧ d.IsFinite ∧ d.value = n) ∧
    (n = 2 ^ 64 - 1 → ∃ d : Double, ReadsAsDouble n (.ok d) ∧ d.IsFinite ∧ d.value = 2 ^ 64) ∧
    (¬ Holds n.natAbs → n ≠ 2 ^ 64 - 1 →
      ReadsAsDouble n (.error (.wrongValue (.number (.int n)) (.scalar .double)))) := by
  have bits : n.natAbs < 2 ^ 64 := by omega
  have result := readsAsDouble (n := n) ⟨hlo, hhi⟩
  rw [scalarOf, fit, doubleOfInt?_eq hlo hhi] at result
  refine ⟨fun holds => ?_, fun greatest => ?_, fun lost inner => ?_⟩
  · rw [if_pos (.inl holds)] at result
    exact ⟨_, result, Double.ofInt_isFinite bits, Double.value_ofInt_of_holds bits holds⟩
  · rw [if_pos (.inr greatest)] at result
    refine ⟨_, result, Double.ofInt_isFinite bits, ?_⟩
    subst greatest
    have greatest : (2 ^ 64 - 1 : ℤ).natAbs = 2 ^ 64 - 1 := by decide
    rw [Double.value_ofInt bits, greatest, nearest_greatest]
    norm_num
  · rw [if_neg (not_or.mpr ⟨lost, inner⟩)] at result
    exact result

/-- Above the 53 bits of a mantissa, the even numbers are kept and the odd ones refused. -/
theorem integer_as_double_past_mantissa :
    (Holds (2 ^ 53 + 2 : ℤ).natAbs ∧
      ∃ d : Double, ReadsAsDouble (2 ^ 53 + 2) (.ok d) ∧ d.IsFinite ∧ d.value = 2 ^ 53 + 2) ∧
    ¬ Holds (2 ^ 53 + 1 : ℤ).natAbs ∧ ReadsAsDouble (2 ^ 53 + 1)
      (.error (.wrongValue (.number (.int (2 ^ 53 + 1))) (.scalar .double))) := by
  constructor
  · have holds : Holds (2 ^ 53 + 2 : ℤ).natAbs := ⟨2 ^ 52 + 1, 1, by decide, by norm_num⟩
    obtain ⟨d, read, finite, value⟩ :=
      (integer_as_double (n := 2 ^ 53 + 2) (by norm_num) (by norm_num)).1 holds
    exact ⟨holds, d, read, finite, by rw [value]; norm_num⟩
  · have lost : ¬ Holds (2 ^ 53 + 1 : ℤ).natAbs := by decide +kernel
    have refused := (integer_as_double (n := 2 ^ 53 + 1) (by norm_num) (by norm_num)).2.2 lost
    exact ⟨lost, refused (by norm_num)⟩

/-- Not every integer that is taken is the value of a double. -/
theorem not_forall_integer_is_kept :
    ¬ ∀ n : ℤ, -2 ^ 63 ≤ n → n < 2 ^ 64 →
      ((∃ m, read .uninterpretedOption (optionText n) = .ok m) ↔ Holds n.natAbs) := by
  intro kept
  have taken := readsAsDouble (n := 2 ^ 64 - 1) ⟨by norm_num, by norm_num⟩
  rw [scalarOf, fit, doubleOfInt?_eq (by norm_num) (by norm_num), if_pos (.inr rfl)] at taken
  have holds := (kept (2 ^ 64 - 1) (by norm_num) (by norm_num)).mp ⟨_, taken.text⟩
  exact absurd holds (by decide +kernel)

end SchemaReport.Json
