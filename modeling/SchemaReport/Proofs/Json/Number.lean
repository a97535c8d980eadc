import SchemaReport.Json.Value
import SchemaReport.Proofs.Double.Shortest
import SchemaReport.Proofs.Text.Digits

/-! The literals of numbers, with any fraction and any exponent. Each is scanned as its numeral, up to
something that no number goes on with. The text of an integer or of a finite double is a literal
whose numeral stands for the number. -/

namespace SchemaReport

namespace Json

open Text

/-- Nothing that a number could go on with. -/
def EndsNumber (rest : List Char) : Prop :=
  ∀ c ∈ rest.head?, c.isDigit = false ∧ c ≠ '.' ∧ c ≠ 'e' ∧ c ≠ 'E'

theorem endsNumber_cons {c : Char} {r : List Char}
    (h : c.isDigit = false ∧ c ≠ '.' ∧ c ≠ 'e' ∧ c ≠ 'E') : EndsNumber (c :: r) := by
  intro c' hc
  obtain rfl : c = c' := by simpa using hc
  exact h

/-- No digit comes next. -/
def EndsDigits (rest : List Char) : Prop := ∀ c ∈ rest.head?, c.isDigit = false

theorem EndsNumber.endsDigits {rest : List Char} (h : EndsNumber rest) : EndsDigits rest :=
  fun c hc => (h c hc).1

theorem endsDigits_cons {c : Char} {r : List Char} (h : c.isDigit = false) :
    EndsDigits (c :: r) := by
  intro c' hc
  obtain rfl : c = c' := by simpa using hc
  exact h

theorem scanDigits_append {ds rest : List Char} (hne : ds ≠ []) (hd : ∀ c ∈ ds, c.isDigit)
    (hr : EndsDigits rest) : scanDigits (ds ++ rest) = .done ds rest := by
  have stop : rest.takeWhile Char.isDigit = [] ∧ rest.dropWhile Char.isDigit = rest := by
    cases rest with
    | nil => simp
    | cons c r => simp [hr c (by simp)]
  cases ds with
  | nil => exact absurd rfl hne
  | cons d ds =>
    have htail : ∀ c ∈ ds, c.isDigit = true := fun c hc => hd c (by simp [hc])
    rw [List.cons_append, scanDigits, if_pos (hd d (by simp)),
      List.takeWhile_append_of_pos htail, List.dropWhile_append_of_pos htail, stop.1, stop.2,
      List.append_nil]

/-- Digits that do not begin with a zero are a whole part, and so is a lone zero. -/
theorem scanWhole_append {ds rest : List Char} (hne : ds ≠ []) (hd : ∀ c ∈ ds, c.isDigit)
    (h0 : ds.head? ≠ some '0' ∨ ds = ['0']) (hr : EndsDigits rest) :
    scanWhole (ds ++ rest) = .done ds rest := by
  have hs := scanDigits_append hne hd hr
  unfold scanWhole
  split
  next c r heq =>
    cases ds with
    | nil => exact absurd rfl hne
    | cons d ds =>
      obtain ⟨rfl, -⟩ := List.cons.inj heq
      obtain rfl : ds = [] := by simpa using h0
      obtain rfl : rest = c :: r := by simpa using heq
      simp [hr c (by simp)]
  next => exact hs

/-- What a literal is after its whole part and fraction. -/
theorem scanTail_point (negative : Bool) (w : List Char) {fr rest : List Char} (hne : fr ≠ [])
    (hd : ∀ c ∈ fr, c.isDigit) (hr : EndsNumber rest) :
    scanTail negative w ('.' :: (fr ++ rest)) = .done (.ofDigits negative w fr 0) rest := by
  have hemp : fr.isEmpty = false := by simpa using hne
  simp only [scanTail, scanDigits_append hne hd hr.endsDigits, Scan.bind]
  split
  next => exact absurd rfl (hr 'e' (by simp)).2.2.1
  next => exact absurd rfl (hr 'E' (by simp)).2.2.2
  next => simp [hemp]

theorem scanTail_nil {negative : Bool} {w rest : List Char} (hr : EndsNumber rest) :
    scanTail negative w rest = .done (.integer negative (natOfDigits w)) rest := by
  unfold scanTail
  simp only
  split
  next => exact absurd rfl (hr '.' (by simp)).2.1
  next =>
    split
    next => exact absurd rfl (hr 'e' (by simp)).2.2.1
    next => exact absurd rfl (hr 'E' (by simp)).2.2.2
    next => rfl

/-! ### Grammar -/

/-- One digit or more. -/
structure IsDigits (ds : List Char) : Prop where
  nonempty : ds ≠ []
  digits : ∀ c ∈ ds, c.isDigit

/-- Digits without a zero in front, or a lone zero. -/
structure IsWhole (w : List Char) : Prop extends IsDigits w where
  noZero : w.head? ≠ some '0' ∨ w = ['0']

inductive WritesFraction : List Char → List Char → Prop
  | none : WritesFraction [] []
  | point {fr : List Char} (h : IsDigits fr) : WritesFraction fr ('.' :: fr)

/-- What follows the letter of an exponent. -/
inductive WritesExponent : ℤ → List Char → Prop
  | bare {ds : List Char} (h : IsDigits ds) : WritesExponent (natOfDigits ds) ds
  | plus {ds : List Char} (h : IsDigits ds) : WritesExponent (natOfDigits ds) ('+' :: ds)
  | minus {ds : List Char} (h : IsDigits ds) : WritesExponent (-natOfDigits ds) ('-' :: ds)

def sign (negative : Bool) : List Char := if negative then ['-'] else []

inductive WritesNumber : Numeral → List Char → Prop
  | integer (negative : Bool) {w : List Char} (hw : IsWhole w) :
    WritesNumber (.integer negative (natOfDigits w)) (sign negative ++ w)
  | fraction (negative : Bool) {w fr : List Char} (hw : IsWhole w) (hf : IsDigits fr) :
    WritesNumber (.ofDigits negative w fr 0) (sign negative ++ (w ++ '.' :: fr))
  | exponent (negative : Bool) {w fr f x : List Char} {letter : Char} {e : ℤ} (hw : IsWhole w)
    (hf : WritesFraction fr f) (hl : letter = 'e' ∨ letter = 'E') (hx : WritesExponent e x) :
    WritesNumber (.ofDigits negative w fr e) (sign negative ++ (w ++ (f ++ letter :: x)))

theorem IsWhole.exists_eq {w : List Char} (h : IsWhole w) (r : List Char) :
    ∃ d ds, w ++ r = d :: ds ∧ d.isDigit := by
  obtain ⟨d, ds, rfl⟩ := List.exists_cons_of_ne_nil h.nonempty
  exact ⟨d, ds ++ r, rfl, h.digits d (by simp)⟩

/-! ### Scanning -/

section

variable {rest : List Char}

theorem WritesExponent.scan {e : ℤ} {x : List Char} (h : WritesExponent e x)
    (hr : EndsDigits rest) : scanExponent (x ++ rest) = .done e rest := by
  cases h with
  | @bare ds h =>
    have digits := scanDigits_append h.nonempty h.digits hr
    obtain ⟨d, ds, rfl⟩ := List.exists_cons_of_ne_nil h.nonempty
    have digit := h.digits d (by simp)
    rw [scanExponent.eq_def]
    split
    next heq =>
      obtain rfl := (List.cons.inj heq).1
      exact absurd digit (by decide)
    next heq =>
      obtain rfl := (List.cons.inj heq).1
      exact absurd digit (by decide)
    next => rw [digits, Scan.bind]
  | plus h =>
    simp only [List.cons_append, scanExponent, scanDigits_append h.nonempty h.digits hr, Scan.bind]
  | minus h =>
    simp only [List.cons_append, scanExponent, scanDigits_append h.nonempty h.digits hr, Scan.bind]

theorem scanTail_exponent {negative : Bool} {w fr f x : List Char} {letter : Char} {e : ℤ}
    (hf : WritesFraction fr f) (hl : letter = 'e' ∨ letter = 'E') (hx : WritesExponent e x)
    (hr : EndsDigits rest) :
    scanTail negative w (f ++ letter :: (x ++ rest)) = .done (.ofDigits negative w fr e) rest := by
  have exponent := hx.scan hr
  have ends : EndsDigits (letter :: (x ++ rest)) := by
    rcases hl with rfl | rfl <;> exact endsDigits_cons (by decide)
  cases hf with
  | none => rcases hl with rfl | rfl <;> simp [scanTail, exponent, Scan.bind]
  | point h =>
    have digits := scanDigits_append h.nonempty h.digits ends
    rcases hl with rfl | rfl <;> simp [scanTail, digits, exponent, Scan.bind]

theorem IsWhole.scanUnsigned {negative : Bool} {w : List Char} (h : IsWhole w)
    (hr : EndsDigits rest) : scanUnsigned negative (w ++ rest) = scanTail negative w rest := by
  rw [Json.scanUnsigned, scanWhole_append h.nonempty h.digits h.noZero hr]
  rfl

/-- A literal is a sign, or none, and a text that begins with a digit and is scanned as the
numeral. -/
theorem WritesNumber.scan {n : Numeral} {cs : List Char} (h : WritesNumber n cs) :
    ∃ negative cs', cs = sign negative ++ cs' ∧ ∀ rest,
      (∃ d ds, cs' ++ rest = d :: ds ∧ d.isDigit) ∧
      (EndsNumber rest → scanUnsigned negative (cs' ++ rest) = .done n rest) := by
  cases h with
  | integer negative hw =>
    refine ⟨negative, _, rfl, fun rest => ⟨hw.exists_eq rest, fun hr => ?_⟩⟩
    rw [hw.scanUnsigned hr.endsDigits, scanTail_nil hr]
  | @fraction negative w fr hw hf =>
    refine ⟨negative, _, rfl, fun rest => ?_⟩
    rw [List.append_assoc, List.cons_append]
    refine ⟨hw.exists_eq _, fun hr => ?_⟩
    rw [hw.scanUnsigned (endsDigits_cons (by decide)),
      scanTail_point negative w hf.nonempty hf.digits hr]
  | @exponent negative w fr f x letter e hw hf hl hx =>
    refine ⟨negative, _, rfl, fun rest => ?_⟩
    have ends : EndsDigits (f ++ letter :: (x ++ rest)) := by
      cases hf with
      | none => rcases hl with rfl | rfl <;> exact endsDigits_cons (by decide)
      | point => exact endsDigits_cons (by decide)
    rw [List.append_assoc, List.append_assoc, List.cons_append]
    refine ⟨hw.exists_eq _, fun hr => ?_⟩
    rw [hw.scanUnsigned ends, scanTail_exponent hf hl hx hr.endsDigits]

end

/-! ### Writing -/

/-- The decimal that the text with a point shows: zeros before the point, and the one behind it,
count as digits. -/
def padded (dec : Double.Decimal) : Double.Decimal :=
  if 0 ≤ dec.exponent ∧ dec.exponent + (decimal dec.digits).length ≤ 16 then
    ⟨dec.digits * 10 ^ (dec.exponent.toNat + 1), -1⟩
  else dec

/-- A literal is read as it stands if its digits without the zeros in front are within the limit. -/
theorem ofDigits_of_dropWhile_le {negative : Bool} {whole fraction : List Char} {e : ℤ}
    (h : ((whole ++ fraction).dropWhile (· = '0')).length ≤ digitLimit) :
    Numeral.ofDigits negative whole fraction e =
      .decimal negative (natOfDigits (whole ++ fraction)) (e - fraction.length) := by
  obtain ⟨zs, hz⟩ : trimEnd (· = '0') fraction <+: fraction := by
    rw [trimEnd, ← List.reverse_suffix, List.reverse_reverse]
    exact List.dropWhile_suffix _
  have hle : ((whole ++ trimEnd (· = '0') fraction).dropWhile (· = '0')).length ≤
      ((whole ++ fraction).dropWhile (· = '0')).length := by
    conv_rhs => rw [← hz, ← List.append_assoc, List.dropWhile_append]
    split_ifs with hemp
    · simp [List.isEmpty_iff.mp hemp]
    · simp
  exact if_pos (hle.trans h)

/-- The digits of a number begin with a zero only if there is nothing else. -/
theorem decimal_head (n : ℕ) : (decimal n).head? ≠ some '0' ∨ decimal n = ['0'] := by
  rcases eq_or_ne n 0 with rfl | hn
  · exact .inr (Nat.toDigits_zero 10)
  · exact .inl (head?_decimal_ne_zero hn)

theorem isDigits_decimal (n : ℕ) : IsDigits (decimal n) :=
  ⟨decimal_ne_nil n, fun _ => isDigit_of_mem_decimal⟩

theorem writesNumber_decimal (negative : Bool) (n : ℕ) :
    WritesNumber (.integer negative n) (sign negative ++ decimal n) := by
  have integer := WritesNumber.integer negative ⟨isDigits_decimal n, decimal_head n⟩
  rwa [natOfDigits_decimal] at integer

/-- A whole part is written with the digits of its number only. -/
theorem IsWhole.eq_decimal {w : List Char} (h : IsWhole w) : w = decimal (natOfDigits w) := by
  obtain ⟨zeros, digits⟩ := exists_zeros_append_decimal h.nonempty h.digits
  cases zeros with
  | zero => exact digits
  | succ zeros =>
    have zero : w.head? = some '0' := by
      rw [digits]
      rfl
    obtain rfl := h.noZero.resolve_left (absurd zero)
    exact decimal_zero.symm

theorem ofDigits_ne_integer {negative negative' : Bool} {w fr : List Char} {e : ℤ} {n : ℕ} :
    Numeral.ofDigits negative w fr e ≠ .integer negative' n := by
  intro h
  unfold Numeral.ofDigits at h
  dsimp only at h
  split_ifs at h

/-- Without fraction and exponent, a number has one literal. -/
theorem writesNumber_integer_iff {negative : Bool} {n : ℕ} {cs : List Char} :
    WritesNumber (.integer negative n) cs ↔ cs = sign negative ++ decimal n := by
  constructor
  · intro h
    generalize hm : Numeral.integer negative n = m at h
    cases h with
    | integer negative hw =>
      obtain ⟨rfl, rfl⟩ := Numeral.integer.inj hm
      rw [← hw.eq_decimal]
    | fraction => exact absurd hm.symm ofDigits_ne_integer
    | exponent => exact absurd hm.symm ofDigits_ne_integer
  · rintro rfl
    exact writesNumber_decimal negative n

/-- An exponent is written with its sign. -/
theorem writesExponent_decimal (e : ℤ) :
    WritesExponent e ((if e < 0 then '-' else '+') :: decimal e.natAbs) := by
  have digits := isDigits_decimal e.natAbs
  split_ifs with he
  · have minus := WritesExponent.minus digits
    rwa [natOfDigits_decimal, show -(e.natAbs : ℤ) = e by omega] at minus
  · have plus := WritesExponent.plus digits
    rwa [natOfDigits_decimal, show (e.natAbs : ℤ) = e by omega] at plus

section Point

variable (negative : Bool) {dec : Double.Decimal}

/-- The point stands behind the last digit, or behind zeros that make up for digits. -/
theorem writesNumber_padded (he : 0 ≤ dec.exponent)
    (hl : dec.exponent + (decimal dec.digits).length ≤ 16)
    (h0 : dec.digits = 0 → dec.exponent = 0) :
    WritesNumber (.decimal negative (dec.digits * 10 ^ (dec.exponent.toNat + 1)) (-1))
      (sign negative ++
        (decimal dec.digits ++ List.replicate dec.exponent.toNat '0' ++ ['.', '0'])) := by
  set w := decimal dec.digits ++ List.replicate dec.exponent.toNat '0' with hw
  have whole : IsWhole w := by
    refine ⟨⟨by simp [hw, decimal_ne_nil], fun c hc => ?_⟩, ?_⟩
    · rcases List.mem_append.mp hc with hc | hc
      · exact isDigit_of_mem_decimal hc
      · rw [List.eq_of_mem_replicate hc]
        rfl
    · rcases eq_or_ne dec.digits 0 with hz | hz
      · right
        rw [hw, h0 hz, hz]
        rfl
      · left
        rw [hw, List.head?_append_of_ne_nil _ (decimal_ne_nil _)]
        exact head?_decimal_ne_zero hz
  have hlen : w.length = (decimal dec.digits).length + dec.exponent.toNat := by simp [hw]
  have hval : natOfDigits (w ++ ['0']) = dec.digits * 10 ^ (dec.exponent.toNat + 1) := by
    rw [hw, natOfDigits_append, natOfDigits_append, natOfDigits_decimal,
      natOfDigits_replicate_zero, List.length_replicate, pow_succ, ← mul_assoc]
    rfl
  have fraction := WritesNumber.fraction negative whole (⟨by simp, by simp⟩ : IsDigits ['0'])
  rw [Numeral.ofDigits_of_length_le (by simp only [digitLimit, List.length_singleton]; omega),
    hval] at fraction
  exact fraction

/-- The point stands among the digits. -/
theorem writesNumber_inside {whole : ℕ} (hw : 0 < whole)
    (hl : whole < (decimal dec.digits).length) (hlim : (decimal dec.digits).length ≤ digitLimit)
    (he : dec.exponent + (decimal dec.digits).length = whole) :
    WritesNumber (.decimal negative dec.digits dec.exponent)
      (sign negative ++
        ((decimal dec.digits).take whole ++ '.' :: (decimal dec.digits).drop whole)) := by
  set ds := decimal dec.digits with hds
  have hd : ∀ c ∈ ds, c.isDigit := fun _ => isDigit_of_mem_decimal
  have hz : dec.digits ≠ 0 := by
    intro hz
    rw [hds, hz] at hl
    exact absurd hl (by simp [decimal]; omega)
  have front : IsWhole (ds.take whole) := by
    refine ⟨⟨?_, fun c hc => hd c (List.mem_of_mem_take hc)⟩, .inl ?_⟩
    · simp only [ne_eq, List.take_eq_nil_iff, not_or]
      exact ⟨hw.ne', decimal_ne_nil _⟩
    · rw [List.head?_take, if_neg hw.ne']
      exact head?_decimal_ne_zero hz
  have back : IsDigits (ds.drop whole) :=
    ⟨by simpa using hl, fun c hc => hd c (List.mem_of_mem_drop hc)⟩
  have exponent : (0 : ℤ) - (ds.drop whole).length = dec.exponent := by
    rw [List.length_drop]
    omega
  have fraction := WritesNumber.fraction negative front back
  rwa [Numeral.ofDigits_of_length_le (by simp; omega), List.take_append_drop, hds,
    natOfDigits_decimal, ← hds, exponent] at fraction

/-- The point stands before the digits. -/
theorem writesNumber_before (zeros : ℕ) (hlim : (decimal dec.digits).length ≤ digitLimit)
    (he : dec.exponent + (decimal dec.digits).length = -zeros) :
    WritesNumber (.decimal negative dec.digits dec.exponent)
      (sign negative ++ (['0', '.'] ++ List.replicate zeros '0' ++ decimal dec.digits)) := by
  set fr := List.replicate zeros '0' ++ decimal dec.digits with hfr
  have digits : IsDigits fr := by
    refine ⟨by simp [hfr, decimal_ne_nil], fun c hc => ?_⟩
    rcases List.mem_append.mp hc with hc | hc
    · rw [List.eq_of_mem_replicate hc]
      rfl
    · exact isDigit_of_mem_decimal hc
  have hdrop : ((['0'] ++ fr).dropWhile (· = '0')).length ≤ digitLimit := by
    have : (['0'] ++ fr).dropWhile (· = '0') = (decimal dec.digits).dropWhile (· = '0') := by
      rw [hfr, ← List.append_assoc, show ['0'] ++ List.replicate zeros '0' =
        List.replicate (zeros + 1) '0' from rfl, List.dropWhile_append_of_pos]
      intro c hc
      simp [List.eq_of_mem_replicate hc]
    rw [this]
    exact (List.dropWhile_sublist _).length_le.trans hlim
  have hval : natOfDigits (['0'] ++ fr) = dec.digits := by
    rw [hfr, natOfDigits_append, natOfDigits_append, natOfDigits_replicate_zero,
      natOfDigits_decimal]
    simp [natOfDigits, Nat.ofDigitChars]
  have exponent : (0 : ℤ) - fr.length = dec.exponent := by
    simp only [hfr, List.length_append, List.length_replicate]
    omega
  have zero : IsWhole ['0'] := ⟨⟨by simp, by simp⟩, .inr rfl⟩
  have fraction := WritesNumber.fraction negative zero digits
  rw [ofDigits_of_dropWhile_le hdrop, hval, exponent] at fraction
  simpa [hfr] using fraction

/-- One digit stands before the point, if there is a point, and an exponent follows. -/
theorem writesNumber_scientific {d : Char} {fr : List Char} (hds : decimal dec.digits = d :: fr)
    (hlim : (decimal dec.digits).length ≤ digitLimit) {e : ℤ} (he : dec.exponent + fr.length = e) :
    WritesNumber (.decimal negative dec.digits dec.exponent)
      (sign negative ++ ([d] ++ ((if fr = [] then [] else '.' :: fr) ++
        'e' :: (if e < 0 then '-' else '+') :: decimal e.natAbs))) := by
  have digits := isDigits_decimal dec.digits
  rw [hds] at digits hlim
  have one : IsWhole [d] := by
    refine ⟨⟨by simp, by simpa using digits.digits d (by simp)⟩, ?_⟩
    rcases eq_or_ne d '0' with rfl | h
    · exact .inr rfl
    · exact .inl (by simpa using h)
  have fraction : WritesFraction fr (if fr = [] then [] else '.' :: fr) := by
    split_ifs with h
    · rw [h]
      exact .none
    · exact .point ⟨h, fun c hc => digits.digits c (by simp [hc])⟩
  have number := WritesNumber.exponent negative one fraction (.inl rfl) (writesExponent_decimal e)
  have exponent : e - fr.length = dec.exponent := by omega
  rwa [Numeral.ofDigits_of_length_le (by simpa [add_comm] using hlim), List.singleton_append,
    ← hds, natOfDigits_decimal, exponent] at number

/-- The text of a decimal is a literal of the decimal that it shows. -/
theorem writesNumber_pointText (hlim : (decimal dec.digits).length ≤ digitLimit)
    (h0 : dec.digits = 0 → dec.exponent = 0) :
    WritesNumber (.decimal negative (padded dec).digits (padded dec).exponent)
      (sign negative ++ pointText (decimal dec.digits)
        (dec.exponent + (decimal dec.digits).length - 1)) := by
  have hpos : 0 < (decimal dec.digits).length := List.length_pos_of_ne_nil (decimal_ne_nil _)
  set e := dec.exponent + (decimal dec.digits).length - 1 with he
  by_cases plain : 0 ≤ e ∧ e < 16
  · by_cases short : (decimal dec.digits).length ≤ e.toNat + 1
    · have shown : padded dec = ⟨dec.digits * 10 ^ (dec.exponent.toNat + 1), -1⟩ :=
        if_pos (by omega)
      have zeros : e.toNat + 1 - (decimal dec.digits).length = dec.exponent.toNat := by omega
      unfold pointText
      simp only [if_pos plain, if_pos short, zeros, shown]
      exact writesNumber_padded negative (by omega) (by omega) h0
    · have shown : padded dec = dec := if_neg (by omega)
      unfold pointText
      simp only [if_pos plain, if_neg short, shown]
      exact writesNumber_inside negative (by omega) (by omega) hlim (by omega)
  · have shown : padded dec = dec := if_neg (by omega)
    unfold pointText
    by_cases small : -5 ≤ e ∧ e < 0
    · simp only [if_neg plain, if_pos small, shown]
      exact writesNumber_before negative _ hlim (by omega)
    · simp only [if_neg plain, if_neg small, shown]
      obtain ⟨d, fr, hds⟩ := List.exists_cons_of_ne_nil (decimal_ne_nil dec.digits)
      have hlast : dec.exponent + fr.length = e := by
        rw [he, hds, List.length_cons]
        push_cast
        ring
      have scientific := writesNumber_scientific negative hds hlim hlast
      rw [hds]
      cases fr <;> simpa using scientific

end Point

namespace Number

/-- The numbers that have a text: integers that 64 bits hold, and finite doubles. -/
def IsWritable : Number → Prop
  | .int i => -2 ^ 63 ≤ i ∧ i < 2 ^ 64
  | .double d => d.IsFinite

/-- The literal as which a number is written. -/
def numeral : Number → Numeral
  | .int i => .integer (i < 0) i.natAbs
  | .double d => .decimal d.isNegative (padded d.shortest).digits (padded d.shortest).exponent

/-- Padding with zeros does not change what a decimal is rounded to. -/
theorem roundDecimal_padded (dec : Double.Decimal) :
    Double.roundDecimal (padded dec).digits (padded dec).exponent =
      Double.roundDecimal dec.digits dec.exponent := by
  unfold padded
  split_ifs with h
  · obtain ⟨k, hk⟩ := Int.eq_ofNat_of_zero_le h.1
    have hzeros := Double.roundDecimal_zeros dec.digits (k := k) (by omega)
    simpa only [hk, Int.toNat_natCast] using hzeros
  · rfl

/-- Nothing is lost between a number and its literal. -/
theorem number?_numeral {n : Number} (h : n.IsWritable) : n.numeral.number? = some n := by
  cases n with
  | int i =>
    obtain ⟨hlo, hhi⟩ := h
    by_cases hi : i < 0
    · simp only [numeral, hi, decide_true, Numeral.number?]
      rw [if_pos (by omega), show -(i.natAbs : ℤ) = i by omega]
    · simp only [numeral, hi, decide_false, Numeral.number?]
      rw [if_pos (by omega), show (i.natAbs : ℤ) = i by omega]
  | double d =>
    have hf : d.IsFinite := h
    have hround := (roundDecimal_padded d.shortest).trans (Double.roundDecimal_shortest hf)
    simp only [numeral, Numeral.number?, decimalDouble?, hround, if_neg (ne_of_lt hf),
      Double.ofMagnitude_magnitude, Option.map_some]

/-- An integer is the number of no literal but its own. -/
theorem eq_numeral {n : Numeral} {i : ℤ} (h : n.number? = some (.int i)) :
    n = (int i).numeral := by
  have noDouble {x : Option Double} : x.map double ≠ some (int i) := by
    cases x <;> simp
  unfold Numeral.number? at h
  split at h
  next k =>
    split_ifs at h
    · cases h
      simp [numeral]
    · exact absurd h noDouble
  next k =>
    split_ifs at h with hk
    · cases h
      simp [numeral, hk.1]
    · exact absurd h noDouble
  next => exact absurd h noDouble

theorem writesNumber_int_iff {i : ℤ} {cs : List Char} :
    WritesNumber (int i).numeral cs ↔ cs = intText i := by
  have text : intText i = sign (i < 0) ++ decimal i.natAbs := by
    by_cases hi : i < 0 <;> simp [intText, sign, hi]
  rw [numeral, writesNumber_integer_iff, text]

/-- The text of a number is a literal of its numeral. -/
theorem IsWritable.writes {n : Number} (h : n.IsWritable) :
    WritesNumber n.numeral (numberText n) := by
  cases n with
  | int i => exact writesNumber_int_iff.mpr rfl
  | double d =>
    have hf : d.IsFinite := h
    have hlen := (length_decimal_le_iff (by norm_num)).mpr (Double.shortest_digits_lt hf)
    refine writesNumber_pointText d.isNegative (hlen.trans (by norm_num [digitLimit])) fun h0 => ?_
    by_contra he
    exact Double.shortest_digits_ne_zero hf (fun h => he (by rw [h])) h0

end Number

end Json

end SchemaReport
