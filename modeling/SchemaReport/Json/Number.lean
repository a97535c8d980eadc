import SchemaReport.Double.Shortest
import SchemaReport.Text.Basic

/-! Numbers in JSON. A literal without fraction and exponent is an integer if 64 bits hold it; every
other literal is a double. A double is written with its shortest digits, in plain notation between
`0.00001` and `10 ^ 16` and with an exponent elsewhere, and never looks like an integer. -/

namespace SchemaReport

inductive Json.Number
  | int (i : Int)
  | double (d : Double)
  deriving DecidableEq

namespace Json

-- Powers are those of the core library, also where an algebraic hierarchy brings its own.
attribute [local instance (high)] instPowNat

def intText (i : Int) : List Char :=
  if i < 0 then '-' :: Text.decimal i.natAbs else Text.decimal i.natAbs

/-- The digits `ds` with a point, the first of them worth `10 ^ e`. -/
def pointText (ds : List Char) (e : Int) : List Char :=
  let k := ds.length
  if 0 ≤ e ∧ e < 16 then
    let whole := e.toNat + 1
    if k ≤ whole then ds ++ List.replicate (whole - k) '0' ++ ['.', '0']
    else ds.take whole ++ '.' :: ds.drop whole
  else if -5 ≤ e ∧ e < 0 then
    ['0', '.'] ++ List.replicate (-e - 1).toNat '0' ++ ds
  else
    let fraction := match ds with
      | d :: [] => [d]
      | d :: r => d :: '.' :: r
      | [] => []
    fraction ++ 'e' :: (if e < 0 then '-' else '+') :: Text.decimal e.natAbs

/-- The text of a finite double. -/
def doubleText (d : Double) : List Char :=
  let dec := d.shortest
  let ds := Text.decimal dec.digits
  (if d.isNegative then ['-'] else []) ++ pointText ds (dec.exponent + ds.length - 1)

/-- A literal: `digits` with the last of them worth `10 ^ exponent`. -/
inductive Numeral
  | integer (negative : Bool) (digits : Nat)
  | decimal (negative : Bool) (digits : Nat) (exponent : Int)
  deriving DecidableEq

def decimalDouble? (negative : Bool) (digits : Nat) (exponent : Int) : Option Double :=
  let m := Double.roundDecimal digits exponent
  if m = Double.infinityMagnitude then none else some (.ofMagnitude negative m)

/-- The number of a literal, unless it lies beyond all doubles. A negative zero is a double. -/
def Numeral.number? : Numeral → Option Number
  | .integer false n =>
    if n < 2 ^ (64 : Nat) then some (.int n) else (decimalDouble? false n 0).map .double
  | .integer true n =>
    if 0 < n ∧ n ≤ 2 ^ (63 : Nat) then some (.int (-n)) else (decimalDouble? true n 0).map .double
  | .decimal negative c k => (decimalDouble? negative c k).map .double

/-- So many digits, from the first that is not zero, are read as they are. A half between two
doubles has no more. -/
def digitLimit : Nat := 768

/-- The literal `whole.fraction` with exponent `e`. Of one that is too long the digits beyond the
limit are read as a single one, which is enough to tell that they lift the value above a half. Zeros
at the end of the fraction do not count as digits, but those at the end of the whole part do. -/
def Numeral.ofDigits (negative : Bool) (whole fraction : List Char) (e : Int) : Numeral :=
  let fraction' := Text.trimEnd (· = '0') fraction
  let ds := (whole ++ fraction').dropWhile (· = '0')
  if ds.length ≤ digitLimit then
    .decimal negative (Text.natOfDigits (whole ++ fraction)) (e - fraction.length)
  else
    .decimal negative (Text.natOfDigits (ds.take digitLimit ++ ['1']))
      (e - fraction'.length + (ds.length - digitLimit - 1 : Nat))

/-- A literal within the limit is read as it stands. -/
theorem Numeral.ofDigits_of_length_le {negative : Bool} {whole fraction : List Char} {e : Int}
    (h : whole.length + fraction.length ≤ digitLimit) :
    ofDigits negative whole fraction e =
      .decimal negative (Text.natOfDigits (whole ++ fraction)) (e - fraction.length) := by
  have trimmed : (Text.trimEnd (· = '0') fraction).length ≤ fraction.length := by
    simpa [Text.trimEnd] using (List.dropWhile_sublist (l := fraction.reverse) _).length_le
  have dropped :=
    (List.dropWhile_sublist (l := whole ++ Text.trimEnd (· = '0') fraction) (· = '0')).length_le
  rw [List.length_append] at dropped
  exact if_pos (by omega)

/-- How far a literal was read: to its end, to the end of the text, or to a wrong character. -/
inductive Scan (α : Type)
  | done (a : α) (rest : List Char)
  | cut
  | wrong

def Scan.bind {α β : Type} : Scan α → (α → List Char → Scan β) → Scan β
  | .done a r, f => f a r
  | .cut, _ => .cut
  | .wrong, _ => .wrong

/-- One digit or more. -/
def scanDigits (cs : List Char) : Scan (List Char) :=
  match cs with
  | [] => .cut
  | c :: r =>
    if c.isDigit then .done (c :: r.takeWhile Char.isDigit) (r.dropWhile Char.isDigit)
    else .wrong

/-- A whole part has no leading zero. -/
def scanWhole (cs : List Char) : Scan (List Char) :=
  match cs with
  | '0' :: c :: r => if c.isDigit then .wrong else .done ['0'] (c :: r)
  | cs => scanDigits cs

def scanExponent (cs : List Char) : Scan Int :=
  match cs with
  | '-' :: r => (scanDigits r).bind fun ds r => .done (-(Text.natOfDigits ds : Int)) r
  | '+' :: r => (scanDigits r).bind fun ds r => .done (Text.natOfDigits ds) r
  | r => (scanDigits r).bind fun ds r => .done (Text.natOfDigits ds) r

/-- What follows the whole part. -/
def scanTail (negative : Bool) (whole : List Char) (cs : List Char) : Scan Numeral :=
  let exponent (fraction : List Char) : List Char → Scan Numeral
    | 'e' :: r | 'E' :: r =>
      (scanExponent r).bind fun e r => .done (.ofDigits negative whole fraction e) r
    | r =>
      if fraction.isEmpty then .done (.integer negative (Text.natOfDigits whole)) r
      else .done (.ofDigits negative whole fraction 0) r
  match cs with
  | '.' :: r => (scanDigits r).bind exponent
  | r => exponent [] r

/-- A literal without its sign. -/
def scanUnsigned (negative : Bool) (cs : List Char) : Scan Numeral :=
  (scanWhole cs).bind (scanTail negative)

end Json

end SchemaReport
