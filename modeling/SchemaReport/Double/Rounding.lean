import SchemaReport.Double.Basic

/-! Rounding of exact ratios to the nearest double, a half going to the even neighbour. All of it
is arithmetic of natural numbers: from decimals, from integers, and back to integers. -/

namespace SchemaReport.Double

-- Powers are those of the core library, also where an algebraic hierarchy brings its own.
attribute [local instance (high)] instPowNat

/-- The natural number nearest to `n / d`, a half going to the even neighbour. -/
def roundDiv (n d : Nat) : Nat :=
  let q := n / d
  let r := n % d
  if d < 2 * r ∨ 2 * r = d ∧ q % 2 = 1 then q + 1 else q

/-- `n / d / b ^ k` as a ratio. -/
def scaleDown (b : Nat) (k : Int) (n d : Nat) : Nat × Nat :=
  if 0 ≤ k then (n, d * b ^ k.toNat) else (n * b ^ (-k).toNat, d)

/-- The exponent of the largest power of two that is at most `n / d`. -/
def floorLog (n d : Nat) : Int :=
  let k : Int := (n.log2 : Int) - d.log2
  let (n', d') := scaleDown 2 k n d
  if d' ≤ n' then k else k - 1

/-- The magnitude nearest to `n / d`. The unit in the last place is `2 ^ e`; counting units from
the lowest exponent also carries a mantissa that rounds up to the next power of two. -/
def roundRatio (n d : Nat) : Nat :=
  if n = 0 then 0 else
    let e := max (floorLog n d - 52) (-1074)
    let (n', d') := scaleDown 2 e n d
    min ((e + 1074).toNat * 2 ^ (52 : Nat) + roundDiv n' d') infinityMagnitude

/-- The magnitude nearest to `c * 10 ^ k`. Far beyond either end of the range the answer is known
without the power. -/
def roundDecimal (c : Nat) (k : Int) : Nat :=
  if c = 0 then 0
  else if 400 < k then infinityMagnitude
  else if k + c.log2 / 3 < -400 then 0
  else
    let (n, d) := scaleDown 10 (-k) c 1
    roundRatio n d

/-- The double nearest to the integer `i`. -/
def ofInt (i : Int) : Double := ofMagnitude (i < 0) (roundRatio i.natAbs 1)

/-- The integer part of a finite double. -/
def truncate (d : Double) : Int :=
  let (n, m) := scaleDown 2 (-d.scale) d.mantissa 1
  if d.isNegative then -((n / m : Nat) : Int) else ((n / m : Nat) : Int)

/-- The double of `i`, if turning it back into an integer between `lo` and `hi` gives `i` again;
a double beyond these ends turns into the end. -/
def lossless? (lo hi i : Int) : Option Double :=
  let d := ofInt i
  if min hi (max lo d.truncate) = i then some d else none

end SchemaReport.Double
