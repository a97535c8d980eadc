import SchemaReport.Double.Rounding

/-! The shortest decimal that reads back as a given double. On the grids of the powers of ten,
from coarse to fine, the two neighbours of the value are tried; the first grid on which one of
them reads back has the fewest digits, and of two that do the nearer is taken. -/

namespace SchemaReport.Double

-- Powers are those of the core library, also where an algebraic hierarchy brings its own.
attribute [local instance (high)] instPowNat

/-- `digits * 10 ^ exponent`. -/
structure Decimal where
  digits : Nat
  exponent : Int
  deriving DecidableEq

/-- The neighbour of `n / d` on the grid of the multiples of `10 ^ k` that rounds to the magnitude
`m`: the nearer if both do, an even one if they are equally near. -/
def onGrid? (m n d : Nat) (k : Int) : Option Nat :=
  let (n', d') := scaleDown 10 k n d
  let below := n' / d'
  let near := roundDiv n' d'
  let far := if near = below then below + 1 else below
  [near, far].find? fun c => roundDecimal c k = m

def search (m n d : Nat) : Nat → Int → Option Decimal
  | 0, _ => none
  | tries + 1, k =>
    match onGrid? m n d k with
    | some c => some ⟨c, k⟩
    | none => search m n d tries (k - 1)

/-- The value itself, whose last place is a power of two. -/
def exactDecimal (d : Double) : Decimal :=
  if 0 ≤ d.scale then ⟨d.mantissa * 2 ^ d.scale.toNat, 0⟩
  else ⟨d.mantissa * 5 ^ (-d.scale).toNat, d.scale⟩

/-- The shortest decimal of the magnitude of a finite double. The first grid is coarser than the
value, and seventeen digits are always enough. -/
def shortest (d : Double) : Decimal :=
  if d.magnitude = 0 then ⟨0, 0⟩ else
    let (n, m) := scaleDown 2 (-d.scale) d.mantissa 1
    let top := ((floorLog n m + 1) * 30103).fdiv 100000 + 1
    (search d.magnitude n m 20 top).getD d.exactDecimal

end SchemaReport.Double
