import SchemaReport.Wire.Input

/-! Variable-length integers: seven bits a byte, the low end first, and a set high bit where more
follow. Ten bytes hold 64 bits, and the tenth only the last of them. Reading also takes forms
that are longer than they need to be; writing gives the shortest. -/

namespace SchemaReport.Wire

/-- The form of `n` in at most `more + 1` bytes. -/
def varintWithin : (more : Nat) → Nat → List UInt8
  | 0, n => [UInt8.ofNat n]
  | more + 1, n =>
    if n < 128 then [UInt8.ofNat n]
    else UInt8.ofNat (128 + n % 128) :: varintWithin more (n / 128)

def varint (n : Nat) : List UInt8 := varintWithin 9 n

def varintSizeWithin : (more : Nat) → Nat → Nat
  | 0, _ => 1
  | more + 1, n => if n < 128 then 1 else varintSizeWithin more (n / 128) + 1

def varintSize (n : Nat) : Nat := varintSizeWithin 9 n

theorem length_varintWithin (more n : Nat) :
    (varintWithin more n).length = varintSizeWithin more n := by
  induction more generalizing n with
  | zero => rfl
  | succ more ih =>
    by_cases h : n < 128 <;> simp [varintWithin, varintSizeWithin, h, ih]

namespace Input

/-- Reads a form of at most `more + 1` bytes, the last of which may go up to `top`. -/
def varintWithin? (top : Nat) : (more : Nat) → Input → Option (Nat × Input)
  | more, i => do
    let (b, i) ← i.next?
    if b < 128 then
      if more = 0 ∧ top < b.toNat then none else some (b.toNat, i)
    else match more with
      | 0 => none
      | more + 1 => do
        let (n, i) ← varintWithin? top more i
        some (b.toNat - 128 + 128 * n, i)

def varint? (i : Input) : Option (Nat × Input) := i.varintWithin? 1 9

end Input

end SchemaReport.Wire
