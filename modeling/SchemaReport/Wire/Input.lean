/-! The bytes still to be read, with their number at hand: the end of a block is where as many
bytes are left as the block leaves, and this is compared for every field. -/

namespace SchemaReport.Wire

structure Input where
  bytes : List UInt8
  size : Nat
  size_eq : size = bytes.length

namespace Input

def ofList (bs : List UInt8) : Input := ⟨bs, bs.length, rfl⟩

@[ext] theorem ext {i j : Input} (h : i.bytes = j.bytes) : i = j := by
  obtain ⟨bs, n, hn⟩ := i
  obtain ⟨cs, m, hm⟩ := j
  subst h hn hm
  rfl

def next? : Input → Option (UInt8 × Input)
  | ⟨[], _, _⟩ => none
  | ⟨b :: bs, n, h⟩ => some (b, ⟨bs, n - 1, by simp [h]⟩)

/-- The next `n` bytes, if that many are left. -/
def take? (n : Nat) (i : Input) : Option (List UInt8 × Input) :=
  if n ≤ i.size then some (i.bytes.take n, ⟨i.bytes.drop n, i.size - n, by simp [i.size_eq]⟩)
  else none

end Input

end SchemaReport.Wire
