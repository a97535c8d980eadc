import Mathlib.Data.List.Nodup
import SchemaReport.Wire.Decode

/-! Three ways to speak of readers. `Reads` says what a reader makes of the bytes at the head of an
input, whatever follows them; `Ensures` what holds of all that it gives; and `Refines` that one
reader accepts all that another does, with the same result. All three pass through the loops. -/

namespace SchemaReport.Wire

variable {α β : Type}

theorem readFrame_eq (step : α → Reader α) (a : α) : readFrame step a = (do
    let n ← readVarint
    let i ← get
    if i.size < n then Reader.fail .underflow
    else do
      let b ← readUntil step (i.size - n) n a
      let j ← get
      if j.size = i.size - n then return b else Reader.fail .overrun) := rfl

theorem Reader.bind_eq_ok {r : Reader α} {f : α → Reader β} {i : Input} {x : β × Input} :
    (r >>= f) i = .ok x ↔ ∃ a j, r i = .ok (a, j) ∧ f a j = .ok x := by
  constructor
  · intro h
    change (r i).bind _ = _ at h
    cases ha : r i with
    | error e =>
      rw [ha] at h
      cases h
    | ok y =>
      rw [ha] at h
      exact ⟨y.1, y.2, rfl, h⟩
  · rintro ⟨a, j, ha, hx⟩
    show (r i).bind _ = _
    rw [ha]
    exact hx

theorem Reader.inside_eq_ok {r : Reader α} {t : MessageType} {f : Field} {i : Input}
    {x : α × Input} : r.inside t f i = .ok x ↔ r i = .ok x := by
  show (r i).mapError _ = _ ↔ _
  cases r i with
  | error e => constructor <;> rintro ⟨⟩
  | ok y => rfl

/-- The reader takes `bs` from the head of an input and gives `a`. -/
def Reads (r : Reader α) (bs : List UInt8) (a : α) : Prop :=
  ∀ rest, r (.ofList (bs ++ rest)) = .ok (a, .ofList rest)

namespace Reads

theorem pure (a : α) : Reads (Pure.pure a) [] a := fun _ => rfl

theorem bind {r : Reader α} {f : α → Reader β} {bs cs : List UInt8} {a : α} {b : β}
    (hr : Reads r bs a) (hf : Reads (f a) cs b) : Reads (r >>= f) (bs ++ cs) b := by
  intro rest
  have h := hr (cs ++ rest)
  rw [← List.append_assoc] at h
  show (r _).bind _ = _
  rw [h]
  exact hf rest

theorem map {r : Reader α} {bs : List UInt8} {a : α} (hr : Reads r bs a) (f : α → β) :
    Reads (do return f (← r)) bs (f a) := by
  have h := hr.bind (f := fun a => Pure.pure (f a)) (pure (f a))
  rwa [List.append_nil] at h

theorem whole {r : Reader α} {bs : List UInt8} {a : α} (hr : Reads r bs a) :
    r (.ofList bs) = .ok (a, .ofList []) := by
  have h := hr []
  rwa [List.append_nil] at h

theorem inside {r : Reader α} {bs : List UInt8} {a : α} (hr : Reads r bs a) (t : MessageType)
    (f : Field) : Reads (r.inside t f) bs a := fun rest => Reader.inside_eq_ok.mpr (hr rest)

theorem of_inside {r : Reader α} {bs : List UInt8} {a : α} {t : MessageType} {f : Field}
    (hr : Reads (r.inside t f) bs a) : Reads r bs a := fun rest => Reader.inside_eq_ok.mp (hr rest)

/-- Behind the bytes of the first reader the second one has the rest. -/
theorem of_bind {r : Reader α} {f : α → Reader β} {bs cs : List UInt8} {a : α} {b : β}
    (h : Reads (r >>= f) (bs ++ cs) b) (hr : Reads r bs a) : Reads (f a) cs b := by
  intro rest
  have both := h rest
  rw [List.append_assoc] at both
  change (r _).bind _ = _ at both
  rwa [hr (cs ++ rest)] at both

/-- What a reader takes from an input, and what it makes of it, is settled. -/
theorem unique {r : Reader α} {bs bs' rest rest' : List UInt8} {a a' : α} (h : Reads r bs a)
    (h' : Reads r bs' a') (same : bs ++ rest = bs' ++ rest') :
    bs = bs' ∧ a = a' ∧ rest = rest' := by
  have results := h rest
  rw [same, h' rest'] at results
  obtain ⟨rfl, inputs⟩ := Prod.mk.inj (Except.ok.inj results)
  obtain rfl : rest' = rest := congrArg Input.bytes inputs
  exact ⟨List.append_cancel_right same, rfl, rfl⟩

end Reads

/-- Whatever the reader gives satisfies `P`. -/
def Ensures (P : α → Prop) (r : Reader α) : Prop := ∀ i a j, r i = .ok (a, j) → P a

namespace Ensures

variable {P : α → Prop}

theorem pure {a : α} (h : P a) : Ensures P (Pure.pure a) := by
  intro i b j hb
  obtain ⟨rfl, -⟩ := Prod.mk.inj (Except.ok.inj hb)
  exact h

theorem fail (f : Fault) : Ensures P (Reader.fail f) := by
  intro i a j h
  cases h

theorem mono {Q : α → Prop} {r : Reader α} (hr : Ensures P r) (h : ∀ a, P a → Q a) :
    Ensures Q r := fun i a j ha => h a (hr i a j ha)

theorem bind {r : Reader β} {f : β → Reader α} {Q : β → Prop} (hr : Ensures Q r)
    (hf : ∀ b, Q b → Ensures P (f b)) : Ensures P (r >>= f) := by
  intro i a k h
  obtain ⟨b, j, hb, ha⟩ := Reader.bind_eq_ok.mp h
  exact hf b (hr i b j hb) j a k ha

theorem of_bind {r : Reader β} {f : β → Reader α} (hf : ∀ b, Ensures P (f b)) :
    Ensures P (r >>= f) :=
  bind (fun _ _ _ _ => trivial : Ensures (fun _ => True) r) fun b _ => hf b

theorem inside {r : Reader α} (hr : Ensures P r) (t : MessageType) (f : Field) :
    Ensures P (r.inside t f) := fun i a j h => hr i a j (Reader.inside_eq_ok.mp h)

/-- What every step keeps, the loop keeps. -/
theorem readUntil {step : α → Reader α} (hs : ∀ a, P a → Ensures P (step a)) (left fuel : ℕ)
    {a : α} (ha : P a) : Ensures P (readUntil step left fuel a) := by
  induction fuel generalizing a with
  | zero => exact pure ha
  | succ fuel ih =>
    apply of_bind
    intro i
    split_ifs
    · exact pure ha
    · exact (hs a ha).bind fun b hb => ih hb

theorem readFrame {step : α → Reader α} (hs : ∀ a, P a → Ensures P (step a)) {a : α}
    (ha : P a) : Ensures P (readFrame step a) := by
  rw [readFrame_eq]
  refine of_bind fun n => of_bind fun i => ?_
  split_ifs
  · exact fail _
  · refine (readUntil hs _ _ ha).bind fun b hb => of_bind fun j => ?_
    split_ifs
    · exact pure hb
    · exact fail _

end Ensures

/-- The second reader gives what the first one gives, wherever that gives anything. -/
def Refines (r s : Reader α) : Prop := ∀ i x, r i = .ok x → s i = .ok x

namespace Refines

theorem refl (r : Reader α) : Refines r r := fun _ _ h => h

theorem fail (f : Fault) (r : Reader α) : Refines (Reader.fail f) r := by
  intro i x h
  cases h

theorem bind {r s : Reader α} {f g : α → Reader β} (hr : Refines r s)
    (hf : ∀ a, Refines (f a) (g a)) : Refines (r >>= f) (s >>= g) := by
  intro i x h
  obtain ⟨a, j, ha, hx⟩ := Reader.bind_eq_ok.mp h
  exact Reader.bind_eq_ok.mpr ⟨a, j, hr i _ ha, hf a j x hx⟩

theorem bind_right (r : Reader α) {f g : α → Reader β} (hf : ∀ a, Refines (f a) (g a)) :
    Refines (r >>= f) (r >>= g) := (refl r).bind hf

theorem inside {r s : Reader α} (h : Refines r s) (t : MessageType) (f : Field) :
    Refines (r.inside t f) (s.inside t f) :=
  fun i x hx => Reader.inside_eq_ok.mpr (h i x (Reader.inside_eq_ok.mp hx))

theorem readUntil {step step' : α → Reader α} (hs : ∀ a, Refines (step a) (step' a))
    (left fuel : ℕ) (a : α) :
    Refines (readUntil step left fuel a) (readUntil step' left fuel a) := by
  induction fuel generalizing a with
  | zero => exact refl _
  | succ fuel ih =>
    refine bind_right _ fun i => ?_
    split_ifs
    · exact refl _
    · exact (hs a).bind ih

theorem readFrame {step step' : α → Reader α} (hs : ∀ a, Refines (step a) (step' a)) (a : α) :
    Refines (readFrame step a) (readFrame step' a) := by
  rw [readFrame_eq, readFrame_eq]
  refine bind_right _ fun n => bind_right _ fun i => ?_
  split_ifs
  · exact refl _
  · exact (readUntil hs _ _ a).bind fun b => refl _

end Refines

/-! ### Loops -/

/-- The bytes are read in steps, each of which takes some, from `a` to `b`. -/
inductive Steps (step : α → Reader α) : List UInt8 → α → α → Prop
  | nil (a : α) : Steps step [] a a
  | cons {bs cs : List UInt8} {a b c : α} (hne : bs ≠ []) (hr : Reads (step a) bs b)
      (hs : Steps step cs b c) : Steps step (bs ++ cs) a c

namespace Steps

variable {step : α → Reader α} {bs cs : List UInt8} {a b c : α}

theorem single (hne : bs ≠ []) (hr : Reads (step a) bs b) : Steps step bs a b := by
  have h := cons hne hr (nil b)
  rwa [List.append_nil] at h

theorem append (h : Steps step bs a b) (h' : Steps step cs b c) : Steps step (bs ++ cs) a c := by
  induction h with
  | nil => exact h'
  | cons hne hr _ ih =>
    rw [List.append_assoc]
    exact cons hne hr (ih h')

theorem readUntil (h : Steps step bs a b) (rest : List UInt8) {fuel : ℕ} (hf : bs.length ≤ fuel) :
    readUntil step rest.length fuel a (.ofList (bs ++ rest)) = .ok (b, .ofList rest) := by
  induction h generalizing fuel with
  | nil a =>
    cases fuel with
    | zero => rfl
    | succ fuel =>
      show (if rest.length ≤ rest.length then Pure.pure a else _ : Reader α) _ = _
      rw [if_pos (Nat.le_refl _)]
      rfl
  | @cons bs cs a b c hne hr _ ih =>
    have hpos := List.length_pos_of_ne_nil hne
    rw [List.length_append] at hf
    obtain ⟨fuel, rfl⟩ : ∃ k, fuel = k + 1 := ⟨fuel - 1, by omega⟩
    have more : ¬ (bs ++ cs ++ rest).length ≤ rest.length := by
      simp only [List.length_append]
      omega
    show (if (bs ++ cs ++ rest).length ≤ rest.length then Pure.pure a else _ : Reader α) _ = _
    rw [if_neg more, List.append_assoc]
    show (step a _).bind _ = _
    rw [hr (cs ++ rest)]
    exact ih (by omega)

/-- A length, however it is spelt, and steps through so many bytes. -/
theorem readFrame {vs : List UInt8} (h : Steps step bs a b) (hv : Reads readVarint vs bs.length) :
    Reads (readFrame step a) (vs ++ bs) b := by
  rw [readFrame_eq]
  refine hv.bind fun rest => ?_
  have left : (bs ++ rest).length - bs.length = rest.length := by
    rw [List.length_append]
    omega
  show (if (bs ++ rest).length < bs.length then Reader.fail .underflow else _ : Reader α) _ = _
  rw [if_neg (by rw [List.length_append]; omega)]
  show (Wire.readUntil step ((bs ++ rest).length - bs.length) bs.length a _).bind _ = _
  rw [left, h.readUntil rest (Nat.le_refl _)]
  show (if rest.length = (bs ++ rest).length - bs.length then pure b else _ : Reader α) _ = _
  rw [if_pos left.symm]
  rfl

end Steps

end SchemaReport.Wire
