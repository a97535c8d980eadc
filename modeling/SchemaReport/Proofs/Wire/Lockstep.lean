import SchemaReport.Proofs.Wire.Reader

/-! Two readers that go side by side: on the same input they take the same bytes, fail with the same
error or give results that are related. What a loop has read so far may differ between them, as long
as every step keeps the relation. -/

namespace SchemaReport.Wire

variable {α β γ δ : Type}

/-- On every input both readers fail alike, or both take the same bytes and their results are
related by `R`. -/
def Lockstep (R : α → β → Prop) (r : Reader α) (s : Reader β) : Prop :=
  ∀ i, (∃ e, r i = .error e ∧ s i = .error e) ∨
    ∃ a b j, r i = .ok (a, j) ∧ s i = .ok (b, j) ∧ R a b

namespace Lockstep

variable {R : α → β → Prop} {Q : γ → δ → Prop}

theorem pure {a : α} {b : β} (h : R a b) : Lockstep R (Pure.pure a) (Pure.pure b) :=
  fun i => .inr ⟨a, b, i, rfl, rfl, h⟩

theorem fail (f : Fault) : Lockstep R (Reader.fail f) (Reader.fail f) :=
  fun _ => .inl ⟨_, rfl, rfl⟩

theorem refl (r : Reader α) : Lockstep Eq r r := by
  intro i
  cases h : r i with
  | error e => exact .inl ⟨e, rfl, rfl⟩
  | ok x => exact .inr ⟨x.1, x.1, x.2, rfl, rfl, rfl⟩

theorem symm {r : Reader α} {s : Reader β} (h : Lockstep R r s) :
    Lockstep (fun b a => R a b) s r := by
  intro i
  rcases h i with ⟨e, he, he'⟩ | ⟨a, b, j, ha, hb, hab⟩
  · exact .inl ⟨e, he', he⟩
  · exact .inr ⟨b, a, j, hb, ha, hab⟩

theorem bind {r : Reader α} {s : Reader β} {f : α → Reader γ} {g : β → Reader δ}
    (hr : Lockstep R r s) (hf : ∀ a b, R a b → Lockstep Q (f a) (g b)) :
    Lockstep Q (r >>= f) (s >>= g) := by
  intro i
  show (∃ e, (r i).bind _ = _ ∧ (s i).bind _ = _) ∨ ∃ _ _ _, (r i).bind _ = _ ∧ (s i).bind _ = _ ∧ _
  rcases hr i with ⟨e, he, he'⟩ | ⟨a, b, j, ha, hb, hab⟩
  · rw [he, he']
    exact .inl ⟨e, rfl, rfl⟩
  · rw [ha, hb]
    exact hf a b hab j

/-- A part that both readers begin with. -/
theorem bind_right (r : Reader α) {f : α → Reader γ} {g : α → Reader δ}
    (hf : ∀ a, Lockstep Q (f a) (g a)) : Lockstep Q (r >>= f) (r >>= g) :=
  (refl r).bind fun a _ h => h ▸ hf a

theorem bind_pure {r : Reader α} {s : Reader β} {f : α → γ} {g : β → δ} (hr : Lockstep R r s)
    (h : ∀ a b, R a b → Q (f a) (g b)) :
    Lockstep Q (do return f (← r)) (do return g (← s)) :=
  hr.bind fun a b hab => pure (h a b hab)

theorem inside {r : Reader α} {s : Reader β} (hr : Lockstep R r s) (t : MessageType) (f : Field) :
    Lockstep R (r.inside t f) (s.inside t f) := by
  intro i
  show (∃ e, (r i).mapError _ = _ ∧ (s i).mapError _ = _) ∨
    ∃ _ _ _, (r i).mapError _ = _ ∧ (s i).mapError _ = _ ∧ _
  rcases hr i with ⟨e, he, he'⟩ | ⟨a, b, j, ha, hb, hab⟩
  · rw [he, he']
    exact .inl ⟨_, rfl, rfl⟩
  · rw [ha, hb]
    exact .inr ⟨a, b, j, rfl, rfl, hab⟩

theorem readUntil {step : α → Reader α} {step' : β → Reader β}
    (hs : ∀ a b, R a b → Lockstep R (step a) (step' b)) (left fuel : ℕ) {a : α} {b : β}
    (h : R a b) : Lockstep R (readUntil step left fuel a) (readUntil step' left fuel b) := by
  induction fuel generalizing a b with
  | zero => exact pure h
  | succ fuel ih =>
    refine bind_right _ fun i => ?_
    split_ifs
    · exact pure h
    · exact (hs a b h).bind fun _ _ => ih

theorem readFrame {step : α → Reader α} {step' : β → Reader β}
    (hs : ∀ a b, R a b → Lockstep R (step a) (step' b)) {a : α} {b : β} (h : R a b) :
    Lockstep R (readFrame step a) (readFrame step' b) := by
  rw [readFrame_eq, readFrame_eq]
  refine bind_right _ fun n => bind_right _ fun i => ?_
  split_ifs
  · exact fail _
  · refine (readUntil hs _ _ h).bind fun c d hcd => bind_right _ fun j => ?_
    split_ifs
    · exact pure hcd
    · exact fail _

end Lockstep

end SchemaReport.Wire
