import SchemaReport.Proofs.Message.Join
import SchemaReport.Proofs.Wire.Levels
import SchemaReport.Proofs.Wire.Local
import SchemaReport.Proofs.Wire.Lockstep

/-! Messages one behind the other. Bytes that stand for a message, and any bytes after them, are
read as the message with the later bytes merged into it, and fail as these fail. What was read
before never decides whether the later bytes can be read: it is only joined with what they hold. -/

namespace SchemaReport.Wire

variable {α : Type}

/-! ### A loop after a loop -/

theorem readUntil_of_size_le (step : α → Reader α) {left : ℕ} (fuel : ℕ) (a : α) {i : Input}
    (h : i.size ≤ left) : readUntil step left fuel a i = .ok (a, i) := by
  cases fuel with
  | zero => rfl
  | succ fuel =>
    show (if i.size ≤ left then Pure.pure a else _ : Reader α) i = _
    rw [if_pos h]
    rfl

/-- Fuel for every byte is enough, and more of it changes nothing. -/
theorem readUntil_fuel {step : α → Reader α} (hs : ∀ a, Local 1 (step a)) (left : ℕ)
    {fuel fuel' : ℕ} {i : Input} (hf : i.size ≤ fuel) (hf' : i.size ≤ fuel') (a : α) :
    readUntil step left fuel a i = readUntil step left fuel' a i := by
  induction fuel generalizing fuel' a i with
  | zero => rw [readUntil_of_size_le _ _ _ (by omega), readUntil_of_size_le _ _ _ (by omega)]
  | succ fuel ih =>
    by_cases hle : i.size ≤ left
    · rw [readUntil_of_size_le _ _ _ hle, readUntil_of_size_le _ _ _ hle]
    · obtain ⟨k, rfl⟩ : ∃ k, fuel' = k + 1 := ⟨fuel' - 1, by omega⟩
      show (if i.size ≤ left then Pure.pure a else _ : Reader α) i =
        (if i.size ≤ left then Pure.pure a else _ : Reader α) i
      rw [if_neg hle, if_neg hle]
      show (step a i).bind _ = (step a i).bind _
      cases h : step a i with
      | error e => rfl
      | ok x =>
        obtain ⟨b, j⟩ := x
        obtain ⟨bs, hi, hk, -⟩ := hs a i b j h
        have size : i.size = bs.length + j.size := by
          rw [i.size_eq, hi, List.length_append, ← j.size_eq]
        exact ih (by omega) (by omega) b

/-- Steps through the head of an input, and then the rest of it. -/
theorem Steps.readUntil_append {step : α → Reader α} (hs : ∀ a, Local 1 (step a))
    {bs : List UInt8} {a b : α} (h : Steps step bs a b) (rest : List UInt8) {fuel : ℕ}
    (hf : (bs ++ rest).length ≤ fuel) :
    Wire.readUntil step 0 fuel a (.ofList (bs ++ rest)) =
      Wire.readUntil step 0 rest.length b (.ofList rest) := by
  induction h generalizing fuel with
  | nil a => exact readUntil_fuel hs 0 hf (Nat.le_refl _) a
  | @cons bs cs a b c hne hr _ ih =>
    have hpos := List.length_pos_of_ne_nil hne
    rw [List.append_assoc, List.length_append] at hf
    obtain ⟨fuel, rfl⟩ : ∃ k, fuel = k + 1 := ⟨fuel - 1, by omega⟩
    have more : ¬ (bs ++ cs ++ rest).length ≤ 0 := by
      simp only [List.length_append]
      omega
    show (if (bs ++ cs ++ rest).length ≤ 0 then Pure.pure a else _ : Reader α) _ = _
    rw [if_neg more, List.append_assoc]
    show (step a _).bind _ = _
    rw [hr (cs ++ rest)]
    exact ih (by omega)

theorem steps_of_mergeWithin {n : ℕ} {t : MessageType} {m m' : Message t} {bs : List UInt8}
    (h : mergeWithin n m bs = .ok m') :
    Steps (mergeField n (mergeNested n)) bs m m' := by
  obtain ⟨j, hj⟩ := mergeWithin_eq_ok.mp h
  obtain ⟨cs, hi, hcs, hend⟩ := steps_of_readUntil (local_mergeField (local_mergeNested n) n) hj
  have empty : j.bytes = [] := by
    apply List.eq_nil_of_length_eq_zero
    rw [← j.size_eq]
    exact Nat.le_zero.mp (hend (Nat.le_add_left _ _))
  rw [empty, List.append_nil] at hi
  obtain rfl : bs = cs := hi
  exact hcs

/-- What stands behind a message is merged into it. -/
theorem mergeWithin_append {n : ℕ} {t : MessageType} {m m' : Message t} {bs : List UInt8}
    (h : mergeWithin n m bs = .ok m') (cs : List UInt8) :
    mergeWithin n m (bs ++ cs) = mergeWithin n m' cs := by
  have steps := steps_of_mergeWithin h
  show (readUntil _ 0 _ _ _).map Prod.fst = (readUntil _ 0 _ _ _).map Prod.fst
  rw [steps.readUntil_append (local_mergeField (local_mergeNested n) n) cs (Nat.le_refl _)]

/-! ### What was read before -/

/-- Nested messages are read side by side, into a message and into the same one joined to `m`. -/
def JoinsNested (nested : Nested) : Prop :=
  ∀ ⦃t : MessageType⦄ ⦃m m' m'' : Message t⦄, Record.Joins m m' m'' →
    Lockstep (Record.Joins m) (nested t m') (nested t m'')

section

variable {nested : Nested} (hn : JoinsNested nested)

include hn

theorem mergeSlot_lockstep (w : WireType) {k : Kind} {s s' s'' : Slot k}
    (h : Slot.Joins s s' s'') :
    Lockstep (Slot.Joins s) (mergeSlot nested w s') (mergeSlot nested w s'') := by
  cases h with
  | given v v' => exact (Lockstep.refl _).bind_pure fun a _ h => h ▸ .given v a
  | kept v => exact (Lockstep.refl _).bind_pure fun a _ h => h ▸ .given v a
  | optional v v' => exact (Lockstep.refl _).bind_pure fun a _ h => h ▸ .optional v (some a)
  | @repeated s packed vs vs' =>
    rw [mergeSlot, mergeSlot]
    split_ifs
    · have step : ∀ us ws, ws = vs ++ us →
          Lockstep (fun us ws => ws = vs ++ us) (appendScalar s us) (appendScalar s ws) := by
        rintro us ws rfl
        refine (Lockstep.refl _).bind_pure fun a _ h => ?_
        rw [← h, List.append_assoc]
      exact (Lockstep.readFrame step rfl).bind_pure fun us ws h => h ▸ .repeated vs us
    · refine (Lockstep.refl _).bind_pure fun a _ h => ?_
      rw [← h, List.append_assoc]
      exact .repeated vs (vs' ++ [a])
  | noLater s =>
    -- The later bytes begin a message of their own here, and go on with an earlier one there.
    cases s with
    | absent =>
      exact .bind_right _ fun _ => (Lockstep.refl _).bind_pure fun a _ h => h ▸ .noEarlier a
    | present m =>
      exact .bind_right _ fun _ => (hn m.joins_empty).bind_pure fun _ _ h => .both h
  | noEarlier m =>
    exact .bind_right _ fun _ => (Lockstep.refl _).bind_pure fun a _ h => h ▸ .noEarlier a
  | both h => exact .bind_right _ fun _ => (hn h).bind_pure fun _ _ h => .both h
  | messages ms ms' =>
    refine .bind_right _ fun _ => (Lockstep.refl _).bind_pure fun a _ h => ?_
    rw [← h, Messages.add_ofList, Messages.add_ofList, List.append_assoc]
    exact .messages ms (ms' ++ [a])

theorem mergeRecord_lockstep (skip : Key → Reader Unit) (owner : MessageType) (k : Key)
    {fs : List Field} {r r' r'' : Record fs} (h : Record.Joins r r' r'') :
    Lockstep (Record.Joins r) (mergeRecord nested skip owner k r')
      (mergeRecord nested skip owner k r'') := by
  induction fs with
  | nil =>
    cases h
    exact (Lockstep.refl _).bind_pure fun _ _ _ => .nil
  | cons f fs ih =>
    cases h with
    | cons hs hr =>
      rw [mergeRecord, mergeRecord]
      split_ifs
      · exact ((mergeSlot_lockstep hn k.type hs).inside owner f).bind_pure fun _ _ h => .cons h hr
      · exact (ih hr).bind_pure fun _ _ h => .cons hs h

theorem mergeField_lockstep (n : ℕ) {t : MessageType} {m m' m'' : Message t}
    (h : Record.Joins m m' m'') :
    Lockstep (Record.Joins m) (mergeField n nested m') (mergeField n nested m'') :=
  .bind_right _ fun k => mergeRecord_lockstep hn (skip n) t k h

end

theorem joinsNested (n : ℕ) : JoinsNested (mergeNested n) := by
  induction n with
  | zero => exact fun _ _ _ _ _ => .fail _
  | succ n ih => exact fun _ _ _ _ h => .readFrame (fun _ _ => mergeField_lockstep ih n) h

/-- The bytes are read into a message just as they are read by themselves, and are then joined
to it. -/
theorem mergeWithin_eq_or_joins (n : ℕ) {t : MessageType} (m : Message t) (bs : List UInt8) :
    (∃ e, mergeWithin n (.empty t) bs = .error e ∧ mergeWithin n m bs = .error e) ∨
      ∃ m' m'', mergeWithin n (.empty t) bs = .ok m' ∧ mergeWithin n m bs = .ok m'' ∧
        Record.Joins m m' m'' := by
  have side := Lockstep.readUntil (fun _ _ => mergeField_lockstep (joinsNested n) n) 0 bs.length
    m.joins_empty (.ofList bs)
  show (∃ e, (readUntil _ _ _ _ _).map Prod.fst = _ ∧ (readUntil _ _ _ _ _).map Prod.fst = _) ∨
    ∃ _ _, (readUntil _ _ _ _ _).map Prod.fst = _ ∧ (readUntil _ _ _ _ _).map Prod.fst = _ ∧ _
  rcases side with ⟨e, he, he'⟩ | ⟨m', m'', j, hm', hm'', h⟩
  · rw [Message.empty, he, he']
    exact .inl ⟨e, rfl, rfl⟩
  · rw [Message.empty, hm', hm'']
    exact .inr ⟨m', m'', rfl, rfl, h⟩

/-- Bytes behind those of a message are merged into it: with the same result and the same error.
They are refused as they are by themselves, and what they hold is joined to the message. -/
theorem decode_append {t : MessageType} {a : List UInt8} {m : Message t} (h : decode t a = .ok m)
    (b : List UInt8) :
    decode t (a ++ b) = merge m b ∧
      ((∃ e, decode t b = .error e ∧ merge m b = .error e) ∨
        ∃ m' m'', decode t b = .ok m' ∧ merge m b = .ok m'' ∧ Record.Joins m m' m'') :=
  ⟨mergeWithin_append h b, mergeWithin_eq_or_joins depthLimit m b⟩

/-- A request of a compiler, if its version has these numbers. -/
def ofCompiler (major minor : Option Int32) : Message .request :=
  .cons (.repeated []) (.cons (.optional none) (.cons (.messages .nil) (.cons (.messages .nil)
    (.cons (.present (.cons (.optional major) (.cons (.optional minor) (.cons (.optional none)
      (.cons (.optional none) .nil))))) .nil))))

/-- The numbers of a version meet in one message. -/
theorem decode_append_version :
    decode .request [0x1a, 2, 8, 4] = .ok (ofCompiler (some 4) none) ∧
      decode .request ([0x1a, 2, 8, 4] ++ [0x1a, 2, 16, 25]) =
        .ok (ofCompiler (some 4) (some 25)) := by
  have first : decode .request [0x1a, 2, 8, 4] = .ok (ofCompiler (some 4) none) := rfl
  have merged : merge (ofCompiler (some 4) none) [0x1a, 2, 16, 25] =
      .ok (ofCompiler (some 4) (some 25)) := rfl
  exact ⟨first, (decode_append first _).1.trans merged⟩

end SchemaReport.Wire
