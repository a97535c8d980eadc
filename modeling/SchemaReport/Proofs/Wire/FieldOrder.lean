import SchemaReport.Proofs.Wire.Concatenation
import SchemaReport.Proofs.Wire.Records

/-! The order of fields. A record changes the slot of its number only, and what it makes of that
slot depends on nothing else. So each slot is settled by the records of its own number in their
order, and records of different numbers may change places. -/

namespace SchemaReport.Wire

variable {n l : ℕ} {t : MessageType} {m m' q q' : Message t} {p : Piece} {f : Field}

/-! ### One record -/

theorem slotOf_of_reads_mergeRecord {k : Key} {vs : List UInt8} (hf : f ∈ t.fields)
    (h : Reads (mergeRecord (mergeNested n) (skip n) t k m) vs m') :
    (f.number ≠ k.number → m'.slotOf f = m.slotOf f) ∧
      (f.number = k.number →
        Reads (mergeSlot (mergeNested n) k.type (m.slotOf f)) vs (m'.slotOf f)) := by
  have hd := t.distinctNumbers
  by_cases known : ∃ g ∈ t.fields, g.number = k.number
  · obtain ⟨number, type⟩ := k
    obtain ⟨g, hg, rfl⟩ := known
    rw [mergeRecord_of_mem hd hg] at h
    have settled := (local_mergeSlot (local_mergeNested n) type (m.slotOf g)).inside t g
    obtain ⟨s, hs, rfl⟩ := settled.reads_of_bind_pure h
    refine ⟨fun hne => Record.slotOf_put_of_ne _ _ hne, fun same => ?_⟩
    obtain rfl := hd.eq_of_number_eq hf hg same
    rw [Record.slotOf_put hd hf]
    exact hs.of_inside
  · have unknown : ∀ g ∈ t.fields, g.number ≠ k.number := fun g hg e => known ⟨g, hg, e⟩
    rw [mergeRecord_of_forall_ne unknown] at h
    obtain ⟨-, -, rfl⟩ := (local_skip n k).reads_of_bind_pure h
    exact ⟨fun _ => rfl, fun same => absurd same (unknown f hf)⟩

/-- The fields of a message that are read from one record. -/
abbrev ReadsRecord (n : ℕ) {t : MessageType} (p : Piece) (m m' : Message t) : Prop :=
  Reads (mergeField n (mergeNested n) m) p.bytes m'

/-- A record leaves the slots of other numbers alone. -/
theorem slotOf_of_readsRecord_of_ne (hp : IsRecord l p) (h : ReadsRecord n p m m')
    (hf : f ∈ t.fields) (hne : p.number ≠ f.number) : m'.slotOf f = m.slotOf f := by
  obtain ⟨k, ks, vs, rfl, hk, -⟩ := hp
  exact (slotOf_of_reads_mergeRecord hf (h.of_bind hk.reads)).1 hne.symm

/-- A record makes the same of the same slot. -/
theorem slotOf_of_readsRecord_congr (hp : IsRecord l p) (h : ReadsRecord n p m m')
    (h' : ReadsRecord n p q q') (hf : f ∈ t.fields) (same : m.slotOf f = q.slotOf f) :
    m'.slotOf f = q'.slotOf f := by
  by_cases hne : p.number ≠ f.number
  · rw [slotOf_of_readsRecord_of_ne hp h hf hne, slotOf_of_readsRecord_of_ne hp h' hf hne, same]
  · obtain ⟨k, ks, vs, rfl, hk, -⟩ := hp
    have number : f.number = k.number := (not_not.mp hne).symm
    have left := (slotOf_of_reads_mergeRecord hf (h.of_bind hk.reads)).2 number
    have right := (slotOf_of_reads_mergeRecord hf (h'.of_bind hk.reads)).2 number
    rw [same] at left
    exact (left.unique right (rfl : vs ++ [] = vs ++ [])).2.1

/-- What one of two readers that go side by side reads, the other one reads as well. -/
theorem Lockstep.exists_reads {α β : Type} {R : α → β → Prop} {r : Reader α} {s : Reader β} {k : ℕ}
    {bs : List UInt8} {a : α} (h : Lockstep R r s) (hs : Local k s) (hr : Reads r bs a) :
    ∃ b, Reads s bs b := by
  rcases h (.ofList bs) with ⟨e, he, -⟩ | ⟨a', b, j, ha, hb, -⟩
  · rw [hr.whole] at he
    cases he
  · rw [hr.whole] at ha
    obtain ⟨-, rfl⟩ := Prod.mk.inj (Except.ok.inj ha)
    exact ⟨b, hs.reads_of_whole hb⟩

/-- Whether a record is accepted does not depend on the message that it is merged into. -/
theorem exists_readsRecord (h : ReadsRecord n p m m') (q : Message t) :
    ∃ q', ReadsRecord n p q q' := by
  have settled (m : Message t) := local_mergeField (local_mergeNested n) n m
  have side (m : Message t) := mergeField_lockstep (joinsNested n) n m.joins_empty
  obtain ⟨alone, h⟩ := (side m).symm.exists_reads (settled _) h
  exact (side q).exists_reads (settled q) h

/-! ### Records in turn -/

/-- The records take one message to the other, one after the other. -/
inductive InTurn (n : ℕ) {t : MessageType} : List Piece → Message t → Message t → Prop
  | nil (m : Message t) : InTurn n [] m m
  | cons {p : Piece} {ps : List Piece} {m m' m'' : Message t} (hp : ReadsRecord n p m m')
      (h : InTurn n ps m' m'') : InTurn n (p :: ps) m m''

namespace InTurn

variable {ps qs : List Piece}

theorem steps (hps : ∀ p ∈ ps, IsRecord l p) (h : InTurn n ps m m') :
    Steps (mergeField n (mergeNested n)) (ps.flatMap Piece.bytes) m m' := by
  induction h with
  | nil m => exact .nil m
  | cons hp _ ih =>
    exact .cons (hps _ (by simp)).bytes_ne_nil hp (ih fun q hq => hps q (by simp [hq]))

/-- Bytes that are read as fields are records that are read in turn. -/
theorem exists_of_steps {bs : List UInt8}
    (h : Steps (mergeField (l + 1) (mergeNested (l + 1))) bs m m') :
    ∃ ps, Records (l + 1) ps bs ∧ InTurn (l + 1) ps m m' := by
  induction h with
  | nil m => exact ⟨[], ⟨rfl, by simp⟩, .nil m⟩
  | @cons bs cs a b c _ hr _ ih =>
    obtain ⟨number, hp⟩ := (takes_mergeField (l + 1) a).of_reads hr
    obtain ⟨ps, ⟨rfl, hps⟩, turn⟩ := ih
    exact ⟨⟨number, bs⟩ :: ps, ⟨rfl, List.forall_mem_cons.mpr ⟨hp, hps⟩⟩, .cons hr turn⟩

theorem of_steps (hps : ∀ p ∈ ps, IsRecord (l + 1) p)
    (h : Steps (mergeField (l + 1) (mergeNested (l + 1))) (ps.flatMap Piece.bytes) m m') :
    InTurn (l + 1) ps m m' := by
  obtain ⟨qs, records, turn⟩ := exists_of_steps h
  rwa [records.unique ⟨rfl, hps⟩] at turn

/-- Records that can be merged can be merged in any order, and into any message. -/
theorem exists_of_subset (h : InTurn n ps m m') (hqs : ∀ p ∈ qs, p ∈ ps) (q : Message t) :
    ∃ q', InTurn n qs q q' := by
  have accepted : ∀ p ∈ ps, ∀ q : Message t, ∃ q', ReadsRecord n p q q' := by
    clear hqs
    induction h with
    | nil => simp
    | cons hp _ ih =>
      intro p' hp'
      rcases List.mem_cons.mp hp' with rfl | hp'
      · exact exists_readsRecord hp
      · exact ih p' hp'
  induction qs generalizing q with
  | nil => exact ⟨q, .nil q⟩
  | cons p qs ih =>
    obtain ⟨q', hp⟩ := accepted p (hqs p (by simp)) q
    obtain ⟨q'', hq⟩ := ih (fun r hr => hqs r (by simp [hr])) q'
    exact ⟨q'', .cons hp hq⟩

/-- Of all records only those of its number matter to a slot. -/
theorem slotOf_eq_of_filter (hps : ∀ p ∈ ps, IsRecord l p) (hf : f ∈ t.fields)
    (h : InTurn n ps m m') (h' : InTurn n (ps.filter (·.number = f.number)) q q')
    (same : m.slotOf f = q.slotOf f) : m'.slotOf f = q'.slotOf f := by
  induction h generalizing q with
  | nil m =>
    cases h'
    exact same
  | @cons p ps m₀ m₁ m₂ hp _ ih =>
    have record := hps p (by simp)
    have rest : ∀ r ∈ ps, IsRecord l r := fun r hr => hps r (by simp [hr])
    rw [List.filter_cons] at h'
    by_cases number : p.number = f.number
    · rw [if_pos (by simp [number])] at h'
      cases h' with
      | cons hq h' => exact ih rest h' (slotOf_of_readsRecord_congr record hp hq hf same)
    · rw [if_neg (by simp [number])] at h'
      refine ih rest h' ?_
      rw [slotOf_of_readsRecord_of_ne record hp hf number, same]

/-- Lists of records that agree on each number by itself take a message to the same. -/
theorem eq_of_filter_eq (hps : ∀ p ∈ ps, IsRecord l p) (hqs : ∀ p ∈ qs, IsRecord l p)
    (h : InTurn n ps m m') (h' : InTurn n qs m q')
    (same : ∀ k, ps.filter (·.number = k) = qs.filter (·.number = k)) : m' = q' := by
  apply Record.ext_slotOf t.distinctNumbers
  intro f hf
  have among : ∀ p ∈ ps.filter (·.number = f.number), p ∈ ps :=
    fun p hp => (List.mem_filter.mp hp).1
  obtain ⟨r, hr⟩ := h.exists_of_subset among m
  have left := slotOf_eq_of_filter hps hf h hr rfl
  rw [same f.number] at hr
  rw [left, slotOf_eq_of_filter hqs hf h' hr rfl]

end InTurn

theorem mergeWithin_of_filter_eq {ps qs : List Piece} (hps : ∀ p ∈ ps, IsRecord (l + 1) p)
    (hqs : ∀ p ∈ qs, IsRecord (l + 1) p)
    (same : ∀ k, ps.filter (·.number = k) = qs.filter (·.number = k))
    (h : mergeWithin (l + 1) m (ps.flatMap Piece.bytes) = .ok m') :
    mergeWithin (l + 1) m (qs.flatMap Piece.bytes) = .ok m' := by
  have left := InTurn.of_steps hps (steps_of_mergeWithin h)
  have among : ∀ p ∈ qs, p ∈ ps := by
    intro p hp
    have own : p ∈ qs.filter (·.number = p.number) := List.mem_filter.mpr ⟨hp, by simp⟩
    rw [← same] at own
    exact (List.mem_filter.mp own).1
  obtain ⟨q', right⟩ := left.exists_of_subset among m
  rw [InTurn.eq_of_filter_eq hps hqs left right same]
  exact mergeWithin_of_steps (right.steps hqs)

theorem exists_mergeWithin {bs : List UInt8} (h : mergeWithin n (.empty t) bs = .ok m')
    (m : Message t) : ∃ q, mergeWithin n m bs = .ok q := by
  rcases mergeWithin_eq_or_joins n m bs with ⟨e, he, -⟩ | ⟨-, q, -, hq, -⟩
  · rw [h] at he
    cases he
  · exact ⟨q, hq⟩

theorem filter_append_comm {ps qs : List Piece} (h : ∀ p ∈ ps, ∀ q ∈ qs, p.number ≠ q.number)
    (k : ℕ) : (ps ++ qs).filter (·.number = k) = (qs ++ ps).filter (·.number = k) := by
  rw [List.filter_append, List.filter_append]
  by_cases hk : ∃ p ∈ ps, p.number = k
  · obtain ⟨p, hp, rfl⟩ := hk
    have none : qs.filter (·.number = p.number) = [] := by
      refine List.filter_eq_nil_iff.mpr fun q hq => ?_
      simpa using (h p hp q hq).symm
    rw [none, List.append_nil, List.nil_append]
  · have none : ps.filter (·.number = k) = [] := by
      refine List.filter_eq_nil_iff.mpr fun p hp => ?_
      simpa using fun e => hk ⟨p, hp, e⟩
    rw [none, List.append_nil, List.nil_append]

/-- The bytes of a message are records in one way. Parts without a common number can be merged into
any message in either order, with the same result; and bytes with the same records of each number,
in whatever order otherwise, stand for the same message. -/
theorem decode_by_number (t : MessageType) :
    (∀ x (m : Message t), decode t x = .ok m → ∃! ps, Records depthLimit ps x) ∧
    (∀ x y ps qs (mx my m : Message t), decode t x = .ok mx → decode t y = .ok my →
      Records depthLimit ps x → Records depthLimit qs y →
      (∀ p ∈ ps, ∀ q ∈ qs, p.number ≠ q.number) →
      ∃ m', (merge m x >>= (merge · y)) = .ok m' ∧ (merge m y >>= (merge · x)) = .ok m') ∧
    ∀ x y ps qs (m : Message t), decode t x = .ok m →
      Records depthLimit ps x → Records depthLimit qs y →
      (∀ n, ps.filter (·.number = n) = qs.filter (·.number = n)) → decode t y = .ok m := by
  refine ⟨fun x m h => ?_, ?_, ?_⟩
  · obtain ⟨ps, hps, -⟩ := InTurn.exists_of_steps (steps_of_mergeWithin h)
    exact ⟨ps, hps, fun qs hqs => hqs.unique hps⟩
  · rintro x y ps qs mx my m hx hy ⟨rfl, hps⟩ ⟨rfl, hqs⟩ disjoint
    obtain ⟨m₁, hm₁⟩ := exists_mergeWithin hx m
    obtain ⟨m₂, hm₂⟩ := exists_mergeWithin hy m
    obtain ⟨m', hm'⟩ := exists_mergeWithin hy m₁
    have both : ∀ p ∈ ps ++ qs, IsRecord depthLimit p := fun p hp =>
      (List.mem_append.mp hp).elim (hps p) (hqs p)
    have swapped : ∀ p ∈ qs ++ ps, IsRecord depthLimit p := fun p hp =>
      (List.mem_append.mp hp).elim (hqs p) (hps p)
    have first : mergeWithin depthLimit m ((ps ++ qs).flatMap Piece.bytes) = .ok m' := by
      rw [List.flatMap_append, mergeWithin_append hm₁, hm']
    have second : mergeWithin depthLimit m ((qs ++ ps).flatMap Piece.bytes) = .ok m' :=
      mergeWithin_of_filter_eq both swapped (filter_append_comm disjoint) first
    rw [List.flatMap_append, mergeWithin_append hm₂] at second
    refine ⟨m', ?_, ?_⟩
    · show mergeWithin depthLimit m _ >>= _ = _
      rw [hm₁]
      exact hm'
    · show mergeWithin depthLimit m _ >>= _ = _
      rw [hm₂]
      exact second
  · rintro x y ps qs m hx ⟨rfl, hps⟩ ⟨rfl, hqs⟩ same
    exact mergeWithin_of_filter_eq hps hqs same hx

/-- The choice of a file, and a parameter, of one letter each. -/
def choice (c : UInt8) : Piece := ⟨1, [10, 1, c]⟩

def parameter (c : UInt8) : Piece := ⟨2, [18, 1, c]⟩

theorem choice_isRecord (c : UInt8) : IsRecord depthLimit (choice c) :=
  ⟨⟨1, .delimited⟩, [10], [1] ++ [c], rfl, ⟨.last (by decide) (by decide), by decide, by decide⟩,
    .delimited (.last (by decide) (by decide))⟩

theorem parameter_isRecord (c : UInt8) : IsRecord depthLimit (parameter c) :=
  ⟨⟨2, .delimited⟩, [18], [1] ++ [c], rfl, ⟨.last (by decide) (by decide), by decide, by decide⟩,
    .delimited (.last (by decide) (by decide))⟩

/-- A request for the files `a` and `c` with the parameter `b`. -/
def ofLetters : Message .request :=
  .cons (.repeated ["a", "c"]) (.cons (.optional (some "b")) (.cons (.messages .nil)
    (.cons (.messages .nil) (.cons .absent .nil))))

/-- The parameter may stand before the choices, between them or behind them. -/
theorem decode_by_number_letters :
    decode .request [10, 1, 97, 18, 1, 98, 10, 1, 99] = .ok ofLetters ∧
      decode .request [18, 1, 98, 10, 1, 97, 10, 1, 99] = .ok ofLetters ∧
      ∃ m, (merge ofLetters [10, 1, 97] >>= (merge · [18, 1, 98])) = .ok m ∧
        (merge ofLetters [18, 1, 98] >>= (merge · [10, 1, 97])) = .ok m := by
  have between : decode .request [10, 1, 97, 18, 1, 98, 10, 1, 99] = .ok ofLetters := rfl
  obtain ⟨mx, hx⟩ : ∃ m, decode .request [10, 1, 97] = .ok m := ⟨_, rfl⟩
  obtain ⟨my, hy⟩ : ∃ m, decode .request [18, 1, 98] = .ok m := ⟨_, rfl⟩
  have a := choice_isRecord 97
  have b := parameter_isRecord 98
  have c := choice_isRecord 99
  have disjoint : ∀ p ∈ [choice 97], ∀ q ∈ [parameter 98], p.number ≠ q.number := by decide
  have same : ∀ n, [choice 97, parameter 98, choice 99].filter (·.number = n) =
      [parameter 98, choice 97, choice 99].filter (·.number = n) := by
    intro n
    have swap := filter_append_comm disjoint n
    have split (p q r : Piece) : [p, q, r] = [p] ++ [q] ++ [r] := rfl
    rw [split, split, List.filter_append, swap, ← List.filter_append]
  obtain ⟨-, merged, ordered⟩ := decode_by_number .request
  refine ⟨between, ?_, ?_⟩
  · exact ordered _ _ _ _ _ between ⟨rfl, by simp [a, b, c]⟩ ⟨rfl, by simp [a, b, c]⟩ same
  · exact merged _ _ _ _ _ _ ofLetters hx hy ⟨rfl, by simp [a]⟩ ⟨rfl, by simp [b]⟩ disjoint

end SchemaReport.Wire
