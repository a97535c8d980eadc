import SchemaReport.Proofs.Json.Levels
import SchemaReport.Proofs.Json.Spelling

/-! What is written for a message is one of its spellings, in both layouts: the object of the fields
that hold something, in the order of declaration. -/

namespace SchemaReport.Json

theorem spellsScalar_ofDouble {d : Double} (h : d.standard = d) :
    SpellsScalar .double d (ofDouble d).draft := by
  unfold ofDouble
  split_ifs with hn hi hs
  · rw [Double.standard, if_pos hn] at h
    subst h
    exact .nan (spells_of "NaN")
  · have infinite := infinity_isNegative hi
    rw [hs] at infinite
    exact infinite ▸ .infinity true (spells_of "-Infinity")
  · have infinite := infinity_isNegative hi
    rw [Bool.not_eq_true _ |>.mp hs] at infinite
    exact infinite ▸ .infinity false (spells_of "Infinity")
  · have finite : (Number.double d).IsWritable :=
      d.isFinite_iff.mpr ⟨Bool.eq_false_iff.mpr hn, Bool.eq_false_iff.mpr hi⟩
    exact .double (Number.number?_numeral finite)

theorem spellsScalar_ofScalar {s : Scalar} {v : s.Value} (h : s.standard v = v) :
    SpellsScalar s v (ofScalar s v).draft := by
  cases s with
  | string => exact .string (spells_of v)
  | bytes => exact .bytes (spells_of _)
  | bool => exact .bool v
  | int32 => exact .int32 v
  | int64 => exact .int64 v
  | uint64 => exact .uint64 v
  | double => exact spellsScalar_ofDouble h
  | enum e =>
    rw [ofScalar]
    split
    next s hs => exact .name (Enumeration.nameOf?_eq_some_iff.mp hs) (spells_of s)
    next => exact .number e v

theorem forall₂_ofScalar {s : Scalar} {vs : List s.Value} (h : ∀ v ∈ vs, s.standard v = v) :
    List.Forall₂ (SpellsScalar s) vs (itemDrafts (vs.map (ofScalar s))) := by
  induction vs with
  | nil => exact .nil
  | cons v vs ih =>
    obtain ⟨hv, hvs⟩ := List.forall_mem_cons.mp h
    exact .cons (spellsScalar_ofScalar hv) (ih hvs)

/-- While members are written for the record `r`, whose fields are `gs`: it is what remains of `m`. Of
the fields that are left all others are empty. -/
structure Remains {gs fs : List Field} (r : Record gs) (m : Record fs) (left : List Field) :
    Prop where
  slots : ∀ f ∈ gs, f ∈ left ∧ m.slotOf f = r.slotOf f
  others : ∀ f ∈ left, f ∉ gs → m.slotOf f = .empty f.kind

namespace Remains

theorem start {fs : List Field} (m : Record fs) : Remains m m fs where
  slots _ hf := ⟨hf, rfl⟩
  others _ hf hl := absurd hf hl

variable {g : Field} {gs fs left : List Field} {s : Slot g.kind} {r : Record gs} {m : Record fs}

theorem first (h : Remains (.cons s r : Record (g :: gs)) m left) :
    g ∈ left ∧ m.slotOf g = s := by
  have first := h.slots g List.mem_cons_self
  rwa [Record.slotOf_cons_self] at first

theorem slots_tail (h : Remains (.cons s r : Record (g :: gs)) m left)
    (hd : DistinctNumbers (g :: gs)) : ∀ f ∈ gs, f ∈ left ∧ m.slotOf f = r.slotOf f := by
  intro f hf
  rw [← Record.slotOf_cons_of_ne s r (hd.number_ne_of_mem hf)]
  exact h.slots f (List.mem_cons_of_mem g hf)

/-- Behind the member of a field. -/
theorem written (h : Remains (.cons s r : Record (g :: gs)) m left)
    (hd : DistinctNumbers (g :: gs)) (hk : ((g :: gs).map Field.key).Nodup) :
    Remains r m (left.filter (·.key ≠ g.key)) := by
  refine ⟨fun f hf => ?_, fun f hf hl => ?_⟩
  · obtain ⟨known, slot⟩ := h.slots_tail hd f hf
    have key : f.key ≠ g.key := by
      intro key
      exact (List.nodup_cons.mp hk).1 (key ▸ List.mem_map_of_mem hf)
    exact ⟨List.mem_filter.mpr ⟨known, by simpa using key⟩, slot⟩
  · obtain ⟨known, key⟩ := List.mem_filter.mp hf
    refine h.others f known fun hm => ?_
    rcases List.mem_cons.mp hm with rfl | hm
    · simp at key
    · exact hl hm

/-- A field without a member stays among those that are left. -/
theorem skipped (h : Remains (.cons s r : Record (g :: gs)) m left)
    (hd : DistinctNumbers (g :: gs)) (hs : s = .empty g.kind) : Remains r m left := by
  refine ⟨h.slots_tail hd, fun f hf hl => ?_⟩
  by_cases hfg : f = g
  · subst hfg
    rw [h.first.2, hs]
  · exact h.others f hf fun hm => (List.mem_cons.mp hm).elim hfg hl

end Remains

theorem spellsMessage_of_members {t : MessageType} {m : Message t} {n : ℕ}
    (hn : (ofMessage m).nesting ≤ n)
    (members : ∀ {k}, membersNesting (membersOf m) ≤ k →
      SpellsMembers k m t.fields (memberDrafts (membersOf m))) :
    SpellsMessage n m (ofMessage m).draft := by
  cases n with
  | zero => exact absurd hn (Nat.not_succ_le_zero _)
  | succ n => exact .object (members (Nat.le_of_succ_le_succ hn))

mutual

theorem spellsSlot_slotValue : {k : Kind} → {s : Slot k} → s.standard = s → ∀ {v : Value} {n : ℕ},
    slotValue? s = some v → v.nesting ≤ n → SpellsSlot n s v.draft
  | .required s, .required x, hs, v, n, hv, _ => by
    obtain rfl := Option.some.inj hv
    exact .required (spellsScalar_ofScalar (Slot.required.inj hs))
  | .optional s, .optional x, hs, v, n, hv, _ => by
    obtain ⟨a, rfl, rfl⟩ := Option.map_eq_some_iff.mp hv
    exact .optional (spellsScalar_ofScalar (Option.some.inj (Slot.optional.inj hs)))
  | .repeated s _, .repeated xs, hs, v, n, hv, hn => by
    rw [slotValue?] at hv
    split_ifs at hv
    obtain rfl := Option.some.inj hv
    obtain ⟨n, rfl⟩ := Nat.exists_eq_add_of_le' (Nat.le_of_add_left_le hn)
    have items := List.map_inj_left.mp ((Slot.repeated.inj hs).trans xs.map_id.symm)
    exact .repeated (forall₂_ofScalar items)
  | _, .absent, _, v, n, hv, _ => by cases hv
  | .message t, .present m, hs, v, n, hv, hn => by
    obtain rfl := Option.some.inj hv
    have standard := Slot.present.inj hs
    exact .present (spellsMessage_of_members hn fun hk =>
      spellsMembers_membersOf standard t.distinctNumbers t.nodup_keys hk (.start m))
  | .messages t, .messages .nil, _, v, n, hv, _ => by cases hv
  | .messages t, .messages (.cons m ms), hs, v, n, hv, hn => by
    obtain rfl := Option.some.inj hv
    obtain ⟨n, rfl⟩ := Nat.exists_eq_add_of_le' (Nat.le_of_add_left_le hn)
    exact .messages (spellsMessages_itemsOf (Slot.messages.inj hs) (Nat.le_of_succ_le_succ hn))

theorem spellsMessages_itemsOf : {t : MessageType} → {ms : Messages t} → ms.standard = ms →
    ∀ {n : ℕ}, itemsNesting (itemsOf ms) ≤ n → SpellsMessages n ms (itemDrafts (itemsOf ms))
  | _, .nil, _, _, _ => .nil
  | t, .cons m ms, h, n, hn => by
    obtain ⟨first, others⟩ := Messages.cons.inj h
    refine .cons (spellsMessage_of_members (le_of_max_le_left hn) fun hk => ?_)
      (spellsMessages_itemsOf others (le_of_max_le_right hn))
    exact spellsMembers_membersOf first t.distinctNumbers t.nodup_keys hk (.start m)

theorem spellsMembers_membersOf : {gs : List Field} → {r : Record gs} → r.standard = r →
    DistinctNumbers gs → (gs.map Field.key).Nodup →
    ∀ {fs : List Field} {m : Record fs} {left : List Field} {n : ℕ},
    membersNesting (membersOf r) ≤ n → Remains r m left →
    SpellsMembers n m left (memberDrafts (membersOf r))
  | _, .nil, _, _, _, _, _, _, _, _, remains =>
    .rest fun f hf => remains.others f hf List.not_mem_nil
  | g :: gs, .cons s r, h, hd, hk, fs, m, left, n, hn, remains => by
    obtain ⟨first, others⟩ := Record.cons.inj h
    obtain ⟨known, slot⟩ := remains.first
    have tail := (List.nodup_cons.mp hk).2
    rw [membersNesting_cons, max_le_iff] at hn
    rw [membersOf]
    split
    next v hv =>
      rw [slotNesting, hv] at hn
      have written := spellsSlot_slotValue first hv hn.1
      rw [← slot] at written
      exact .known known (spells_of g.key) written
        (spellsMembers_membersOf others hd.tail tail hn.2 (remains.written hd hk))
    next hv =>
      have skipped := remains.skipped hd (slotValue?_eq_none hv)
      exact spellsMembers_membersOf others hd.tail tail hn.2 skipped

end

theorem spellsMessage_ofMessage {t : MessageType} {m : Message t} (h : m.standard = m) :
    SpellsMessage (ofMessage m).nesting m (ofMessage m).draft :=
  spellsMessage_of_members le_rfl fun hk =>
    spellsMembers_membersOf h t.distinctNumbers t.nodup_keys hk (.start m)

/-- What is written for a message, with the standard NaN for all its NaNs, is a spelling of it. -/
theorem isSpelling_write {t : MessageType} {m : Message t} (h : m.standard = m) (l : Layout) :
    IsSpelling (ofMessage m).nesting m (write l m ++ ['\n']) :=
  ⟨_, (ofMessage_isWritable m).writesElement l, spellsMessage_ofMessage h⟩

end SchemaReport.Json
