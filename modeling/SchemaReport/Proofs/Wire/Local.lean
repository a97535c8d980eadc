import SchemaReport.Proofs.Wire.Scalars

/-! What a reader gives is settled by the bytes that it takes. With other bytes behind these it
takes the same ones and gives the same, although a length is held against all that is left and a
group is passed over with as much fuel as there are bytes. Only a failure may turn out otherwise. -/

namespace SchemaReport.Wire

variable {α β : Type}

theorem Input.eq_ofList (i : Input) : i = ofList i.bytes := by
  ext1
  rfl

/-- For whatever the reader gives it takes bytes of the form `G`. -/
def Takes (G : List UInt8 → α → Prop) (r : Reader α) : Prop :=
  ∀ i a j, r i = .ok (a, j) → ∃ bs, i.bytes = bs ++ j.bytes ∧ G bs a

namespace Takes

variable {G : List UInt8 → α → Prop}

theorem fail (f : Fault) : Takes G (Reader.fail f) := by
  intro i a j h
  cases h

theorem mono {H : List UInt8 → α → Prop} {r : Reader α} (hr : Takes G r)
    (h : ∀ bs a, G bs a → H bs a) : Takes H r := by
  intro i a j ha
  obtain ⟨bs, hi, hbs⟩ := hr i a j ha
  exact ⟨bs, hi, h bs a hbs⟩

theorem bind {r : Reader α} {f : α → Reader β} {H : α → List UInt8 → β → Prop} (hr : Takes G r)
    (hf : ∀ a, Takes (H a) (f a)) :
    Takes (fun bs b => ∃ cs ds a, bs = cs ++ ds ∧ G cs a ∧ H a ds b) (r >>= f) := by
  intro i b j h
  obtain ⟨a, i', ha, hb⟩ := Reader.bind_eq_ok.mp h
  obtain ⟨cs, hi, hcs⟩ := hr i a i' ha
  obtain ⟨ds, hi', hds⟩ := hf a i' b j hb
  exact ⟨cs ++ ds, by rw [hi, hi', List.append_assoc], cs, ds, a, rfl, hcs, hds⟩

theorem pure (a : α) : Takes (fun bs _ => bs = []) (Pure.pure a) := by
  intro i b j h
  obtain ⟨-, rfl⟩ := Prod.mk.inj (Except.ok.inj h)
  exact ⟨[], rfl, rfl⟩

/-- The form does not change with a second reader that takes nothing. -/
theorem bind_of_nil {P : List UInt8 → Prop} {r : Reader α} {f : α → Reader β}
    (hr : Takes (fun bs _ => P bs) r) (hf : ∀ a, Takes (fun bs _ => bs = []) (f a)) :
    Takes (fun bs _ => P bs) (r >>= f) := by
  refine (hr.bind hf).mono ?_
  rintro _ _ ⟨cs, _, _, rfl, hcs, rfl⟩
  rwa [List.append_nil]

theorem bind_pure {P : List UInt8 → Prop} {r : Reader α} (hr : Takes (fun bs _ => P bs) r)
    (f : α → β) : Takes (fun bs _ => P bs) (do return f (← r)) :=
  hr.bind_of_nil fun a => pure (f a)

theorem inside {r : Reader α} (hr : Takes G r) (t : MessageType) (f : Field) :
    Takes G (r.inside t f) := fun i a j h => hr i a j (Reader.inside_eq_ok.mp h)

/-- An input that is taken whole is of the form itself. -/
theorem of_whole {r : Reader α} {bs : List UInt8} {a : α} (hr : Takes G r)
    (h : r (.ofList bs) = .ok (a, .ofList [])) : G bs a := by
  obtain ⟨cs, whole, hcs⟩ := hr _ a _ h
  obtain rfl : bs = cs := whole.trans (List.append_nil cs)
  exact hcs

theorem of_reads {r : Reader α} {bs : List UInt8} {a : α} (hr : Takes G r) (h : Reads r bs a) :
    G bs a := hr.of_whole h.whole

end Takes

/-- Whatever the reader gives it owes to the bytes it took, and it takes `least` or more. -/
def Local (least : ℕ) (r : Reader α) : Prop :=
  ∀ i a j, r i = .ok (a, j) → ∃ bs, i.bytes = bs ++ j.bytes ∧ least ≤ bs.length ∧ Reads r bs a

namespace Local

variable {k l : ℕ}

theorem of_takes {G : List UInt8 → α → Prop} {r : Reader α} (hr : Takes G r)
    (hG : ∀ bs a, G bs a → k ≤ bs.length ∧ Reads r bs a) : Local k r := hr.mono hG

theorem reads_of_whole {r : Reader α} {bs : List UInt8} {a : α} (hr : Local k r)
    (h : r (.ofList bs) = .ok (a, .ofList [])) : Reads r bs a := (Takes.of_whole hr h).2

theorem pure (a : α) : Local 0 (Pure.pure a) := by
  intro i b j h
  obtain ⟨rfl, rfl⟩ := Prod.mk.inj (Except.ok.inj h)
  exact ⟨[], rfl, Nat.zero_le _, .pure a⟩

theorem fail (f : Fault) : Local k (Reader.fail f : Reader α) := by
  intro i a j h
  cases h

theorem mono {r : Reader α} (hr : Local k r) (h : l ≤ k) : Local l r := by
  intro i a j ha
  obtain ⟨bs, hi, hk, hr⟩ := hr i a j ha
  exact ⟨bs, hi, h.trans hk, hr⟩

theorem bind {r : Reader α} {f : α → Reader β} (hr : Local k r) (hf : ∀ a, Local l (f a)) :
    Local (k + l) (r >>= f) := by
  intro i b j h
  obtain ⟨a, i', ha, hb⟩ := Reader.bind_eq_ok.mp h
  obtain ⟨bs, hi, hk, hr⟩ := hr i a i' ha
  obtain ⟨cs, hi', hl, hf⟩ := hf a i' b j hb
  refine ⟨bs ++ cs, ?_, ?_, hr.bind hf⟩
  · rw [hi, hi', List.append_assoc]
  · rw [List.length_append]
    omega

theorem bind_pure {r : Reader α} (hr : Local k r) (f : α → β) :
    Local k (do return f (← r)) := hr.bind (f := fun a => Pure.pure (f a)) fun a => pure (f a)

/-- What is made of a result was made of one that the first reader gave for the same bytes. -/
theorem reads_of_bind_pure {r : Reader α} (hr : Local k r) {f : α → β} {bs : List UInt8} {b : β}
    (h : Reads (do return f (← r)) bs b) : ∃ a, Reads r bs a ∧ f a = b := by
  obtain ⟨a, j, ha, hb⟩ := Reader.bind_eq_ok.mp h.whole
  obtain ⟨result, rfl⟩ := Prod.mk.inj (Except.ok.inj hb)
  exact ⟨a, hr.reads_of_whole ha, result⟩

theorem inside {r : Reader α} (hr : Local k r) (t : MessageType) (f : Field) :
    Local k (r.inside t f) := by
  intro i a j h
  obtain ⟨bs, hi, hk, hr⟩ := hr i a j (Reader.inside_eq_ok.mp h)
  exact ⟨bs, hi, hk, hr.inside t f⟩

end Local

/-! ### Numbers, bytes and keys -/

theorem Input.varintWithin?_nil (top more : ℕ) : (ofList []).varintWithin? top more = none := by
  rw [varintWithin?.eq_def]
  rfl

theorem Input.varintWithin?_cons (top more : ℕ) (b : UInt8) (cs : List UInt8) :
    (ofList (b :: cs)).varintWithin? top more =
      if b < 128 then
        if more = 0 ∧ top < b.toNat then none else some (b.toNat, ofList cs)
      else match more with
        | 0 => none
        | more + 1 => ((ofList cs).varintWithin? top more).bind fun x =>
          some (b.toNat - 128 + 128 * x.1, x.2) := by
  rw [varintWithin?.eq_def]
  rfl

/-- The bytes are a form of the number in at most `more + 1` bytes, which need not be the shortest;
the last byte that there can be goes up to `top`. -/
inductive IsVarintWithin (top : ℕ) : (more : ℕ) → List UInt8 → ℕ → Prop
  | last {more : ℕ} {b : UInt8} (hb : b < 128) (ht : more = 0 → b.toNat ≤ top) :
      IsVarintWithin top more [b] b.toNat
  | more {more n : ℕ} {b : UInt8} {bs : List UInt8} (hb : ¬ b < 128)
      (h : IsVarintWithin top more bs n) :
      IsVarintWithin top (more + 1) (b :: bs) (b.toNat - 128 + 128 * n)

/-- The bytes are a form of the number in up to ten bytes, the tenth of which holds a single bit. -/
def IsVarint (bs : List UInt8) (n : ℕ) : Prop := IsVarintWithin 1 9 bs n

theorem IsVarintWithin.varintWithin?_eq {top more n : ℕ} {bs : List UInt8}
    (h : IsVarintWithin top more bs n) (rest : List UInt8) :
    (Input.ofList (bs ++ rest)).varintWithin? top more = some (n, .ofList rest) := by
  induction h with
  | last hb ht =>
    rw [List.cons_append, Input.varintWithin?_cons, if_pos hb, if_neg (by omega)]
    rfl
  | more hb _ ih =>
    rw [List.cons_append, Input.varintWithin?_cons, if_neg hb]
    show (Input.varintWithin? top _ (Input.ofList _)).bind _ = _
    rw [ih]
    rfl

theorem Input.isVarintWithin_of_eq_some {top more n : ℕ} {cs : List UInt8} {j : Input}
    (h : (ofList cs).varintWithin? top more = some (n, j)) :
    ∃ bs, cs = bs ++ j.bytes ∧ IsVarintWithin top more bs n := by
  cases cs with
  | nil =>
    rw [varintWithin?_nil] at h
    cases h
  | cons b cs =>
    rw [varintWithin?_cons] at h
    by_cases hb : b < 128
    · rw [if_pos hb] at h
      split_ifs at h with ht
      obtain ⟨rfl, rfl⟩ := Prod.mk.inj (Option.some.inj h)
      exact ⟨[b], rfl, .last hb (by omega)⟩
    · rw [if_neg hb] at h
      cases more with
      | zero => cases h
      | succ more =>
        obtain ⟨x, hx, h⟩ := Option.bind_eq_some_iff.mp h
        obtain ⟨rfl, rfl⟩ := Prod.mk.inj (Option.some.inj h)
        obtain ⟨bs, rfl, hbs⟩ := Input.isVarintWithin_of_eq_some hx
        exact ⟨b :: bs, rfl, .more hb hbs⟩
termination_by more

namespace IsVarint

variable {bs : List UInt8} {n : ℕ}

theorem ne_nil (h : IsVarint bs n) : bs ≠ [] := by
  cases h <;> simp

theorem reads (h : IsVarint bs n) : Reads readVarint bs n := by
  intro rest
  have found : (Input.ofList (bs ++ rest)).varint? = some (n, .ofList rest) :=
    h.varintWithin?_eq rest
  rw [readVarint, found]

end IsVarint

theorem takes_readVarint : Takes IsVarint readVarint := by
  intro i n j h
  rw [i.eq_ofList, readVarint] at h
  split at h
  next x hx =>
    obtain rfl := Except.ok.inj h
    exact Input.isVarintWithin_of_eq_some hx
  next => cases h

/-- The shortest form is one of the forms. -/
theorem isVarint_varint {n : ℕ} (h : n < 2 ^ 64) : IsVarint (varint n) n :=
  takes_readVarint.of_reads (reads_varint h)

theorem local_readVarint : Local 1 readVarint :=
  .of_takes takes_readVarint fun _ _ h => ⟨List.length_pos_of_ne_nil h.ne_nil, h.reads⟩

theorem takes_readBytes (n : ℕ) : Takes (fun bs cs => bs = cs ∧ bs.length = n) (readBytes n) := by
  intro i bs j h
  rw [readBytes, Input.take?] at h
  split_ifs at h with hn
  obtain ⟨rfl, rfl⟩ := Prod.mk.inj (Except.ok.inj h)
  refine ⟨i.bytes.take n, (List.take_append_drop n i.bytes).symm, rfl, ?_⟩
  rw [List.length_take, ← i.size_eq, Nat.min_eq_left hn]

theorem local_readBytes (n : ℕ) : Local n (readBytes n) := by
  refine .of_takes (takes_readBytes n) ?_
  rintro bs _ ⟨rfl, length⟩
  exact ⟨length.ge, reads_bytes length⟩

theorem local_readBlock : Local 1 readBlock :=
  local_readVarint.bind (l := 0) fun n => (local_readBytes n).mono (Nat.zero_le n)

/-- The bytes are a form of the key. -/
structure IsKey (bs : List UInt8) (k : Key) : Prop where
  form : IsVarint bs (8 * k.number + k.type.code)
  pos : 0 < k.number
  lt : k.number < 2 ^ 29

theorem IsKey.reads {bs : List UInt8} {k : Key} (h : IsKey bs k) : Reads readKey bs k :=
  reads_key_of h.form.reads h.pos h.lt

theorem code_of_ofCode? {n : ℕ} {w : WireType} (h : WireType.ofCode? n = some w) : w.code = n := by
  unfold WireType.ofCode? at h
  split at h <;> cases h <;> rfl

theorem takes_readKey : Takes IsKey readKey := by
  intro i k j h
  obtain ⟨n, i', hn, h⟩ := Reader.bind_eq_ok.mp h
  obtain ⟨bs, hi, hbs⟩ := takes_readVarint i n i' hn
  by_cases hlt : 2 ^ 32 ≤ n
  · rw [if_pos hlt] at h
    cases h
  · rw [if_neg hlt] at h
    cases hw : WireType.ofCode? (n % 8) with
    | none =>
      rw [hw] at h
      cases h
    | some w =>
      rw [hw] at h
      change (if n / 8 = 0 then _ else Pure.pure _ : Reader Key) i' = _ at h
      split_ifs at h with hpos
      · cases h
      · obtain ⟨rfl, rfl⟩ := Prod.mk.inj (Except.ok.inj h)
        have whole : 8 * (n / 8) + w.code = n := by
          rw [code_of_ofCode? hw]
          omega
        refine ⟨bs, hi, ?_, Nat.pos_of_ne_zero hpos, Nat.div_lt_of_lt_mul (by omega)⟩
        show IsVarint bs (8 * (n / 8) + w.code)
        rwa [whole]

theorem local_readKey : Local 1 readKey :=
  .of_takes takes_readKey fun _ _ h => ⟨List.length_pos_of_ne_nil h.form.ne_nil, h.reads⟩

/-! ### Loops -/

/-- A loop whose steps are settled goes on in such steps, and it ends where it should if its fuel
covers the bytes. -/
theorem steps_of_readUntil {step : α → Reader α} (hs : ∀ a, Local 1 (step a)) {left fuel : ℕ}
    {a b : α} {i j : Input} (h : readUntil step left fuel a i = .ok (b, j)) :
    ∃ bs, i.bytes = bs ++ j.bytes ∧ Steps step bs a b ∧ (i.size ≤ left + fuel → j.size ≤ left) := by
  induction fuel generalizing a i with
  | zero =>
    obtain ⟨rfl, rfl⟩ := Prod.mk.inj (Except.ok.inj h)
    exact ⟨[], rfl, .nil a, id⟩
  | succ fuel ih =>
    change (if i.size ≤ left then Pure.pure a else _ : Reader α) i = _ at h
    split_ifs at h with hle
    · obtain ⟨rfl, rfl⟩ := Prod.mk.inj (Except.ok.inj h)
      exact ⟨[], rfl, .nil a, fun _ => hle⟩
    · obtain ⟨c, i', hc, h⟩ := Reader.bind_eq_ok.mp h
      obtain ⟨bs, hi, hk, hr⟩ := hs a i c i' hc
      obtain ⟨cs, hi', hcs, hend⟩ := ih h
      refine ⟨bs ++ cs, by rw [hi, hi', List.append_assoc],
        .cons (List.ne_nil_of_length_pos hk) hr hcs, fun hf => hend ?_⟩
      have size : i.size = bs.length + i'.size := by
        rw [i.size_eq, hi, List.length_append, ← i'.size_eq]
      omega

/-- A block that is read is a length, in any form, and steps through so many bytes. -/
theorem frame_of_readFrame {step : α → Reader α} (hs : ∀ a, Local 1 (step a)) {a b : α}
    {i j : Input} (h : readFrame step a i = .ok (b, j)) :
    ∃ ls bs, i.bytes = ls ++ bs ++ j.bytes ∧ IsVarint ls bs.length ∧ Steps step bs a b := by
  rw [readFrame_eq] at h
  obtain ⟨n, i', hn, h⟩ := Reader.bind_eq_ok.mp h
  change (if i'.size < n then Reader.fail .underflow else _ : Reader α) i' = _ at h
  split_ifs at h with hlt
  · cases h
  · obtain ⟨c, j', hc, h⟩ := Reader.bind_eq_ok.mp h
    change (if j'.size = i'.size - n then Pure.pure c else _ : Reader α) j' = _ at h
    split_ifs at h with hend
    · obtain ⟨rfl, rfl⟩ := Prod.mk.inj (Except.ok.inj h)
      obtain ⟨ls, hi, hls⟩ := takes_readVarint i n i' hn
      obtain ⟨bs, hi', hbs, -⟩ := steps_of_readUntil hs hc
      have size : i'.size = bs.length + j'.size := by
        rw [i'.size_eq, hi', List.length_append, ← j'.size_eq]
      obtain rfl : n = bs.length := by omega
      exact ⟨ls, bs, by rw [hi, hi', List.append_assoc], hls, hbs⟩
    · cases h

theorem local_readFrame {step : α → Reader α} (hs : ∀ a, Local 1 (step a)) (a : α) :
    Local 1 (readFrame step a) := by
  intro i b j h
  obtain ⟨ls, bs, hi, hls, hbs⟩ := frame_of_readFrame hs h
  have hpos := List.length_pos_of_ne_nil hls.ne_nil
  refine ⟨ls ++ bs, hi, ?_, hbs.readFrame hls.reads⟩
  rw [List.length_append]
  omega

/-- A group needs no more fuel than it has bytes. -/
theorem skipGroup_settled {skip : Key → Reader Unit} (hs : ∀ k, Local 0 (skip k)) {n fuel : ℕ}
    {i j : Input} (h : skipGroup skip n fuel i = .ok ((), j)) :
    ∃ bs, i.bytes = bs ++ j.bytes ∧
      ∀ fuel', bs.length ≤ fuel' → Reads (skipGroup skip n fuel') bs () := by
  induction fuel generalizing i with
  | zero => cases h
  | succ fuel ih =>
    obtain ⟨k, i', hk, h⟩ := Reader.bind_eq_ok.mp h
    obtain ⟨ks, hi, hlen, hks⟩ := local_readKey i k i' hk
    have pred : ∀ {m}, ks.length ≤ m → ∃ m', m = m' + 1 := fun {m} hm => ⟨m - 1, by omega⟩
    split_ifs at h with hend hnum
    · obtain ⟨-, rfl⟩ := Prod.mk.inj (Except.ok.inj h)
      refine ⟨ks, hi, fun fuel' hf => ?_⟩
      obtain ⟨m, rfl⟩ := pred hf
      rw [← List.append_nil ks]
      refine hks.bind ?_
      rw [if_pos hend, if_pos hnum]
      exact .pure ()
    · cases h
    · obtain ⟨u, i'', hu, h⟩ := Reader.bind_eq_ok.mp h
      obtain ⟨ss, hi', -, hss⟩ := hs k i' u i'' hu
      obtain ⟨gs, hi'', hgs⟩ := ih h
      refine ⟨ks ++ (ss ++ gs), by rw [hi, hi', hi'', List.append_assoc, List.append_assoc],
        fun fuel' hf => ?_⟩
      rw [List.length_append, List.length_append] at hf
      obtain ⟨m, rfl⟩ := pred (Nat.le_of_add_right_le hf)
      refine hks.bind ?_
      rw [if_neg hend]
      exact hss.bind (hgs m (by omega))

theorem local_skip (depth : ℕ) (k : Key) : Local 0 (skip depth k) := by
  induction depth generalizing k with
  | zero => exact .fail _
  | succ depth ih =>
    rw [skip]
    cases k.type with
    | varint => exact (local_readVarint.bind_pure _).mono (Nat.zero_le _)
    | fixed64 => exact ((local_readBytes 8).bind_pure _).mono (Nat.zero_le _)
    | fixed32 => exact ((local_readBytes 4).bind_pure _).mono (Nat.zero_le _)
    | delimited => exact (local_readBlock.bind_pure _).mono (Nat.zero_le _)
    | endGroup => exact .fail _
    | startGroup =>
      intro i u j h
      obtain ⟨bs, hi, hbs⟩ := skipGroup_settled ih h
      refine ⟨bs, hi, Nat.zero_le _, fun rest => ?_⟩
      have enough : bs.length ≤ (bs ++ rest).length := by simp
      exact hbs _ enough rest

/-! ### Fields -/

theorem local_readScalar (s : Scalar) : Local 1 (readScalar s) := by
  cases s with
  | string =>
    unfold readScalar
    refine local_readBlock.bind (l := 0) fun bs => ?_
    split
    · exact .pure _
    · exact .fail _
  | bytes => exact local_readBlock
  | double => exact ((local_readBytes 8).bind_pure _).mono (by decide)
  | _ => exact local_readVarint.bind_pure _

theorem local_expect (w v : WireType) : Local 0 (expect w v) := by
  unfold expect
  split_ifs
  · exact .pure ()
  · exact .fail _

theorem local_readTyped (w : WireType) (s : Scalar) : Local 1 (readTyped w s) :=
  (local_expect w (scalarType s)).bind fun _ => local_readScalar s

theorem local_appendScalar (s : Scalar) (vs : List s.Value) : Local 1 (appendScalar s vs) :=
  (local_readScalar s).bind_pure _

theorem local_mergeSlot {nested : Nested} (hn : ∀ t m, Local 0 (nested t m)) (w : WireType)
    {k : Kind} (s : Slot k) : Local 0 (mergeSlot nested w s) := by
  cases s with
  | required v => exact ((local_readTyped w _).bind_pure _).mono (Nat.zero_le _)
  | optional v => exact ((local_readTyped w _).bind_pure _).mono (Nat.zero_le _)
  | @repeated s packed vs =>
    rw [mergeSlot]
    split_ifs
    · exact ((local_readFrame (local_appendScalar s) vs).bind_pure _).mono (Nat.zero_le _)
    · exact ((local_readTyped w s).bind_pure _).mono (Nat.zero_le _)
  | absent => exact (local_expect w _).bind fun _ => (hn _ _).bind_pure _
  | present m => exact (local_expect w _).bind fun _ => (hn _ _).bind_pure _
  | messages ms => exact (local_expect w _).bind fun _ => (hn _ _).bind_pure _

theorem local_mergeRecord {nested : Nested} (hn : ∀ t m, Local 0 (nested t m))
    {skip : Key → Reader Unit} (hs : ∀ k, Local 0 (skip k)) (owner : MessageType) (k : Key)
    {fs : List Field} (r : Record fs) : Local 0 (mergeRecord nested skip owner k r) := by
  induction fs with
  | nil =>
    cases r
    exact (hs k).bind_pure _
  | cons f fs ih =>
    cases r with
    | cons s r =>
      rw [mergeRecord]
      split_ifs
      · exact ((local_mergeSlot hn k.type s).inside owner f).bind_pure _
      · exact (ih r).bind_pure _

theorem local_mergeField {nested : Nested} (hn : ∀ t m, Local 0 (nested t m)) (n : ℕ)
    {t : MessageType} (m : Message t) : Local 1 (mergeField n nested m) :=
  local_readKey.bind (l := 0) fun k => local_mergeRecord hn (local_skip n) t k m

theorem local_mergeNested (n : ℕ) (t : MessageType) (m : Message t) :
    Local 0 (mergeNested n t m) := by
  induction n generalizing t m with
  | zero => exact .fail _
  | succ n ih => exact (local_readFrame (local_mergeField ih n) m).mono (Nat.zero_le _)

end SchemaReport.Wire
