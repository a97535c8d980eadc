import SchemaReport.Proofs.Json.Read

/-! What can be read at all. A message that the reader gives nests no deeper in JSON than the text
that it was read from, and its NaNs are standard ones: texts have no others. So it is one of those
that are read back as they are. -/

namespace SchemaReport

/-- The record is written with at most `n` levels inside its object, and nothing is lost by it. -/
structure Record.Readable (n : ℕ) {fs : List Field} (r : Record fs) : Prop where
  nesting : Json.membersNesting (Json.membersOf r) ≤ n
  standard : r.standard = r

structure Slot.Readable (n : ℕ) {k : Kind} (s : Slot k) : Prop where
  nesting : Json.slotNesting s ≤ n
  standard : s.standard = s

namespace Slot

variable {n : ℕ}

theorem Readable.required {s : Scalar} {v : s.Value} (h : s.standard v = v) :
    (required v).Readable n :=
  ⟨by simp, by rw [Slot.standard, h]⟩

theorem Readable.optional {s : Scalar} {v : s.Value} (h : s.standard v = v) :
    (optional (some v)).Readable n :=
  ⟨by simp, by rw [Slot.standard, Option.map_some, h]⟩

theorem readable_empty : (k : Kind) → (empty k).Readable n
  | .required s => .required (by cases s <;> rfl)
  | .optional _ | .repeated _ _ | .message _ | .messages _ => ⟨Nat.zero_le n, rfl⟩

end Slot

namespace Record

variable {n : ℕ}

theorem readable_cons {f : Field} {fs : List Field} {s : Slot f.kind} {r : Record fs} :
    (cons s r).Readable n ↔ s.Readable n ∧ r.Readable n := by
  constructor
  · rintro ⟨hn, hs⟩
    rw [Json.membersNesting_cons, Nat.max_le] at hn
    rw [standard, cons.injEq] at hs
    exact ⟨⟨hn.1, hs.1⟩, hn.2, hs.2⟩
  · rintro ⟨hs, hr⟩
    refine ⟨?_, by rw [standard, hs.standard, hr.standard]⟩
    rw [Json.membersNesting_cons]
    exact Nat.max_le.mpr ⟨hs.nesting, hr.nesting⟩

theorem readable_empty : (fs : List Field) → (empty fs).Readable n
  | [] => ⟨Nat.zero_le n, rfl⟩
  | f :: fs => readable_cons.mpr ⟨Slot.readable_empty f.kind, readable_empty fs⟩

end Record

namespace Json

variable {α β : Type}

/-! ### What readers give -/

/-- What is given, if anything is, satisfies `P`. -/
def Gives (P : α → Prop) (x : ReadResult α) : Prop := ∀ a, x = .ok a → P a

namespace Gives

variable {P : α → Prop} {Q : β → Prop}

theorem ok {a : α} (h : P a) : Gives P (.ok a) := by
  rintro b ⟨⟩
  exact h

theorem fail (e : ReadError) : Gives P (.error e) := by
  rintro b ⟨⟩

theorem bind {x : ReadResult α} {f : α → ReadResult β} (hx : Gives P x)
    (hf : ∀ a, P a → Gives Q (f a)) : Gives Q (x >>= f) := by
  cases h : x with
  | error e => exact fail e
  | ok a => exact hf a (hx a h)

theorem of_bind {x : ReadResult α} {f : α → ReadResult β} (hf : ∀ a, Gives Q (f a)) :
    Gives Q (x >>= f) :=
  bind (fun _ _ => trivial : Gives (fun _ => True) x) fun a _ => hf a

theorem mapM {item : Draft → ReadResult α} (h : ∀ d, Gives P (item d)) (ds : List Draft) :
    Gives (∀ a ∈ ·, P a) (ds.mapM item) := by
  induction ds with
  | nil => exact ok (by simp)
  | cons d ds ih =>
    rw [List.mapM_cons]
    exact (h d).bind fun a ha => ih.bind fun as has => ok (List.forall_mem_cons.mpr ⟨ha, has⟩)

theorem orFault {a : α} (h : P a) (f? : Option Fault) : Gives P (orFault a f?) := by
  cases f? with
  | none => exact ok h
  | some f => exact fail _

end Gives

/-! ### Scalars -/

theorem isNaN_of_decimalDouble? {negative : Bool} {c : ℕ} {k : ℤ} {d : Double}
    (h : decimalDouble? negative c k = some d) : d.isNaN = false := by
  change (if _ then none else some (Double.ofMagnitude negative _)) = _ at h
  split_ifs at h
  obtain rfl := Option.some.inj h
  exact Double.isNaN_ofMagnitude _ (Double.roundDecimal_le _ _)

theorem isNaN_of_number? {n : Numeral} {d : Double} (h : n.number? = some (.double d)) :
    d.isNaN = false := by
  have nearest {negative : Bool} {c : ℕ} {k : ℤ}
      (h : (decimalDouble? negative c k).map Number.double = some (.double d)) :
      d.isNaN = false := by
    obtain ⟨x, hx, hxd⟩ := Option.map_eq_some_iff.mp h
    obtain rfl := Number.double.inj hxd
    exact isNaN_of_decimalDouble? hx
  unfold Numeral.number? at h
  split at h
  · split_ifs at h
    · cases h
    · exact nearest h
  · split_ifs at h
    · cases h
    · exact nearest h
  · exact nearest h

theorem isNaN_of_found {d : Draft} {x : Double} (h : d.found = .ok (.number (.double x))) :
    x.isNaN = false := by
  obtain ⟨n, -, hn⟩ := exists_of_found_number h
  exact isNaN_of_number? hn

theorem standard_of_doubleOfText? {s : String} {d : Double} (h : doubleOfText? s = some d) :
    d.standard = d := by
  unfold doubleOfText? at h
  split_ifs at h <;> obtain rfl := Option.some.inj h <;> rfl

theorem isNaN_of_doubleOfInt? {i : ℤ} {d : Double} (h : doubleOfInt? i = some d) :
    d.isNaN = false := by
  unfold doubleOfInt? at h
  split_ifs at h
  · exact Double.isNaN_of_lossless? h
  · exact Double.isNaN_of_lossless? h

theorem standard_of_fit {s : Scalar} {f : Found} {v : s.Value}
    (hf : ∀ x, f = .number (.double x) → x.isNaN = false) (h : fit s f = some (some v)) :
    s.standard v = v := by
  cases s with
  | double =>
    show Double.standard v = v
    cases f with
    | number n =>
      cases n with
      | int i => exact Double.standard_of_isNaN_eq_false (isNaN_of_doubleOfInt? (Option.some.inj h))
      | double d =>
        obtain rfl := Option.some.inj (Option.some.inj h)
        exact Double.standard_of_isNaN_eq_false (hf d rfl)
    | text t => exact standard_of_doubleOfText? (Option.some.inj h)
    | _ => cases h
  | _ => rfl

theorem readScalar_gives (depth : ℕ) (s : Scalar) (d : Draft) :
    Gives (fun v => s.standard v = v) (readScalar depth s d) := by
  unfold readScalar
  cases hf : d.found with
  | error e => exact .fail _
  | ok f =>
    show Gives _ (if _ then _ else _)
    split_ifs
    · exact .fail _
    · unfold scalarOf
      split
      next v hv => exact .ok (standard_of_fit (fun x hx => isNaN_of_found (hx ▸ hf)) hv)
      next => exact .fail _
      next => exact .fail _

/-! ### Slots -/

/-- Nested messages are given with at most `n` levels. -/
structure GivesReadable (n : ℕ) (nested : Nested) : Prop where
  one : ∀ (t : MessageType) (d : Draft),
    Gives (fun m => (ofMessage m).nesting ≤ n ∧ m.standard = m) (nested.one t d)
  list : ∀ (t : MessageType) (d : Draft),
    Gives (fun ms => (Value.array (ms.map ofMessage)).nesting ≤ n ∧ ∀ m ∈ ms, m.standard = m)
      (nested.list t d)

theorem readList_gives (n : ℕ) (s : Scalar) (d : Draft) :
    Gives (fun vs => 1 ≤ n ∧ ∀ v ∈ vs, s.standard v = v)
      (readList n (fun depth => readScalar depth s) d) := by
  unfold readList
  split
  next => exact .fail _
  next n ds stop =>
    exact (Gives.mapM (readScalar_gives n s) ds).bind fun vs hvs =>
      .orFault ⟨Nat.le_add_left 1 n, hvs⟩ _
  next => exact .of_bind fun _ => .fail _

theorem slotNesting_messages_le {t : MessageType} (ms : List (Message t)) :
    slotNesting (.messages (.ofList ms)) ≤ (Value.array (ms.map ofMessage)).nesting := by
  cases ms with
  | nil => exact Nat.zero_le _
  | cons m ms =>
    rw [Messages.ofList, slotNesting_messages_cons, itemsOf_eq_map, Messages.toList,
      Messages.toList_ofList]
    rfl

theorem standard_ofList {t : MessageType} {ms : List (Message t)}
    (h : ∀ m ∈ ms, Record.standard m = m) : (Messages.ofList ms).standard = .ofList ms := by
  rw [← ofList_map_standard, Messages.toList_ofList, List.map_congr_left h, List.map_id']

theorem readSlot_gives {n : ℕ} {nested : Nested} (hn : GivesReadable n nested) (d : Draft)
    (k : Kind) : Gives (Slot.Readable n) (readSlot n nested d k) := by
  cases k with
  | required s => exact (readScalar_gives n s d).bind fun v hv => .ok (.required hv)
  | optional s =>
    rw [readSlot.eq_def]
    dsimp only
    split
    · exact .ok (Slot.readable_empty _)
    · exact (readScalar_gives n s d).bind fun v hv => .ok (.optional hv)
  | repeated s packed =>
    refine (readList_gives n s d).bind fun vs hvs => .ok ⟨?_, ?_⟩
    · exact (slotNesting_repeated_le vs).trans hvs.1
    · rw [Slot.standard, List.map_congr_left hvs.2, List.map_id']
  | message t =>
    rw [readSlot.eq_def]
    dsimp only
    split
    · exact .ok (Slot.readable_empty _)
    · refine (hn.one t d).bind fun m hm => .ok ⟨hm.1, ?_⟩
      rw [Slot.standard, hm.2]
  | messages t =>
    refine (hn.list t d).bind fun ms hms => .ok ⟨?_, ?_⟩
    · exact (slotNesting_messages_le ms).trans hms.1
    · rw [Slot.standard, standard_ofList hms.2]

/-! ### Messages -/

section

variable {n : ℕ} {slot : Draft → (k : Kind) → ReadResult (Slot k)}
  (hs : ∀ d k, Gives (Slot.Readable n) (slot d k))

include hs

theorem readMember_gives (key : String) (d : Draft) {fs : List Field} {r : Record fs}
    (hr : r.Readable n) {x : ReadResult (Record fs)} (h : readMember slot key d r = some x) :
    Gives (Record.Readable n) x := by
  induction fs with
  | nil =>
    cases r
    cases h
  | cons f fs ih =>
    cases r with
    | cons s r =>
      obtain ⟨hslot, hr⟩ := Record.readable_cons.mp hr
      rw [readMember] at h
      split_ifs at h
      · obtain rfl := Option.some.inj h
        exact (hs d f.kind).bind fun s hslot => .ok (Record.readable_cons.mpr ⟨hslot, hr⟩)
      · obtain ⟨y, hy, rfl⟩ := Option.map_eq_some_iff.mp h
        exact (ih hr hy).bind fun r hr => .ok (Record.readable_cons.mpr ⟨hslot, hr⟩)

theorem readMembers_gives (stop : ObjectEnd) {fs : List Field} (seen : List String)
    {r : Record fs} (hr : r.Readable n) (ms : List (Literal × Draft)) :
    Gives (Record.Readable n) (readMembers slot stop seen r ms) := by
  induction ms generalizing seen r with
  | nil => exact .of_bind fun _ => .ok hr
  | cons m ms ih =>
    obtain ⟨k, d⟩ := m
    rw [readMembers]
    refine .of_bind fun key => ?_
    split
    next x hx => exact (readMember_gives hs key d hr hx).bind fun r hr => ih _ hr
    next =>
      split
      · exact ih _ hr
      · exact .fail _

theorem readItems_gives (stop : ArrayEnd) (fs : List Field) (ds : List Draft) :
    Gives (Record.Readable n) (readItems slot stop fs ds) := by
  induction fs generalizing ds with
  | nil =>
    cases ds with
    | nil => exact .orFault (Record.readable_empty []) _
    | cons d ds => exact .fail _
  | cons f fs ih =>
    cases ds with
    | nil => exact .orFault (Record.readable_empty _) _
    | cons d ds =>
      exact (hs d f.kind).bind fun s hslot => (ih ds).bind fun r hr =>
        .ok (Record.readable_cons.mpr ⟨hslot, hr⟩)

end

theorem itemsNesting_le_of_forall {n : ℕ} {vs : List Value} (h : ∀ v ∈ vs, v.nesting ≤ n) :
    itemsNesting vs ≤ n := by
  induction vs with
  | nil => exact Nat.zero_le n
  | cons v vs ih => exact Nat.max_le.mpr ⟨h v (by simp), ih fun w hw => h w (by simp [hw])⟩

/-- Every level of the message was a level of the text: a level that the reader has spent is one that
the writer may spend again. -/
theorem givesReadable (n : ℕ) : GivesReadable n ⟨readMessage n, readMessages n⟩ := by
  induction n with
  | zero =>
    constructor
    · intro t d
      cases d with
      | array | object => exact .fail _
      | _ => exact .of_bind fun _ => .fail _
    · intro t d
      cases d with
      | array => exact .fail _
      | _ => exact .of_bind fun _ => .fail _
  | succ n ih =>
    -- An array of fields is written as an object, which costs the same level.
    have inside {t : MessageType} {x : ReadResult (Message t)} (h : Gives (Record.Readable n) x) :
        Gives (fun m => (ofMessage m).nesting ≤ n + 1 ∧ m.standard = m) x :=
      fun m hm => ⟨Nat.succ_le_succ (h m hm).nesting, (h m hm).standard⟩
    constructor
    · intro t d
      cases d with
      | array ds stop => exact inside (readItems_gives (readSlot_gives ih) stop t.fields ds)
      | object ms stop =>
        exact inside (readMembers_gives (readSlot_gives ih) stop [] (Record.readable_empty _) ms)
      | _ => exact .of_bind fun _ => .fail _
    · intro t d
      cases d with
      | array ds stop =>
        refine (Gives.mapM (ih.one t) ds).bind fun ms hms => .orFault ⟨?_, ?_⟩ _
        · refine Nat.succ_le_succ (itemsNesting_le_of_forall fun v hv => ?_)
          obtain ⟨m, hm, rfl⟩ := List.mem_map.mp hv
          exact (hms m hm).1
        · exact fun m hm => (hms m hm).2
      | _ => exact .of_bind fun _ => .fail _

/-- What is read from a text is read back from what is written for it, in any layout. -/
theorem read_gives (t : MessageType) (cs : List Char) :
    Gives (fun m => (ofMessage m).nesting ≤ depthLimit ∧ m.standard = m) (read t cs) := by
  unfold read
  refine ((givesReadable depthLimit).one t _).bind fun m hm => ?_
  dsimp only
  split_ifs
  · exact .ok hm
  · exact .fail _

theorem read_write_of_read {t : MessageType} {cs : List Char} {m : Message t}
    (h : read t cs = .ok m) (l : Layout) : read t (write l m ++ ['\n']) = .ok m := by
  obtain ⟨levels, standard⟩ := read_gives t cs m h
  have back := read_write l m
  rw [write, nesting_print, within, if_pos levels, standard] at back
  exact back

/-- Messages stand about half as deep as arrays and objects may nest in a text. -/
theorem depth_of_read {t : MessageType} {cs : List Char} {m : Message t}
    (h : read t cs = .ok m) : 2 * Record.depth m < depthLimit + t.singles := by
  obtain ⟨levels, -⟩ := read_gives t cs m h
  have below := two_mul_depth_lt_nesting m
  omega

end Json

end SchemaReport
