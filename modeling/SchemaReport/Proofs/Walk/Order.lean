import Mathlib.Data.List.Lex
import SchemaReport.Proofs.Walk

/-! The order of the walk. A message stands at an address, its position among its siblings at every
level from the outermost one on, and the walk visits the messages in the lexicographic order of
their addresses: a message before those nested in it, and those before its next sibling. The visits
are calls one after the other, and the first that fails is the last. -/

namespace SchemaReport

/-! ### Calls in turn -/

section Calls

variable {σ ε α : Type}

/-- Calls `visit` on one item after the other, each with the state that the call before it left,
until a call fails. -/
def callInTurn (visit : σ → α → Except ε Unit × σ) : σ → List α → Except ε Unit × σ
  | s, [] => (.ok (), s)
  | s, a :: as =>
    match visit s a with
    | (.ok (), s') => callInTurn visit s' as
    | (.error e, s') => (.error e, s')

/-- A call as an action that may fail and keeps the state of the caller. -/
def action (visit : σ → α → Except ε Unit × σ) (a : α) : ExceptT ε (StateM σ) Unit :=
  ExceptT.mk fun s => visit s a

@[simp] theorem run_action (visit : σ → α → Except ε Unit × σ) (a : α) (s : σ) :
    (action visit a).run.run s = visit s a := rfl

theorem run_forM_action (visit : σ → α → Except ε Unit × σ) (as : List α) (s : σ) :
    (as.forM (action visit)).run.run s = callInTurn visit s as := by
  induction as generalizing s with
  | nil => rfl
  | cons a as ih =>
    rw [callInTurn]
    simp only [List.forM_eq_forM, List.forM_cons] at ih ⊢
    rw [ExceptT.run_bind, StateT.run_bind, run_action]
    rcases visit s a with ⟨_ | _, s'⟩
    · rfl
    · exact ih s'

theorem callInTurn_append (visit : σ → α → Except ε Unit × σ) (s : σ) (as bs : List α) :
    callInTurn visit s (as ++ bs) =
      match callInTurn visit s as with
      | (.ok (), s') => callInTurn visit s' bs
      | (.error e, s') => (.error e, s') := by
  induction as generalizing s with
  | nil => rfl
  | cons a as ih =>
    rw [List.cons_append, callInTurn, callInTurn]
    rcases visit s a with ⟨_ | _, s'⟩
    · rfl
    · exact ih s'

/-- The calls fail where the first one fails: with its error, and in the state that it leaves. -/
theorem callInTurn_eq_error_iff {visit : σ → α → Except ε Unit × σ} {s s' : σ} {as : List α}
    {e : ε} : callInTurn visit s as = (.error e, s') ↔
      ∃ before a after s₁, as = before ++ a :: after ∧
        callInTurn visit s before = (.ok (), s₁) ∧ visit s₁ a = (.error e, s') := by
  constructor
  · intro h
    induction as generalizing s with
    | nil => cases h
    | cons a as ih =>
      rw [callInTurn] at h
      cases hv : visit s a with
      | mk r s₁ =>
      rw [hv] at h
      cases r with
      | error e' =>
        exact ⟨[], a, as, s, rfl, rfl, hv.trans h⟩
      | ok u =>
        obtain ⟨before, b, after, s₂, rfl, hbefore, hb⟩ := ih h
        refine ⟨a :: before, b, after, s₂, rfl, ?_, hb⟩
        rw [callInTurn, hv]
        exact hbefore
  · rintro ⟨before, a, after, s₁, rfl, hbefore, ha⟩
    rw [callInTurn_append, hbefore]
    simp only [callInTurn, ha]

end Calls

/-! ### Addresses -/

/-- The position among the siblings at every level, from the outermost one on. -/
abbrev Address := List ℕ

namespace MessageDescriptor

/-- The message at an address below `d`. The empty address is that of `d` itself. -/
def at? (d : MessageDescriptor) : Address → Option MessageDescriptor
  | [] => some d
  | i :: a => d.nested[i]?.bind fun c => c.at? a

/-- The message at an address, the first position being one among `ds`. -/
def among? (ds : List MessageDescriptor) : Address → Option MessageDescriptor
  | [] => none
  | i :: a => ds[i]?.bind fun d => d.at? a

/-- The addresses of a message and of everything nested in it. -/
def addresses (d : MessageDescriptor) : List Address :=
  [] :: d.nested.attach.zipIdx.flatMap fun c => c.1.val.addresses.map (c.2 :: ·)
termination_by sizeOf d
decreasing_by exact MessageDescriptor.sizeOf_lt_of_mem_nested c.1.property

/-- The addresses of all messages in a list of siblings. -/
def addressesAmong (ds : List MessageDescriptor) : List Address :=
  ds.zipIdx.flatMap fun c => c.1.addresses.map (c.2 :: ·)

theorem addresses_eq (d : MessageDescriptor) : d.addresses = [] :: addressesAmong d.nested := by
  have numbered : d.nested.zipIdx = d.nested.attach.zipIdx.map (Prod.map Subtype.val id) := by
    rw [← List.zipIdx_map, List.attach_map_subtype_val]
  rw [addresses, addressesAmong, numbered, List.flatMap_map]
  rfl

section Siblings

variable {ds : List MessageDescriptor}

/-- The addresses below one sibling come before those below the next. -/
theorem pairwise_addressesAmong (h : ∀ d ∈ ds, d.addresses.Pairwise (· < ·)) :
    (addressesAmong ds).Pairwise (· < ·) := by
  rw [addressesAmong, List.pairwise_flatMap]
  constructor
  · intro c hc
    rw [List.pairwise_map]
    refine (h c.1 (List.fst_mem_of_mem_zipIdx hc)).imp fun hlt => ?_
    exact List.cons_lt_cons_iff.mpr (.inr ⟨rfl, hlt⟩)
  · have positions : (ds.zipIdx.map Prod.snd).Pairwise (· < ·) := by
      rw [List.zipIdx_map_snd]
      exact List.pairwise_lt_range'
    refine (List.pairwise_map.mp positions).imp fun hlt => ?_
    simp only [List.mem_map]
    rintro _ ⟨a, -, rfl⟩ _ ⟨b, -, rfl⟩
    exact List.cons_lt_cons_iff.mpr (.inl hlt)

theorem mem_addressesAmong_iff (h : ∀ d ∈ ds, ∀ a, a ∈ d.addresses ↔ (d.at? a).isSome)
    (a : Address) : a ∈ addressesAmong ds ↔ (among? ds a).isSome := by
  simp only [addressesAmong, List.mem_flatMap, List.mem_map, List.mem_zipIdx_iff_getElem?]
  cases a with
  | nil => simp [among?]
  | cons i a =>
    constructor
    · rintro ⟨⟨d, j⟩, hd, b, hb, heq⟩
      obtain ⟨rfl, rfl⟩ := List.cons.inj heq
      simp only at hd hb
      simp only [among?, hd, Option.bind_some]
      exact (h d (List.mem_of_getElem? hd) b).mp hb
    · intro hsome
      cases hd : ds[i]? with
      | none => simp [among?, hd] at hsome
      | some d =>
        simp only [among?, hd, Option.bind_some] at hsome
        exact ⟨(d, i), hd, a, (h d (List.mem_of_getElem? hd) a).mpr hsome, rfl⟩

/-- What is collected at the addresses below each sibling is collected at all of them. -/
theorem filterMap_addressesAmong {β : Type} {F : Address → Option β}
    {g : MessageDescriptor → List β}
    (h : ∀ i d, ds[i]? = some d → d.addresses.filterMap (fun a => F (i :: a)) = g d) :
    (addressesAmong ds).filterMap F = ds.flatMap g := by
  have each : ∀ c ∈ ds.zipIdx, (c.1.addresses.map (c.2 :: ·)).filterMap F = g c.1 := by
    intro c hc
    rw [List.filterMap_map]
    exact h c.2 c.1 (List.mem_zipIdx_iff_getElem?.mp hc)
  rw [addressesAmong, List.filterMap_flatMap, List.flatMap_congr each, ← List.flatMap_map,
    List.zipIdx_map_fst]

end Siblings

/-- A message comes before those nested in it, and those come before its next sibling. -/
theorem pairwise_addresses (d : MessageDescriptor) : d.addresses.Pairwise (· < ·) := by
  induction d using nested_induction with
  | step d ih =>
    rw [addresses_eq, List.pairwise_cons]
    refine ⟨fun a ha => ?_, pairwise_addressesAmong ih⟩
    obtain ⟨c, -, ha⟩ := List.mem_flatMap.mp ha
    obtain ⟨b, -, rfl⟩ := List.mem_map.mp ha
    exact List.nil_lt_cons _ _

theorem mem_addresses_iff (d : MessageDescriptor) (a : Address) :
    a ∈ d.addresses ↔ (d.at? a).isSome := by
  induction d using nested_induction generalizing a with
  | step d ih =>
    rw [addresses_eq, List.mem_cons, mem_addressesAmong_iff ih]
    cases a <;> simp [at?, among?]

/-- The names of the messages on the way to an address, that at the address included. -/
def namesTo (root : Address → Option MessageDescriptor) (a : Address) : List String :=
  (a.inits.filterMap root).map name

theorem namesTo_at?_cons {d c : MessageDescriptor} {i : ℕ} (h : d.nested[i]? = some c)
    (a : Address) : namesTo d.at? (i :: a) = d.name :: namesTo c.at? a := by
  simp [namesTo, List.filterMap_map, Function.comp_def, at?, h]

theorem namesTo_among?_cons {ds : List MessageDescriptor} {d : MessageDescriptor} {i : ℕ}
    (h : ds[i]? = some d) (a : Address) : namesTo (among? ds) (i :: a) = namesTo d.at? a := by
  simp [namesTo, List.filterMap_cons, List.filterMap_map, Function.comp_def, among?, h]

theorem paths_eq_filterMap (outer : List String) (d : MessageDescriptor) :
    d.paths outer =
      d.addresses.filterMap fun a => (d.at? a).map fun c => (outer ++ namesTo d.at? a, c) := by
  induction d using nested_induction generalizing outer with
  | step d ih =>
    have below : (addressesAmong d.nested).filterMap
        (fun a => (d.at? a).map fun c => (outer ++ namesTo d.at? a, c)) =
          d.nested.flatMap (paths (outer ++ [d.name])) := by
      refine filterMap_addressesAmong fun i c hc => ?_
      rw [ih c (List.mem_of_getElem? hc)]
      simp [at?, hc, namesTo_at?_cons hc]
    rw [paths_eq, addresses_eq, List.filterMap_cons, below]
    simp [at?, namesTo]

end MessageDescriptor

namespace FileDescriptor

/-- The message at an address. No message stands at the empty one, which is that of the file. -/
def at? (f : FileDescriptor) : Address → Option MessageDescriptor :=
  MessageDescriptor.among? f.messages

/-- The addresses of the messages of a file. -/
def addresses (f : FileDescriptor) : List Address :=
  MessageDescriptor.addressesAmong f.messages

/-- The names of all messages on the way to an address, joined to the package. -/
def nameAt (f : FileDescriptor) (a : Address) : QualifiedName :=
  (MessageDescriptor.namesTo f.at? a).foldl .join (.ofPackage f.package)

theorem preorder_eq_filterMap (f : FileDescriptor) :
    f.preorder = f.addresses.filterMap fun a => (f.at? a).map fun d => (f.nameAt a, d) := by
  have paths : f.paths = f.addresses.filterMap fun a =>
      (f.at? a).map fun d => (MessageDescriptor.namesTo f.at? a, d) := by
    refine (MessageDescriptor.filterMap_addressesAmong fun i d hd => ?_).symm
    rw [d.paths_eq_filterMap]
    simp [at?, MessageDescriptor.among?, hd, MessageDescriptor.namesTo_among?_cons hd]
  rw [preorder_eq_map_paths, paths, List.map_filterMap]
  simp only [Option.map_map]
  rfl

/-- The visits of a walk are calls in turn for the messages of the file. Their order is that of the
addresses: it is strict, so no message comes twice, and there is one for every address at which a
message stands. The walk ends with the first call that fails. -/
theorem walk_calls_in_turn {σ ε : Type} (f : FileDescriptor)
    (visit : σ → QualifiedName × MessageDescriptor → Except ε Unit × σ) (s : σ) :
    let visits := f.addresses.filterMap fun a => (f.at? a).map fun d => (f.nameAt a, d)
    let outcome := (f.walk fun n d => action visit (n, d)).run.run s
    f.addresses.Pairwise (· < ·) ∧ (∀ a, a ∈ f.addresses ↔ (f.at? a).isSome) ∧
    outcome = callInTurn visit s visits ∧
    ∀ e s', outcome = (.error e, s') ↔ ∃ before x after s₁, visits = before ++ x :: after ∧
      callInTurn visit s before = (.ok (), s₁) ∧ visit s₁ x = (.error e, s') := by
  have calls : (f.walk fun n d => action visit (n, d)).run.run s =
      callInTurn visit s
        (f.addresses.filterMap fun a => (f.at? a).map fun d => (f.nameAt a, d)) := by
    rw [walk_eq_forM, preorder_eq_filterMap]
    exact run_forM_action visit _ s
  refine ⟨MessageDescriptor.pairwise_addressesAmong fun d _ => d.pairwise_addresses,
    MessageDescriptor.mem_addressesAmong_iff fun d _ => d.mem_addresses_iff, calls, fun e s' => ?_⟩
  rw [calls]
  exact callInTurn_eq_error_iff

end FileDescriptor

end SchemaReport
