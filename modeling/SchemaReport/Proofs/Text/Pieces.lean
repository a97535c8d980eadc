import Mathlib.Data.List.DropRight
import Mathlib.Data.List.TakeWhile
import SchemaReport.Text.Basic

/-! Texts in pieces. Pieces are put together with separators between them, and a text is cut at its
separators again. What is left of a piece without the characters of a kind at its ends is the one
part of it that stands between such characters and has none of them at its own ends. -/

namespace SchemaReport

variable {α : Type}

/-! ### Separators -/

theorem intercalate_append_singleton (sep : List α) (ls : List (List α)) (l : List α) :
    sep.intercalate (ls ++ [l]) = ls.flatMap (· ++ sep) ++ l := by
  induction ls with
  | nil => simp
  | cons m ls ih =>
    rw [List.cons_append, List.intercalate_cons_of_ne_nil (by simp), ih, List.flatMap_cons,
      List.append_assoc, List.append_assoc, List.append_assoc]

theorem intercalate_concat {sep : List α} {ls : List (List α)} (hne : ls ≠ []) (l : List α) :
    sep.intercalate (ls ++ [l]) = sep.intercalate ls ++ sep ++ l := by
  obtain ⟨before, last, rfl⟩ := (List.eq_nil_or_concat' ls).resolve_left hne
  rw [intercalate_append_singleton, intercalate_append_singleton, List.flatMap_append,
    List.flatMap_singleton, List.append_assoc (before.flatMap _) last sep]

theorem intercalate_eq_nil_iff {sep : List α} {ls : List (List α)} (h : ∀ l ∈ ls, l ≠ []) :
    sep.intercalate ls = [] ↔ ls = [] := by
  constructor
  · intro hnil
    cases ls with
    | nil => rfl
    | cons l ls =>
      refine absurd ?_ (h l (by simp))
      cases ls with
      | nil => rwa [List.intercalate_singleton] at hnil
      | cons l' ls =>
        rw [List.intercalate_cons_cons, List.append_eq_nil_iff, List.append_eq_nil_iff] at hnil
        exact hnil.1.1
  · rintro rfl
    rfl

section Cut

variable [BEq α] [LawfulBEq α] {a : α}

/-- No piece holds the separator. -/
theorem notMem_of_mem_splitOn {xs l : List α} (h : l ∈ xs.splitOn a) : a ∉ l := by
  induction xs generalizing l with
  | nil => simp_all
  | cons x xs ih =>
    rw [List.splitOn_cons_eq_if_modifyHead] at h
    split_ifs at h with hx
    · obtain rfl | h := List.mem_cons.mp h
      · exact List.not_mem_nil
      · exact ih h
    · obtain ⟨m, ms, hm⟩ := List.exists_cons_of_ne_nil (List.splitOn_ne_nil a xs)
      rw [hm] at h ih
      obtain rfl | h := List.mem_cons.mp h
      · have hne : a ≠ x := fun e => hx (by simp [e])
        simp [hne, ih List.mem_cons_self]
      · exact ih (List.mem_cons_of_mem _ h)

/-- What holds of the separator holds of all pieces if it holds of the whole. -/
theorem forall_mem_splitOn {P : α → Prop} (ha : P a) (xs : List α) :
    (∀ l ∈ xs.splitOn a, ∀ c ∈ l, P c) ↔ ∀ c ∈ xs, P c := by
  induction xs with
  | nil => simp
  | cons x xs ih =>
    rw [List.forall_mem_cons, ← ih, List.splitOn_cons_eq_if_modifyHead]
    split_ifs with hx
    · obtain rfl := eq_of_beq hx
      simp [ha]
    · obtain ⟨m, ms, hm⟩ := List.exists_cons_of_ne_nil (List.splitOn_ne_nil a xs)
      simp [hm, and_assoc]

/-- Without a separator there is one piece. -/
theorem splitOn_of_notMem {xs : List α} (h : a ∉ xs) : xs.splitOn a = [xs] := by
  have alone : ∀ l ∈ [xs], a ∉ l := by simpa using h
  have cut := List.splitOn_intercalate a alone (List.cons_ne_nil _ _)
  rwa [List.intercalate_singleton] at cut

theorem splitOn_append_cons {xs : List α} (h : a ∉ xs) (ys : List α) :
    (xs ++ a :: ys).splitOn a = xs :: ys.splitOn a := by
  have pieces : ∀ l ∈ xs :: ys.splitOn a, a ∉ l :=
    List.forall_mem_cons.mpr ⟨h, fun _ => notMem_of_mem_splitOn⟩
  have cut := List.splitOn_intercalate a pieces (List.cons_ne_nil _ _)
  rwa [List.intercalate_cons_of_ne_nil (List.splitOn_ne_nil a ys), List.intercalate_splitOn,
    List.append_assoc, List.singleton_append] at cut

/-- Pieces that are not empty and do not hold the separator can be told from what they are put
together to. -/
theorem intercalate_inj {ls ms : List (List α)} (hl : ∀ l ∈ ls, l ≠ [] ∧ a ∉ l)
    (hm : ∀ m ∈ ms, m ≠ [] ∧ a ∉ m) : [a].intercalate ls = [a].intercalate ms ↔ ls = ms := by
  refine ⟨fun same => ?_, congrArg _⟩
  rcases eq_or_ne ls [] with rfl | hls
  · exact ((intercalate_eq_nil_iff fun m h => (hm m h).1).mp same.symm).symm
  · have hms : ms ≠ [] := by
      rintro rfl
      exact hls ((intercalate_eq_nil_iff fun l h => (hl l h).1).mp same)
    calc ls = ([a].intercalate ls).splitOn a :=
          (List.splitOn_intercalate a (fun l h => (hl l h).2) hls).symm
      _ = ([a].intercalate ms).splitOn a := by rw [same]
      _ = ms := List.splitOn_intercalate a (fun m h => (hm m h).2) hms

end Cut

/-! ### The ends of a piece -/

namespace Text

variable {p : Char → Bool} {cs core : List Char}

/-- `core` stands in `cs` between characters of a kind, and it has none of them at its ends. -/
structure IsCore (p : Char → Bool) (cs core : List Char) : Prop where
  between : ∃ front back, cs = front ++ core ++ back ∧ (∀ c ∈ front, p c) ∧ ∀ c ∈ back, p c
  first : ∀ c ∈ core.head?, p c = false
  last : ∀ c ∈ core.getLast?, p c = false

theorem head?_dropWhile {c : Char} (h : c ∈ (cs.dropWhile p).head?) : p c = false := by
  rw [← List.find?_not_eq_head?_dropWhile, Option.mem_def] at h
  simpa using List.find?_some h

theorem isCore_trimBoth (p : Char → Bool) (cs : List Char) : IsCore p cs (trimBoth p cs) where
  between := by
    refine ⟨cs.takeWhile p, (cs.dropWhile p).rtakeWhile p, ?_, fun _ => List.mem_takeWhile_imp,
      fun _ => List.mem_rtakeWhile_imp⟩
    rw [List.append_assoc]
    exact List.takeWhile_append_dropWhile.symm.trans
      (congrArg _ List.rdropWhile_append_rtakeWhile.symm)
  first := by
    intro c hc
    obtain ⟨back, hb⟩ := List.rdropWhile_prefix p (cs.dropWhile p)
    have hc' : ((cs.dropWhile p).rdropWhile p).head? = some c := hc
    have head : c ∈ (cs.dropWhile p).head? := by
      rw [← hb]
      simp [hc']
    exact head?_dropWhile head
  last := by
    intro c hc
    rw [trimBoth, trimEnd, List.getLast?_reverse] at hc
    exact head?_dropWhile hc

/-- There is only one way to cut off the ends. -/
theorem IsCore.trimBoth_eq (h : IsCore p cs core) : trimBoth p cs = core := by
  obtain ⟨⟨front, back, rfl, hfront, hback⟩, first, last⟩ := h
  have keep : ∀ {ds : List Char}, (∀ c ∈ ds.head?, p c = false) → ds ≠ [] →
      ∀ rest, (ds ++ rest).dropWhile p = ds ++ rest := by
    intro ds hd hne rest
    obtain ⟨d, ds, rfl⟩ := List.exists_cons_of_ne_nil hne
    exact List.dropWhile_cons_of_neg (by simp [hd d (by simp)])
  rw [List.append_assoc, trimBoth, List.dropWhile_append_of_pos hfront]
  rcases eq_or_ne core [] with rfl | hne
  · rw [List.nil_append, List.dropWhile_eq_nil_iff.mpr hback]
    rfl
  · have hback' : ∀ c ∈ back.reverse, p c = true := fun c hc => hback c (List.mem_reverse.mp hc)
    have last' : ∀ c ∈ core.reverse.head?, p c = false := by simpa using last
    have tail := keep last' (by simpa using hne) []
    rw [List.append_nil] at tail
    rw [keep first hne _, trimEnd, List.reverse_append, List.dropWhile_append_of_pos hback', tail,
      List.reverse_reverse]

theorem trimBoth_eq_iff : trimBoth p cs = core ↔ IsCore p cs core :=
  ⟨fun h => h ▸ isCore_trimBoth p cs, IsCore.trimBoth_eq⟩

theorem trimBoth_eq_self_iff : trimBoth p cs = cs ↔
    (∀ c ∈ cs.head?, p c = false) ∧ ∀ c ∈ cs.getLast?, p c = false := by
  rw [trimBoth_eq_iff]
  constructor
  · exact fun h => ⟨h.first, h.last⟩
  · exact fun h => ⟨⟨[], [], by simp⟩, h.1, h.2⟩

theorem trimBoth_eq_self (h : ∀ c ∈ cs, p c = false) : trimBoth p cs = cs :=
  trimBoth_eq_self_iff.mpr
    ⟨fun c hc => h c (List.mem_of_mem_head? hc), fun c hc => h c (List.mem_of_mem_getLast? hc)⟩

theorem trim_eq_self (h : ∀ c ∈ cs, isBlank c = false) : trim cs = cs := trimBoth_eq_self h

theorem trimBoth_eq_nil_iff : trimBoth p cs = [] ↔ ∀ c ∈ cs, p c = true := by
  rw [trimBoth_eq_iff]
  constructor
  · rintro ⟨⟨front, back, rfl, hfront, hback⟩, -, -⟩ c hc
    rw [List.append_nil, List.mem_append] at hc
    exact hc.elim (hfront c) (hback c)
  · exact fun h => ⟨⟨cs, [], by simpa using h⟩, by simp, by simp⟩

theorem length_trimBoth_le (p : Char → Bool) (cs : List Char) :
    (trimBoth p cs).length ≤ cs.length := by
  obtain ⟨front, back, h, -, -⟩ := (isCore_trimBoth p cs).between
  have := congrArg List.length h
  simp only [List.length_append] at this
  omega

end Text

end SchemaReport
