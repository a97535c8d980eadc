import Mathlib.Data.List.Infix
import SchemaReport.Proofs.Text.Pieces
import SchemaReport.QualifiedName

/-! Names step by step. The name of a path of scopes is what comes of joining one scope after the
other to the name of the package, as long as each of them counts as a segment and keeps all of its
characters. The package may be any text: dots too many in it are dropped before the first step.
Joining drops nothing, so the joined name is never the shorter one, and once it is longer it stays
longer; that makes the condition exact, but for empty segments at the root scope. -/

namespace SchemaReport

/-- The text neither begins nor ends with a dot. -/
def NoDotAtEnds (s : String) : Prop :=
  s.toList.head? ≠ some '.' ∧ s.toList.getLast? ≠ some '.'

instance (s : String) : Decidable (NoDotAtEnds s) :=
  inferInstanceAs (Decidable (_ ∧ _))

/-- The text is a segment by itself: not empty, and without a dot at either end. -/
def IsSegment (s : String) : Prop :=
  s ≠ "" ∧ s.toList.head? ≠ some '.' ∧ s.toList.getLast? ≠ some '.'

instance (s : String) : Decidable (IsSegment s) :=
  inferInstanceAs (Decidable (_ ∧ _ ∧ _))

/-- A segment as far as it counts. -/
def trimDots (s : String) : String := String.ofList (Text.trimBoth (· = '.') s.toList)

theorem trimDots_eq_self_iff {s : String} : trimDots s = s ↔ NoDotAtEnds s := by
  have noDot : ∀ o : Option Char, (∀ c ∈ o, decide (c = '.') = false) ↔ o ≠ some '.' := by
    intro o
    cases o <;> simp
  rw [trimDots, ← String.toList_inj, String.toList_ofList, Text.trimBoth_eq_self_iff, noDot, noDot,
    NoDotAtEnds]

theorem length_trimDots_le (s : String) : (trimDots s).length ≤ s.length := by
  rw [trimDots, String.length_ofList, ← String.length_toList]
  exact Text.length_trimBoth_le _ _

namespace QualifiedName

theorem ne_nil_of_mem_kept {package : String} {segments : List String} {cs : List Char}
    (h : cs ∈ kept package segments) : cs ≠ [] := by
  simpa using (List.mem_filter.mp h).2

theorem kept_concat (package : String) (segments : List String) (name : String) :
    kept package (segments ++ [name]) = kept package segments ++
      if trimDots name = "" then [] else [(trimDots name).toList] := by
  have counts : [Text.trimBoth (· = '.') name.toList].filter (· ≠ []) =
      if trimDots name = "" then [] else [(trimDots name).toList] := by
    rw [trimDots, String.toList_ofList]
    by_cases h : Text.trimBoth (· = '.') name.toList = []
    · simp [h]
    · simp [h]
  simp only [kept, List.map_append, List.map_cons, List.map_nil, List.filter_append, ← counts,
    ← List.append_assoc]

theorem toList_text_ofSegments (package : String) (segments : List String) :
    (ofSegments package segments).text.toList =
      '.' :: ['.'].intercalate (kept package segments) := by
  rw [ofSegments, String.toList_ofList]

/-! ### The root scope -/

section

variable {n : QualifiedName}

theorem toList_dot : ".".toList = ['.'] := rfl

theorem exists_text_eq (n : QualifiedName) : ∃ s, n.text = "." ++ s := by
  obtain ⟨cs, hcs⟩ := List.head?_eq_some_iff.mp n.head?_text
  refine ⟨String.ofList cs, ?_⟩
  rw [← String.toList_inj, hcs, String.toList_append, toList_dot, String.toList_ofList,
    List.singleton_append]

theorem length_text_pos (n : QualifiedName) : 0 < n.text.length := by
  obtain ⟨s, hs⟩ := n.exists_text_eq
  rw [hs, String.length_append]
  exact Nat.add_pos_left Nat.one_pos _

/-- The root scope is the only one whose name is that short. -/
theorem length_text_le_one_iff : n.text.length ≤ 1 ↔ n.text = "." := by
  constructor
  · intro short
    obtain ⟨s, hs⟩ := n.exists_text_eq
    have dot : ".".length = 1 := rfl
    rw [hs, String.length_append, dot] at short
    have empty : s = "" := String.length_eq_zero_iff.mp (by omega)
    rw [hs, empty]
    rfl
  · intro h
    rw [h]
    rfl

theorem utf8ByteSize_text_eq_one_iff : n.text.utf8ByteSize = 1 ↔ n.text = "." := by
  constructor
  · intro short
    obtain ⟨s, hs⟩ := n.exists_text_eq
    have dot : ".".utf8ByteSize = 1 := rfl
    rw [hs, String.utf8ByteSize_append, dot, Nat.add_eq_left, String.utf8ByteSize_eq_zero_iff]
      at short
    rw [hs, short]
    rfl
  · intro h
    rw [h]
    rfl

theorem text_join (n : QualifiedName) (s : String) :
    (n.join s).text = if n.text = "." then "." ++ s else n.text ++ "." ++ s := by
  simp only [join, utf8ByteSize_text_eq_one_iff]

theorem length_text_join (n : QualifiedName) (s : String) :
    (n.join s).text.length =
      if n.text = "." then 1 + s.length else n.text.length + 1 + s.length := by
  rw [text_join]
  split_ifs
  · exact String.length_append _ _
  · rw [String.length_append, String.length_append]
    rfl

theorem text_join_eq_dot_iff {s : String} : (n.join s).text = "." ↔ n.text = "." ∧ s = "" := by
  have pos := n.length_text_pos
  rw [← length_text_le_one_iff, length_text_join]
  split_ifs with h
  · rw [and_iff_right h, ← String.length_eq_zero_iff]
    omega
  · simp only [h, false_and, iff_false]
    omega

theorem text_foldl_join_eq_dot_iff {segments : List String} :
    (segments.foldl join n).text = "." ↔ n.text = "." ∧ ∀ s ∈ segments, s = "" := by
  induction segments generalizing n with
  | nil => simp
  | cons s segments ih => simp [ih, text_join_eq_dot_iff, and_assoc]

theorem text_ofSegments_eq_dot_iff {package : String} {segments : List String} :
    (ofSegments package segments).text = "." ↔ kept package segments = [] := by
  rw [← String.toList_inj, toList_text_ofSegments, toList_dot, List.cons_inj_right]
  exact intercalate_eq_nil_iff fun _ => ne_nil_of_mem_kept

/-- The scope of a package is the root scope if the package consists of dots only. -/
theorem text_ofPackage_eq_dot_iff {package : String} :
    (ofPackage package).text = "." ↔ ∀ c ∈ package.toList, c = '.' := by
  rw [ofPackage, text_ofSegments_eq_dot_iff, ← forall_mem_splitOn (P := (· = '.')) rfl]
  simp [kept, List.filter_eq_nil_iff, Text.trimBoth_eq_nil_iff]

end

/-! ### One more segment -/

/-- The element `name` of this scope, if anything of the name counts. -/
def joinTrimmed (n : QualifiedName) (name : String) : QualifiedName :=
  if trimDots name = "" then n else n.join (trimDots name)

/-- The name of a longer path is the name of the path joined with what counts of the segment that
it has more. -/
theorem ofSegments_append_singleton (package : String) (segments : List String) (name : String) :
    ofSegments package (segments ++ [name]) = (ofSegments package segments).joinTrimmed name := by
  unfold joinTrimmed
  ext1
  split_ifs with hname
  · rw [← String.toList_inj, toList_text_ofSegments, toList_text_ofSegments, kept_concat,
      if_pos hname, List.append_nil]
  · rw [text_join, ← String.toList_inj, toList_text_ofSegments, kept_concat, if_neg hname]
    by_cases hk : kept package segments = []
    · rw [if_pos (text_ofSegments_eq_dot_iff.mpr hk), hk, List.nil_append,
        List.intercalate_singleton, String.toList_append, toList_dot, List.singleton_append]
    · rw [if_neg (mt text_ofSegments_eq_dot_iff.mp hk), intercalate_concat hk,
        String.toList_append, String.toList_append, toList_text_ofSegments, toList_dot]
      simp only [List.cons_append, List.append_assoc]

theorem joinTrimmed_of_isSegment (n : QualifiedName) {name : String} (h : IsSegment name) :
    n.joinTrimmed name = n.join name := by
  rw [joinTrimmed, trimDots_eq_self_iff.mpr h.2, if_neg h.1]

theorem ofSegments_concat (package : String) (segments : List String) {name : String}
    (h : IsSegment name) :
    ofSegments package (segments ++ [name]) = (ofSegments package segments).join name := by
  rw [ofSegments_append_singleton, joinTrimmed_of_isSegment _ h]

/-- Joining the segments of a path to a package gives the name of the path. -/
theorem foldl_join_eq_ofSegments (package : String) {segments : List String}
    (h : ∀ s ∈ segments, IsSegment s) :
    segments.foldl join (ofPackage package) = ofSegments package segments := by
  induction segments using List.reverseRecOn with
  | nil => rfl
  | append_singleton segments name ih =>
    rw [List.foldl_append, ih fun s hs => h s (by simp [hs]),
      ofSegments_concat package segments (h name (by simp))]
    rfl

/-! ### The longer name -/

section Step

variable {n j : QualifiedName} {s t : String}

theorem length_text_le_join (n : QualifiedName) (s : String) :
    n.text.length ≤ (n.join s).text.length := by
  rw [length_text_join]
  split_ifs with h
  · exact (length_text_le_one_iff.mpr h).trans (Nat.le_add_right 1 _)
  · omega

/-- A name that is not longer than that of the root scope is the same. -/
theorem text_eq_dot_of_length_le (h : n.text.length ≤ j.text.length) (hj : j.text = ".") :
    n.text = "." :=
  length_text_le_one_iff.mp (h.trans (length_text_le_one_iff.mpr hj))

theorem length_text_join_le (hn : n.text.length ≤ j.text.length) (hs : s.length ≤ t.length) :
    (n.join s).text.length ≤ (j.join t).text.length := by
  have root := text_eq_dot_of_length_le hn
  rw [length_text_join, length_text_join]
  split_ifs with h h'
  · omega
  · omega
  · exact absurd (root ‹_›) h
  · omega

/-- A step that drops dots does not overtake one that drops nothing. -/
theorem length_text_joinTrimmed_le (h : n.text.length ≤ j.text.length) (s : String) :
    (n.joinTrimmed s).text.length ≤ (j.join s).text.length := by
  unfold joinTrimmed
  split_ifs
  · exact h.trans (length_text_le_join j s)
  · exact length_text_join_le h (length_trimDots_le s)

/-- Two joined names are the same only if neither part was the shorter one. -/
theorem eq_of_join_eq_join (h : j.join t = n.join s) (hn : n.text.length ≤ j.text.length)
    (hs : s.length ≤ t.length) : j = n ∧ t = s := by
  have root := text_eq_dot_of_length_le hn
  have pos := j.length_text_pos
  have texts : (j.join t).text = (n.join s).text := congrArg text h
  have lengths : (j.join t).text.length = (n.join s).text.length := congrArg String.length texts
  rw [length_text_join, length_text_join] at lengths
  rw [text_join, text_join] at texts
  by_cases hj : j.text = "."
  · rw [if_pos hj, if_pos (root hj)] at texts
    exact ⟨QualifiedName.ext (hj.trans (root hj).symm), (String.append_right_inj ".").mp texts⟩
  · rw [if_neg hj] at texts lengths
    split_ifs at texts lengths
    · omega
    · rw [← String.toList_inj] at texts
      simp only [String.toList_append, List.append_assoc] at texts
      obtain ⟨scopes, rest⟩ := List.append_inj texts (by simp only [String.length_toList]; omega)
      exact ⟨QualifiedName.ext (String.toList_inj.mp scopes),
        String.toList_inj.mp (List.append_cancel_left rest)⟩

/-- Two steps meet only if they start from the same scope and nothing is dropped. -/
theorem join_eq_joinTrimmed_iff (h : n.text.length ≤ j.text.length) :
    j.join s = n.joinTrimmed s ↔ j = n ∧ NoDotAtEnds s ∧ (s = "" → n.text = ".") := by
  constructor
  · intro heq
    by_cases ht : trimDots s = ""
    · rw [joinTrimmed, if_pos ht] at heq
      -- the name that is dropped must have been empty, and the scope the root
      have lengths := length_text_join j s
      rw [heq] at lengths
      split_ifs at lengths with hj
      · have root := text_eq_dot_of_length_le h hj
        have short := length_text_le_one_iff.mpr root
        obtain rfl : s = "" := String.length_eq_zero_iff.mp (by omega)
        exact ⟨QualifiedName.ext (hj.trans root.symm), by decide, fun _ => root⟩
      · omega
    · rw [joinTrimmed, if_neg ht] at heq
      obtain ⟨hj, hs⟩ := eq_of_join_eq_join heq h (length_trimDots_le s)
      have hne : s ≠ "" := fun e => ht (hs.symm.trans e)
      exact ⟨hj, trimDots_eq_self_iff.mp hs.symm, fun e => absurd e hne⟩
  · rintro ⟨rfl, hends, hempty⟩
    rcases eq_or_ne s "" with rfl | hne
    · rw [joinTrimmed, if_pos (trimDots_eq_self_iff.mpr hends)]
      ext1
      rw [text_join, if_pos (hempty rfl), hempty rfl]
      rfl
    · exact (joinTrimmed_of_isSegment j ⟨hne, hends⟩).symm

end Step

theorem length_text_le (package : String) (segments : List String) :
    (ofSegments package segments).text.length ≤
      (segments.foldl join (ofPackage package)).text.length := by
  induction segments using List.reverseRecOn with
  | nil => exact le_refl _
  | append_singleton segments name ih =>
    rw [List.foldl_append, ofSegments_append_singleton]
    exact length_text_joinTrimmed_le ih name

/-- The empty segments of a path are those of the path before it and, it may be, its last one. -/
theorem forall_before_empty_iff {P : List String → Prop} {segments : List String} {name : String} :
    (∀ earlier, earlier ++ [""] <+: segments ++ [name] → P earlier) ↔
      (∀ earlier, earlier ++ [""] <+: segments → P earlier) ∧ (name = "" → P segments) := by
  simp only [List.prefix_concat_iff, or_imp, forall_and]
  rw [and_comm, and_congr_right_iff]
  refine fun _ => ⟨?_, ?_⟩
  · rintro h rfl
    exact h segments rfl
  · intro h earlier heq
    obtain ⟨rfl, hname⟩ := List.append_inj' heq rfl
    exact h (by simpa using hname.symm)

/-- Joining the segments of a path to a package gives the name of the path exactly if no segment
begins or ends with a dot and the empty ones come while the name is still the lone dot. That is the
name as long as the package holds nothing but dots and no segment was given but empty ones. Either
way the name begins with a dot. -/
theorem joined_eq_ofSegments_iff (package : String) (segments : List String) :
    (segments.foldl join (ofPackage package) = ofSegments package segments ↔
      (∀ s ∈ segments, NoDotAtEnds s) ∧
      ∀ earlier, earlier ++ [""] <+: segments →
        (earlier.foldl join (ofPackage package)).text = ".") ∧
    (∀ earlier : List String, (earlier.foldl join (ofPackage package)).text = "." ↔
      (∀ c ∈ package.toList, c = '.') ∧ ∀ s ∈ earlier, s = "") ∧
    (segments.foldl join (ofPackage package)).text.toList.head? = some '.' ∧
    (ofSegments package segments).text.toList.head? = some '.' := by
  refine ⟨?_, fun earlier => ?_, head?_text _, head?_text _⟩
  · -- a difference made by one segment stays, so the last segment can be looked at by itself
    induction segments using List.reverseRecOn with
    | nil => simp [ofPackage]
    | append_singleton segments name ih =>
      rw [List.foldl_append, List.foldl_cons, List.foldl_nil, ofSegments_append_singleton,
        join_eq_joinTrimmed_iff (length_text_le package segments), forall_before_empty_iff,
        List.forall_mem_append, List.forall_mem_singleton]
      constructor
      · rintro ⟨heq, hends, hempty⟩
        obtain ⟨hall, hbefore⟩ := ih.mp heq
        rw [heq]
        exact ⟨⟨hall, hends⟩, hbefore, hempty⟩
      · rintro ⟨⟨hall, hends⟩, hbefore, hempty⟩
        have heq := ih.mpr ⟨hall, hbefore⟩
        rw [heq] at hempty
        exact ⟨heq, hends, hempty⟩
  · rw [text_foldl_join_eq_dot_iff, text_ofPackage_eq_dot_iff]

/-- An empty segment behind another one makes a difference. -/
example : (["Outer", ""].foldl join (ofPackage "pkg")).text = ".pkg.Outer." ∧
    (ofSegments "pkg" ["Outer", ""]).text = ".pkg.Outer" := by decide

end QualifiedName

end SchemaReport
