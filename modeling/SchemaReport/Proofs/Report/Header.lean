import Mathlib.Data.List.Basic
import SchemaReport.Proofs.Options
import SchemaReport.Proofs.Report.Sections

/-! The first line of the graph. The name that a parameter text gives to the graph stands there
without quotes, and it can be every identifier. The language of the graph keeps some identifiers for
itself, so the line is well formed unless the last name that is valid is one of these words. -/

namespace SchemaReport

namespace Options

open Text (isBlank)

variable {cs : List Char}

/-! ### Names from parameter texts -/

theorem IsIdentifier.plain (h : IsIdentifier cs) :
    ∀ c ∈ cs, isBlank c = false ∧ c ≠ '=' ∧ c ≠ ',' := by
  obtain ⟨first, rest, rfl, hfirst, hrest⟩ := h
  refine List.forall_mem_cons.mpr ⟨plain_of_letter_or_digit (.inl hfirst), fun c hc => ?_⟩
  exact plain_of_letter_or_digit (hrest c hc)

/-- The entry that names the graph. -/
def Entry.naming (cs : List Char) : Entry :=
  ⟨Key.graphName.text ++ '=' :: cs, Key.graphName.text, cs⟩

theorem entries_naming (h : IsIdentifier cs) :
    entries (String.ofList (Entry.naming cs).text) = [Entry.naming cs] := by
  -- the key is an identifier as well, so nothing but the equals sign is cut or trimmed
  have key : IsIdentifier Key.graphName.text := isIdentifier_iff.mp (by decide)
  have unblank : ∀ c ∈ (Entry.naming cs).text, isBlank c = false := by
    rw [Entry.naming, List.forall_mem_append, List.forall_mem_cons]
    exact ⟨fun c hc => (key.plain c hc).1, by decide, fun c hc => (h.plain c hc).1⟩
  have comma : ∀ l ∈ [(Entry.naming cs).text], ',' ∉ l := by
    rw [List.forall_mem_singleton, Entry.naming, List.mem_append, List.mem_cons]
    rintro (hc | hc | hc)
    · exact (key.plain _ hc).2.2 rfl
    · exact absurd hc (by decide)
    · exact (h.plain _ hc).2.2 rfl
  have piece : (Entry.naming cs).text.splitOn ',' = [(Entry.naming cs).text] := by
    have cut := List.splitOn_intercalate ',' comma (List.cons_ne_nil _ _)
    rwa [List.intercalate_singleton] at cut
  have kept : [(Entry.naming cs).text].filter (· ≠ []) = [(Entry.naming cs).text] :=
    List.filter_eq_self.mpr (by simp [Entry.naming])
  have entry : Entry.of (Entry.naming cs).text = Entry.naming cs := by
    rw [Entry.naming, Entry.of_cut fun hc => (key.plain _ hc).2.1 rfl,
      Text.trim_eq_self fun c hc => (key.plain c hc).1,
      Text.trim_eq_self fun c hc => (h.plain c hc).1]
  rw [entries, String.toList_ofList, piece, List.map_singleton, Text.trim_eq_self unblank, kept,
    List.map_singleton, entry]

theorem lastOr_graphName (p : String) :
    LastOr .graphName (entries p) "entities" (ofParameter p).value.graphName :=
  lastOr_foldlM .graphName (entries p) standard

theorem isIdentifier_graphName (p : String) :
    IsIdentifier (ofParameter p).value.graphName.toList := by
  obtain ⟨-, e, -, -, ⟨-, identifier, name⟩, -⟩ | ⟨-, name⟩ := lastOr_graphName p
  · rwa [name, String.toList_ofList]
  · rw [name]
    exact isIdentifier_iff.mp (by decide)

theorem exists_graphName_eq_iff (name : String) :
    (∃ p, (ofParameter p).value.graphName = name) ↔ IsIdentifier name.toList := by
  constructor
  · rintro ⟨p, rfl⟩
    exact isIdentifier_graphName p
  · intro h
    refine ⟨String.ofList (Entry.naming name.toList).text, ?_⟩
    have sets : (Entry.naming name.toList).Sets .graphName name :=
      ⟨rfl, h, String.ofList_toList.symm⟩
    rw [ofParameter, entries_naming h, List.foldlM_cons, Logged.value_bind,
      value_applyEntry_of_sets sets]
    rfl

end Options

namespace Graph

/-! ### Names without quotes -/

/-- The words that the language of the graph keeps for itself. -/
def reservedWords : List String := ["node", "edge", "graph", "digraph", "subgraph", "strict"]

/-- The letter case of a reserved word does not matter. -/
def IsReserved (cs : List Char) : Prop := String.ofList (cs.map Char.toLower) ∈ reservedWords

instance (cs : List Char) : Decidable (IsReserved cs) :=
  inferInstanceAs (Decidable (_ ∈ reservedWords))

/-- A name that stands for itself without quotes. -/
def IsBareName (cs : List Char) : Prop := Options.IsIdentifier cs ∧ ¬ IsReserved cs

/-- The name in the first line comes from the parameter, where every identifier can be given. It is
well formed without quotes unless it is a reserved word, and it is one exactly if the last entry
that names the graph with an identifier gives that word. -/
theorem header_name_of_parameter (p : String) (r : Request) :
    let o := (Options.ofParameter p).value
    (∃ rest, (generator.generate r o).value =
      .ok (String.ofList (head o.graphName ++ "\n\n".toList ++ rest))) ∧
    (IsBareName o.graphName.toList ↔ ¬ ∃ before e after, Options.entries p = before ++ e :: after ∧
      e.Sets .graphName o.graphName ∧ IsReserved e.value ∧
      ∀ x ∈ after, ¬ x.IsValidFor .graphName) ∧
    ∀ name, (∃ q, (Options.ofParameter q).value.graphName = name) ↔
      Options.IsIdentifier name.toList := by
  intro o
  refine ⟨?_, ?_, Options.exists_graphName_eq_iff⟩
  · have first := text_eq_sections o.graphName (ofFiles (o.files r)).value
    exact ⟨_, congrArg (fun t => Except.ok (String.ofList t)) first⟩
  · have bare : IsBareName o.graphName.toList ↔ ¬ IsReserved o.graphName.toList :=
      and_iff_right (Options.isIdentifier_graphName p)
    rw [bare, not_iff_not]
    constructor
    · intro reserved
      obtain ⟨before, e, after, split, sets, rest⟩ | ⟨-, name⟩ := Options.lastOr_graphName p
      · have value : o.graphName.toList = e.value := by
          rw [sets.2.2, String.toList_ofList]
        exact ⟨before, e, after, split, sets, value ▸ reserved, rest⟩
      · have standard : ¬ IsReserved "entities".toList := by decide
        exact absurd (name ▸ reserved) standard
    · rintro ⟨-, e, -, -, ⟨-, -, name⟩, reserved, -⟩
      rwa [name, String.toList_ofList]

/-- A reserved word is an identifier, and the graph gets it for a name. -/
theorem not_forall_name_isBare :
    ¬ ∀ p : String, IsBareName (Options.ofParameter p).value.graphName.toList := by
  intro h
  have name : (Options.ofParameter "graph_name=node").value.graphName = "node" := by
    decide +kernel
  have bare := h "graph_name=node"
  rw [name] at bare
  exact bare.2 (by decide)

end Graph

end SchemaReport
