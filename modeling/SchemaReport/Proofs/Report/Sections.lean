import SchemaReport.Proofs.Report.GraphText

/-! The sections of a graph read back without its first line. The names of the graph's nodes are in
quotes, but the name of the graph itself is not: read on their own, the sections are what was drawn
under whatever name. -/

namespace SchemaReport.Graph

/-- What stands below the first line and the empty line after it. -/
def sections (g : Graph) : List Char :=
  g.nodes.flatMap nodeLine ++ ['\n'] ++ g.edges.flatMap edgeLine ++ "\n\x7d".toList

def readSections (text : List Char) : Option (List (String × Shape) × List Edge) := do
  let (nodes, ls) ← readSection readNode (text.splitOn '\n')
  let (edges, ls) ← readSection readEdge ls
  if ls = [['\x7d']] then return (nodes, edges) else none

theorem text_eq_sections (name : String) (g : Graph) :
    g.text name = head name ++ "\n\n".toList ++ g.sections := by
  have opening : " \x7b\n\n".toList = " \x7b".toList ++ "\n\n".toList := rfl
  unfold text head sections
  simp only [opening, List.append_assoc]

theorem sections_eq_lines (g : Graph) : g.sections =
    ['\n'].intercalate (g.nodes.map nodeText ++ [] :: g.edges.map edgeText ++ [[], ['\x7d']]) := by
  have closing : "\n\x7d".toList = ['\n'] ++ ['\x7d'] := rfl
  have split : g.nodes.map nodeText ++ [] :: g.edges.map edgeText ++ [[], ['\x7d']] =
      (g.nodes.map nodeText ++ [[]] ++ g.edges.map edgeText ++ [[]]) ++ [['\x7d']] := by
    simp only [List.append_assoc, List.cons_append, List.nil_append]
  rw [split, intercalate_append_singleton, sections, closing]
  simp only [List.flatMap_append, List.flatMap_singleton, flatMap_nodeText, flatMap_edgeText,
    List.nil_append, List.append_assoc]

theorem newline_notMem_sections (g : Graph) :
    ∀ l ∈ g.nodes.map nodeText ++ [] :: g.edges.map edgeText ++ [[], ['\x7d']], '\n' ∉ l := by
  intro l hl
  have identifier : Options.isIdentifier "g".toList := by decide
  refine newline_notMem_lines identifier g l ?_
  exact List.mem_cons_of_mem _ (List.mem_cons_of_mem _ hl)

theorem readSections_sections (g : Graph) :
    readSections g.sections = some (g.nodes.map fun n => (n.name.text, n.shape), g.edges) := by
  have split := List.splitOn_intercalate '\n' (newline_notMem_sections g) (by simp)
  rw [readSections, sections_eq_lines, split]
  simp only [List.append_assoc, List.cons_append, Option.bind_eq_bind, Option.bind_some,
    readSection_nodes, readSection_edges]
  rfl

end SchemaReport.Graph
