import Mathlib.Data.List.Flatten
import SchemaReport.Proofs.Text.Digits
import SchemaReport.Proofs.Text.Pieces
import SchemaReport.Report.Stats

/-! The statistics without their loops, and their report read back. Each counter is the length of a
list, and a reader that knows the labels of the report finds every counter in its own line. Fewer
files never make a counter larger. -/

namespace SchemaReport.Stats

/-! ### Counters -/

/-- The lengths of the lists that the counters are about. -/
def counted (fs : List FileDescriptor) : Stats where
  files := fs.length
  services := (fs.flatMap (·.services)).length
  methods := ((fs.flatMap (·.services)).flatMap (·.methods)).length
  messages := (fs.flatMap (·.messages)).length
  fields := ((fs.flatMap (·.messages)).flatMap (·.fields)).length

theorem foldl_addService (ds : List ServiceDescriptor) (s : Stats) : ds.foldl addService s =
    { s with
      services := s.services + ds.length
      methods := s.methods + (ds.flatMap (·.methods)).length } := by
  induction ds generalizing s with
  | nil => rfl
  | cons d ds ih =>
    rw [List.foldl_cons, ih]
    simp only [addService, List.length_cons, List.flatMap_cons, List.length_append, Nat.add_assoc,
      Nat.add_comm 1]

theorem foldl_addMessage (ds : List MessageDescriptor) (s : Stats) : ds.foldl addMessage s =
    { s with
      messages := s.messages + ds.length
      fields := s.fields + (ds.flatMap (·.fields)).length } := by
  induction ds generalizing s with
  | nil => rfl
  | cons d ds ih =>
    rw [List.foldl_cons, ih]
    simp only [addMessage, List.length_cons, List.flatMap_cons, List.length_append, Nat.add_assoc,
      Nat.add_comm 1]

/-- Counter by counter. -/
def plus (s t : Stats) : Stats :=
  ⟨s.files + t.files, s.services + t.services, s.methods + t.methods, s.messages + t.messages,
    s.fields + t.fields⟩

theorem foldl_addFile (fs : List FileDescriptor) (s : Stats) :
    fs.foldl addFile s = s.plus (counted fs) := by
  -- the counters so far are what the rest of the files are added to
  induction fs generalizing s with
  | nil => rfl
  | cons f fs ih =>
    rw [List.foldl_cons, ih, addFile, foldl_addService, foldl_addMessage]
    simp only [plus, counted, List.length_cons, List.flatMap_cons, List.flatMap_append,
      List.length_append, Nat.add_assoc, Nat.add_comm 1]

theorem ofFiles_eq_counted (fs : List FileDescriptor) : ofFiles fs = counted fs := by
  rw [ofFiles, foldl_addFile]
  simp only [plus, zero, Nat.zero_add]

/-- No counter is above that of `t`. -/
structure IsWithin (s t : Stats) : Prop where
  files : s.files ≤ t.files
  services : s.services ≤ t.services
  methods : s.methods ≤ t.methods
  messages : s.messages ≤ t.messages
  fields : s.fields ≤ t.fields

theorem ofFiles_isWithin {fs gs : List FileDescriptor} (h : fs.Sublist gs) :
    (ofFiles fs).IsWithin (ofFiles gs) := by
  rw [ofFiles_eq_counted, ofFiles_eq_counted]
  exact ⟨h.length_le, (h.flatMap _).length_le, ((h.flatMap _).flatMap _).length_le,
    (h.flatMap _).length_le, ((h.flatMap _).flatMap _).length_le⟩

/-! ### The report -/

def title : List Char := "stats for code generation request".toList

/-- A line of the report, without its end. -/
def countLine (label : List Char) (n : ℕ) : List Char := label ++ Text.decimal n

/-- The lines of the report. The last one, behind the last newline, is empty. -/
def lines (s : Stats) : List (List Char) :=
  [title, countLine "num files: ".toList s.files, countLine "num services: ".toList s.services,
    countLine "num methods: ".toList s.methods, countLine "num messages: ".toList s.messages,
    countLine "num fields: ".toList s.fields, []]

/-- Reads the decimal number behind a label. -/
def readCount (label line : List Char) : Option ℕ := do
  let digits ← line.dropPrefix? label
  if digits ≠ [] ∧ digits.all Char.isDigit then return Text.natOfDigits digits else none

def read (text : List Char) : Option Stats :=
  match text.splitOn '\n' with
  | [first, files, services, methods, messages, fields, []] => do
    if first = title then
      return ⟨← readCount "num files: ".toList files,
        ← readCount "num services: ".toList services,
        ← readCount "num methods: ".toList methods,
        ← readCount "num messages: ".toList messages,
        ← readCount "num fields: ".toList fields⟩
    else none
  | _ => none

theorem readCount_countLine (label : List Char) (n : ℕ) :
    readCount label (countLine label n) = some n := by
  have digits : Text.decimal n ≠ [] ∧ (Text.decimal n).all Char.isDigit :=
    ⟨Text.decimal_ne_nil n, List.all_eq_true.mpr fun c hc => Text.isDigit_of_mem_decimal hc⟩
  have rest : (label ++ Text.decimal n).dropPrefix? label = some (Text.decimal n) :=
    List.dropPrefix?_append_of_beq _ (beq_self_eq_true label)
  rw [readCount, countLine, rest]
  simp only [Option.bind_eq_bind, Option.bind_some, if_pos digits, Text.natOfDigits_decimal]
  rfl

theorem toList_toString (n : ℕ) : (toString n).toList = Text.decimal n := Nat.toList_repr

theorem toList_text (s : Stats) : s.text.toList = ['\n'].intercalate (lines s) := by
  have first : "stats for code generation request\n".toList = title ++ ['\n'] := rfl
  have newline : "\n".toList = ['\n'] := rfl
  have plain : ∀ t : String, toString t = t := fun _ => rfl
  have split : lines s = (lines s).dropLast ++ [[]] := rfl
  rw [split, intercalate_append_singleton]
  unfold text
  simp only [String.toList_append, plain, toList_toString, first, newline, lines,
    countLine, List.dropLast, List.flatMap_cons, List.flatMap_nil, List.append_assoc,
    List.append_nil]

theorem newline_notMem_countLine {label : List Char} (h : '\n' ∉ label) (n : ℕ) :
    '\n' ∉ countLine label n := by
  rw [countLine, List.mem_append, not_or]
  exact ⟨h, fun hn => absurd (Text.isDigit_of_mem_decimal hn) (by decide)⟩

theorem newline_notMem_lines (s : Stats) : ∀ l ∈ lines s, '\n' ∉ l := by
  simp only [lines, List.forall_mem_cons]
  refine ⟨by decide, ?_, ?_, ?_, ?_, ?_, List.not_mem_nil, List.forall_mem_nil _⟩ <;>
    exact newline_notMem_countLine (by decide) _

theorem read_text (s : Stats) : read s.text.toList = some s := by
  have split := List.splitOn_intercalate '\n' (newline_notMem_lines s) (List.cons_ne_nil _ _)
  rw [read, toList_text, split]
  simp only [lines, readCount_countLine]
  rfl

end SchemaReport.Stats
