import SchemaReport.Proofs.Json.Layout
import SchemaReport.Proofs.Json.Read
import SchemaReport.Report.Dump

/-! The dump as an archive of the request: whatever the indentation, reading it gives the request
back, up to the payloads of its NaNs, unless it nests deeper than readers go. The indentation
changes nothing but the blanks between tokens. -/

namespace SchemaReport.Dump

theorem toList_text (r : Request) (o : Options) :
    (text r o).toList = Json.write (layout o) r ++ ['\n'] := String.toList_ofList

theorem text_standard (r : Request) (o : Options) : text r.standard o = text r o := by
  rw [text, text, Json.write_standard]

/-- The dump is read as the request with its NaNs made standard if its arrays and objects nest at
most 127 deep, and refused as too deep otherwise. What is read equals the request unless that holds
a NaN, and has the same dump. -/
theorem generate_reads_back (r : Request) (o : Options) :
    ∃ t, (generator.generate r o).value = .ok t ∧
      Json.read .request t.toList =
        (if Json.nesting t.toList ≤ 127 then .ok r.standard else .error (.fault .tooDeep)) ∧
      (r.standard.same r = true ↔ r.holdsNaN = false) ∧
      (r.holdsNaN = false → r.standard = r) ∧
      (generator.generate r.standard o).value = .ok t := by
  refine ⟨text r o, rfl, ?_, ?_, r.standard_of_holdsNaN_eq_false, ?_⟩
  · rw [toList_text]
    exact Json.read_write (layout o) r
  · rw [Record.same_standard, Bool.not_eq_true']
  · exact congrArg Except.ok (text_standard r o)

/-- Dumps of one request have the same tokens under any two options. Without indentation a dump is
one line. Its only control characters are line breaks between tokens, and with an indentation every
line has as many blanks as brackets are open, up to 16 for each. -/
theorem generate_same_tokens (r : Request) (o o' : Options) :
    ∃ t t', (generator.generate r o).value = .ok t ∧ (generator.generate r o').value = .ok t' ∧
      Json.withoutBlanks (.outside 0) t.toList = Json.withoutBlanks (.outside 0) t'.toList ∧
      (o.dumpIndent = 0 → ∃ line, t.toList = line ++ ['\n'] ∧ '\n' ∉ line) ∧
      (∀ before c after, t.toList = before ++ c :: after → c.toNat < 0x20 →
        c = '\n' ∧ (Json.Place.ofText before).quoted = false ∧
          Json.AreApart before.getLast? after) ∧
      (o.dumpIndent ≠ 0 → ∀ before rest, t.toList = before ++ rest → rest ≠ [] →
        (before = [] ∨ before.getLast? = some '\n') →
          Json.IsIndented (min o.dumpIndent 16) (Json.Place.ofText before).depth rest) := by
  have writable := Json.ofMessage_isWritable r
  have toList_eq (o : Options) :
      (text r o).toList = (Json.ofMessage r).print (layout o) 0 ++ ['\n'] := toList_text r o
  refine ⟨text r o, text r o', rfl, rfl, ?_, fun compact => ?_, ?_, ?_⟩
  · rw [toList_eq, toList_eq, Json.withoutBlanks_print writable, Json.withoutBlanks_print writable]
  · have one_line : layout o = none := if_pos compact
    refine ⟨(Json.ofMessage r).print none 0, ?_, Json.newline_notMem_print writable⟩
    rw [toList_eq, one_line]
  · intro before c after h control
    rw [toList_eq] at h
    obtain ⟨hc, breaks⟩ := Json.breaks_of_print writable h control
    exact ⟨hc, breaks.unquoted, breaks.apart⟩
  · intro pretty before rest h
    have lines : layout o = some (min o.dumpIndent 16) := if_neg pretty
    rw [toList_eq, lines] at h
    exact Json.isIndented_of_print writable h

end SchemaReport.Dump
