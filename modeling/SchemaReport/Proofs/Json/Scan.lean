import SchemaReport.Proofs.Json.Grammar

/-! What is printed is scanned as the value that was printed. Both layouts are texts of the value: in
one of them a line break stands before every item and behind the last, and a blank behind every
colon. -/

namespace SchemaReport.Json

/-- Values whose numbers can be written. -/
inductive Value.IsWritable : Value → Prop
  | null : IsWritable .null
  | bool (b : Bool) : IsWritable (.bool b)
  | number {n : Number} (h : n.IsWritable) : IsWritable (.number n)
  | text (s : String) : IsWritable (.text s)
  | array {vs : List Value} (h : ∀ v ∈ vs, IsWritable v) : IsWritable (.array vs)
  | object {ms : List (String × Value)} (h : ∀ m ∈ ms, IsWritable m.2) : IsWritable (.object ms)

mutual

/-- The sound draft of a value. -/
def Value.draft : Value → Draft
  | .null => .null
  | .bool b => .bool b
  | .number n => .number n.numeral
  | .text s => .text (.of s.toList)
  | .array vs => .array (itemDrafts vs) .closed
  | .object ms => .object (memberDrafts ms) .closed

def itemDrafts : List Value → List Draft
  | [] => []
  | v :: vs => v.draft :: itemDrafts vs

def memberDrafts : List (String × Value) → List (Literal × Draft)
  | [] => []
  | m :: ms => memberDraft m :: memberDrafts ms

def memberDraft : String × Value → Literal × Draft
  | (k, v) => (.of k.toList, v.draft)

end

section

variable (l : Layout) (depth : ℕ)

theorem isBlank_newline : IsBlank (newline l depth) := by
  cases l with
  | none => exact isBlank_nil
  | some width =>
    refine List.forall_mem_cons.mpr ⟨rfl, fun c hc => ?_⟩
    rw [List.eq_of_mem_replicate hc]
    rfl

theorem exists_colon_eq : ∃ bs, colon l = ':' :: bs ∧ IsBlank bs := by
  cases l with
  | none => exact ⟨[], rfl, isBlank_nil⟩
  | some width => exact ⟨[' '], rfl, by simp [IsBlank, isSpace]⟩

variable {l depth}

/-- Items on lines of their own. -/
theorem writesItems_print {v : Value} {vs : List Value}
    (h : ∀ w ∈ v :: vs, Writes w.draft (w.print l depth)) {after : List Char}
    (ha : IsBlank after) :
    WritesItems (itemDrafts (v :: vs))
      (newline l depth ++ (v.print l depth ++ (printItems l depth vs ++ after))) := by
  have break_line := isBlank_newline l depth
  obtain ⟨first, others⟩ := List.forall_mem_cons.mp h
  induction vs generalizing v with
  | nil => exact .one (.mk break_line first ha)
  | cons w ws ih =>
    have items := ih others (others w (by simp)) fun x hx => others x (by simp [hx])
    have item := WritesElement.mk break_line first isBlank_nil
    rw [itemDrafts]
    simpa only [printItems, List.append_nil, List.append_assoc, List.cons_append]
      using WritesItems.more item items

theorem writesMember_print {m : String × Value} (h : Writes m.2.draft (m.2.print l depth))
    {after : List Char} (ha : IsBlank after) :
    WritesMember (memberDraft m) (newline l depth ++ (printMember l depth m ++ after)) := by
  obtain ⟨k, v⟩ := m
  obtain ⟨bs, colon_eq, blank⟩ := exists_colon_eq l
  have key := writesLiteral_literal k.toList
  have member := WritesMember.mk (isBlank_newline l depth) key isBlank_nil (.mk blank h ha)
  rw [memberDraft]
  simpa only [printMember, colon_eq, List.nil_append, List.append_assoc, List.cons_append]
    using member

/-- Members on lines of their own. -/
theorem writesMembers_print {m : String × Value} {ms : List (String × Value)}
    (h : ∀ x ∈ m :: ms, Writes x.2.draft (x.2.print l depth)) {after : List Char}
    (ha : IsBlank after) :
    WritesMembers (memberDrafts (m :: ms))
      (newline l depth ++ (printMember l depth m ++ (printMembers l depth ms ++ after))) := by
  obtain ⟨first, others⟩ := List.forall_mem_cons.mp h
  induction ms generalizing m with
  | nil => exact .one (writesMember_print first ha)
  | cons x ms ih =>
    have members := ih others (others x (by simp)) fun y hy => others y (by simp [hy])
    have member := writesMember_print first isBlank_nil
    rw [memberDrafts]
    simpa only [printMembers, List.append_nil, List.append_assoc, List.cons_append]
      using WritesMembers.more member members

/-- What is printed for a writable value is a text of it. -/
theorem Value.IsWritable.writes {v : Value} (hv : v.IsWritable) (depth : ℕ) :
    Writes v.draft (v.print l depth) := by
  induction hv generalizing depth with
  | null => exact .null
  | bool b => exact .bool b
  | number hn => exact .number hn.writes
  | text s => exact .text (writesLiteral_literal s.toList)
  | @array vs _ ih =>
    cases vs with
    | nil => exact .noItems isBlank_nil
    | cons v vs =>
      have items := writesItems_print (fun w hw => ih w hw (depth + 1)) (isBlank_newline l depth)
      simpa only [Value.print, Value.draft, List.append_assoc, List.cons_append]
        using Writes.array items
  | @object ms _ ih =>
    cases ms with
    | nil => exact .noMembers isBlank_nil
    | cons m ms =>
      have members :=
        writesMembers_print (fun x hx => ih x hx (depth + 1)) (isBlank_newline l depth)
      simpa only [Value.print, Value.draft, List.append_assoc, List.cons_append]
        using Writes.object members

end

/-- The whole text of a value, and a blank end of line behind it. -/
theorem Value.IsWritable.writesElement {v : Value} (hv : v.IsWritable) (l : Layout) :
    WritesElement v.draft (v.print l 0 ++ ['\n']) :=
  .mk isBlank_nil (hv.writes 0) (by simp [IsBlank, isSpace])

theorem scan_print {v : Value} (hv : v.IsWritable) (l : Layout) :
    scan (v.print l 0 ++ ['\n']) = (v.draft, some ['\n']) := by
  rw [scan, List.length_append]
  exact (hv.writes 0).scan _ _ (endsNumber_cons (by decide)) (by omega)

end SchemaReport.Json
