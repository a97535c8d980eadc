import SchemaReport.CommandLine
import SchemaReport.Proofs.Invocation
import SchemaReport.Proofs.LogFilter
import SchemaReport.Proofs.Wire.Faults

/-! What comes of the command. Its output is the response and nothing else, and without a request
there is none; a filter chooses among the records of the log, which all go to the error text. -/

namespace SchemaReport

/-! ### Lines of the log -/

namespace LogRecord

/-- What stands on the first line of a record before its text. -/
def opening (r : LogRecord) : List Char :=
  "[".toList ++ (r.level.name.toList.rightpad 5 ' ' ++
    (" ".toList ++ (r.origin.target.toList ++ "] ".toList)))

/-- The text of a record as it is written, its further lines indented. -/
def indented (cs : List Char) : List Char :=
  cs.flatMap fun c => if c = '\n' then "\n    ".toList else [c]

/-- The first line of a record, which has the first line of its text. -/
def firstLine (r : LogRecord) : List Char := r.opening ++ r.text.toList.takeWhile (· ≠ '\n')

theorem toList_line (r : LogRecord) :
    r.line.toList = r.opening ++ (indented r.text.toList ++ ['\n']) := by
  have newline : "\n".toList = ['\n'] := rfl
  simp only [line, opening, indented, String.toList_append, String.toList_ofList, newline,
    List.append_assoc]

theorem head?_opening (r : LogRecord) : r.opening.head? = some '[' := rfl

theorem newline_notMem_opening (r : LogRecord) : '\n' ∉ r.opening := by
  have level : '\n' ∉ r.level.name.toList.rightpad 5 ' ' := by cases r.level <;> decide
  have target : '\n' ∉ r.origin.target.toList := by cases r.origin <;> decide
  have bracket : '\n' ∉ "] ".toList := by decide
  have blank : '\n' ∉ " ".toList := by decide
  exact List.not_mem_append (by decide) (List.not_mem_append level
    (List.not_mem_append blank (List.not_mem_append target bracket)))

theorem newline_notMem_firstLine (r : LogRecord) : '\n' ∉ r.firstLine :=
  List.not_mem_append r.newline_notMem_opening fun h => by simpa using List.mem_takeWhile_imp h

theorem indented_cons_newline (cs : List Char) :
    indented ('\n' :: cs) = '\n' :: (List.replicate 4 ' ' ++ indented cs) := rfl

theorem indented_cons_of_ne {c : Char} (h : c ≠ '\n') (cs : List Char) :
    indented (c :: cs) = c :: indented cs := by
  rw [indented, List.flatMap_cons, if_neg h]
  rfl

end LogRecord

/-- The lines of a text that begin a record. -/
def headLines (cs : List Char) : List (List Char) :=
  (cs.splitOn '\n').filter fun l => l.head? = some '['

theorem headLines_append_cons {l : List Char} (h : '\n' ∉ l) (more : List Char) :
    headLines (l ++ '\n' :: more) =
      (if l.head? = some '[' then [l] else []) ++ headLines more := by
  rw [headLines, splitOn_append_cons h, List.filter_cons]
  split_ifs <;> simp_all [headLines]

/-- Further lines begin with a blank, so none of them passes for a record. -/
theorem headLines_indented {l : List Char} (h : '\n' ∉ l) (cs more : List Char) :
    headLines (l ++ (LogRecord.indented cs ++ '\n' :: more)) =
      headLines (l ++ cs.takeWhile (· ≠ '\n') ++ '\n' :: more) := by
  induction cs generalizing l with
  | nil =>
    rw [List.takeWhile_nil, List.append_nil]
    rfl
  | cons c cs ih =>
    by_cases hc : c = '\n'
    · have blanks : '\n' ∉ List.replicate 4 ' ' := by decide
      have further : '\n' ∉ List.replicate 4 ' ' ++ cs.takeWhile (· ≠ '\n') :=
        List.not_mem_append blanks fun hm => by simpa using List.mem_takeWhile_imp hm
      rw [hc, LogRecord.indented_cons_newline, List.cons_append, List.append_assoc,
        headLines_append_cons h, ih blanks, headLines_append_cons further,
        List.takeWhile_cons_of_neg (by simp), List.append_nil, headLines_append_cons h]
      rfl
    · have longer : '\n' ∉ l ++ [c] := List.not_mem_append h (by simpa using Ne.symm hc)
      have rest := ih longer
      rw [LogRecord.indented_cons_of_ne hc, List.takeWhile_cons_of_pos (by simpa using hc)]
      simpa using rest

/-- One line of a record begins it, whatever its text. -/
theorem headLines_line (r : LogRecord) (more : List Char) :
    headLines (r.line.toList ++ more) = r.firstLine :: headLines more := by
  have head : r.firstLine.head? = some '[' := by
    rw [LogRecord.firstLine, List.head?_append, r.head?_opening]
    rfl
  have begins := headLines_append_cons r.newline_notMem_firstLine more
  rw [if_pos head, List.singleton_append] at begins
  rw [r.toList_line, List.append_assoc, List.append_assoc, List.singleton_append,
    headLines_indented r.newline_notMem_opening]
  exact begins

/-- The records of a log can be told from its text. -/
theorem headLines_join (log : List LogRecord) :
    headLines (String.join (log.map LogRecord.line)).toList = log.map LogRecord.firstLine := by
  rw [String.toList_join, List.flatMap_map]
  induction log with
  | nil => rfl
  | cons r log ih => rw [List.flatMap_cons, headLines_line, ih, List.map_cons]

/-! ### The run -/

/-- The record of a request that could be read. -/
def received (r : Request) : LogRecord :=
  let files := (Request.protoFiles r).length
  let chosen := (Request.filesToGenerate r).length
  ⟨.debug, .transport, s!"decoded request: {files} files, {chosen} to generate"⟩

section

variable {input : List UInt8} {r : Request} {e : Wire.DecodeError}

theorem yields_bytes (input : List UInt8) : Source.Yields [.bytes input] input none := by
  rcases eq_or_ne input [] with rfl | hne
  · exact .closed []
  · have whole := Source.Yields.piece hne .ended
    rwa [List.append_nil] at whole

theorem send_ready (bs : List UInt8) : send .ready bs = ⟨.ok (), bs, true⟩ :=
  send_of_written (Sink.writeAll_of_takes fun _ _ => rfl)

theorem decodeRequest_of_ok (h : Wire.decode .request input = .ok r) :
    decodeRequest input = ⟨.ok r, [received r]⟩ := by
  unfold decodeRequest
  rw [h]
  rfl

theorem decodeRequest_of_error (h : Wire.decode .request input = .error e) :
    decodeRequest input = ⟨.error (.request e), []⟩ := by
  unfold decodeRequest
  rw [h]
  rfl

theorem execute_of_ok (h : Wire.decode .request input = .ok r) :
    execute [.bytes input] .ready =
      ⟨⟨.ok (), Wire.encode (respond r).value, true⟩, received r :: (respond r).log⟩ := by
  have read := (yields_bytes input).readAll_eq
  ext1
  · rw [value_execute, read]
    simp only [Option.elim_none, h, send_ready]
  · unfold execute
    rw [read]
    simp only [Option.elim_none, decodeRequest_of_ok h, Logged.log_bind, Logged.log_pure,
      List.append_nil, List.singleton_append]

theorem execute_of_error (h : Wire.decode .request input = .error e) :
    execute [.bytes input] .ready = ⟨⟨.error (.request e), [], false⟩, []⟩ := by
  unfold execute
  rw [(yields_bytes input).readAll_eq]
  simp only [Option.elim_none, decodeRequest_of_error h]
  rfl

/-- Nothing of what gives a setting is complained about. -/
theorem LogSetting.IsGiven.complaintLines_eq {setting : LogSetting} {filter? : Option String}
    (h : setting.IsGiven filter?) : LogFilter.complaintLines filter? = [] := by
  cases filter? with
  | none => rfl
  | some s =>
    obtain ⟨directive, hne, plain⟩ := h.ofText_eq
    rw [LogFilter.complaintLines, Option.map_some, Option.getD_some,
      (LogFilter.ofText_eq directive hne plain).2, List.map_nil]

theorem command_of_ok (filter? : Option String) (h : Wire.decode .request input = .ok r) :
    let filter := (filter?.map LogFilter.ofText).getD .standard
    let records := (received r :: (respond r).log).filter filter.shows
    command filter? input = ⟨0, Wire.encode (respond r).value,
      String.join (LogFilter.complaintLines filter? ++ records.map LogRecord.line)⟩ := by
  simp only [command, execute_of_ok h]

/-- What is said of input that holds no request. -/
def complaint (e : Wire.DecodeError) : String :=
  "protoc-gen-pluginexample: " ++ (InvocationError.request e).message

theorem command_of_error (filter? : Option String) (h : Wire.decode .request input = .error e) :
    command filter? input =
      ⟨1, [], String.join (LogFilter.complaintLines filter?) ++ (complaint e ++ "\n")⟩ := by
  simp only [command, execute_of_error h, List.filter_nil, List.map_nil, List.append_nil]
  rfl

theorem newline_notMem_complaint (h : Wire.decode .request input = .error e) :
    '\n' ∉ (complaint e).toList :=
  Wire.newline_notMem_append (by decide)
    (Wire.newline_notMem_append (by decide) (Wire.newline_notMem_message h))

end

/-! ### The command -/

/-- The command has answered the request. The output is the response, which can be read from it, and
the error text has the lines of the records that the setting lets through, in their order. -/
structure Answered (setting : LogSetting) (r : Request) (c : CommandResult) : Prop where
  exitCode : c.exitCode = 0
  output : c.output = Wire.encode (respond r).value
  reads : c.output.length < 2 ^ 64 → Wire.decode .response c.output = .ok (respond r).value
  errorText : let shown := (received r :: (respond r).log).filter setting.lets
    c.errorText = String.join (shown.map LogRecord.line) ∧
      headLines c.errorText.toList = shown.map LogRecord.firstLine

/-- There was no request. Nothing is put out, and the error text is a line that names the fault. -/
structure Refused (e : Wire.DecodeError) (c : CommandResult) : Prop where
  exitCode : c.exitCode = 1
  output : c.output = []
  errorText : c.errorText = complaint e ++ "\n"
  oneLine : '\n' ∉ (complaint e).toList

/-- Exit status and output depend on the input alone, whatever filter text is given: the status is 0
and the output is the response, or there is no request, the status is 1 and nothing is put out. The
error text has the records that the setting lets through, or the line that names the fault. -/
theorem command_outcome (input : List UInt8) :
    (∀ filter? filter?', (command filter? input).exitCode = (command filter?' input).exitCode ∧
      (command filter? input).output = (command filter?' input).output) ∧
    ∀ setting filter?, LogSetting.IsGiven setting filter? →
      (∀ r, Wire.decode .request input = .ok r → Answered setting r (command filter? input)) ∧
      ∀ e, Wire.decode .request input = .error e → Refused e (command filter? input) := by
  refine ⟨fun filter? filter?' => ?_, fun setting filter? given => ⟨fun r h => ?_, fun e h => ?_⟩⟩
  · cases h : Wire.decode .request input with
    | ok r => simp only [command_of_ok _ h, and_self]
    | error e => simp only [command_of_error _ h, and_self]
  · rw [command_of_ok filter? h, given.shows_eq, given.complaintLines_eq, List.nil_append]
    exact {
      exitCode := rfl
      output := rfl
      reads := fun short =>
        Wire.mergeWithin_encode _ ((Response.depth_le_one _).trans (by decide)) short
      errorText := ⟨rfl, headLines_join _⟩ }
  · rw [command_of_error filter? h, given.complaintLines_eq, String.join_nil, String.empty_append]
    exact {
      exitCode := rfl
      output := rfl
      errorText := rfl
      oneLine := newline_notMem_complaint h }

/-- Of a request with an unknown option the warnings of one module are shown, and of one that is
broken off nothing but the fault. -/
theorem command_outcome_options :
    let target := Origin.options.target
    let filter? := some (target ++ "=" ++ "Warn")
    LogSetting.IsGiven (.part target (some .warn)) filter? ∧
      (command filter? [0x12, 0x01, 0x61]).errorText =
        "[WARN  protoc_gen_pluginexample::config] ignoring plugin option `a`: unknown option\n" ∧
      (command filter? [0x12, 0x02, 0x61]).errorText =
        "protoc-gen-pluginexample: invalid CodeGeneratorRequest: failed to decode " ++
          "Protobuf message: CodeGeneratorRequest.parameter: buffer underflow\n" := by
  intro target filter?
  have given : LogSetting.IsGiven (.part target (some .warn)) filter? :=
    .part (by decide +kernel) (by decide +kernel)
  obtain ⟨r, hr, shown⟩ : ∃ r, Wire.decode .request [0x12, 0x01, 0x61] = .ok r ∧
      String.join (((received r :: (respond r).log).filter
        (LogSetting.part target (some .warn)).lets).map LogRecord.line) =
        "[WARN  protoc_gen_pluginexample::config] ignoring plugin option `a`: unknown option\n" :=
    ⟨_, rfl, by decide +kernel⟩
  obtain ⟨e, he, named⟩ : ∃ e, Wire.decode .request [0x12, 0x02, 0x61] = .error e ∧
      complaint e ++ "\n" =
        "protoc-gen-pluginexample: invalid CodeGeneratorRequest: failed to decode " ++
          "Protobuf message: CodeGeneratorRequest.parameter: buffer underflow\n" :=
    ⟨_, rfl, by decide +kernel⟩
  have answered := ((command_outcome [0x12, 0x01, 0x61]).2 _ filter? given).1 r hr
  have refused := ((command_outcome [0x12, 0x02, 0x61]).2 _ filter? given).2 e he
  exact ⟨given, answered.errorText.1.trans shown, refused.errorText.trans named⟩

end SchemaReport
