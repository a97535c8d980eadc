import SchemaReport.LogFilter
import SchemaReport.Proofs.Options

/-! What a filter text lets through, for the settings that have one directive or none: the records
up to a level, of all parts of the plugin or of one part. All of such a text can be read. -/

namespace SchemaReport

open Text (isBlank)

/-- The setting of a log. Where the level is missing the log is off. -/
inductive LogSetting
  | unset
  | all (level? : Option Level)
  /-- For the modules whose path begins like this. -/
  | part (path : String) (level? : Option Level)

/-- Records of a level are let through by the same level, or one of a higher rank. -/
def Level.within (l : Level) (bound? : Option Level) : Bool := bound?.any (l.rank ≤ ·.rank)

/-- Without a setting there are warnings and errors. -/
def LogSetting.lets : LogSetting → LogRecord → Bool
  | .unset, r => r.level.within (some .warn)
  | .all bound?, r => r.level.within bound?
  | .part path bound?, r =>
    path.toList.isPrefixOf r.origin.target.toList && r.level.within bound?

/-- The name of a level, or `off`, in any letter case. -/
def NamesLevel (s : String) (level? : Option Level) : Prop :=
  s.toList.map Char.toLower = (level?.elim "off" (·.name)).toList.map Char.toLower

instance (s : String) (level? : Option Level) : Decidable (NamesLevel s level?) :=
  inferInstanceAs (Decidable (_ = _))

/-- There are no blanks and none of the characters that stand between the parts of a filter. -/
def IsModulePath (s : String) : Prop :=
  ∀ c ∈ s.toList, isBlank c = false ∧ c ≠ '=' ∧ c ≠ ',' ∧ c ≠ '/'

instance (s : String) : Decidable (IsModulePath s) := List.decidableBAll _ s.toList

/-- The ways to give a setting by a text. -/
inductive LogSetting.IsGiven : LogSetting → Option String → Prop
  | unset : IsGiven .unset none
  | all {s : String} {level? : Option Level} (hs : NamesLevel s level?) :
      IsGiven (.all level?) (some s)
  | part {path s : String} {level? : Option Level} (hp : IsModulePath path)
      (hs : NamesLevel s level?) : IsGiven (.part path level?) (some (path ++ "=" ++ s))

/-- The path of a module has nothing in it that divides a filter. -/
theorem IsModulePath.undivided {s : String} (h : IsModulePath s) :
    ∀ c ∈ s.toList, isBlank c = false ∧ c ≠ ',' ∧ c ≠ '/' := by
  intro c hc
  obtain ⟨unblank, -, rest⟩ := h c hc
  exact ⟨unblank, rest⟩

theorem toLower_eq_self {c : Char} (h : c.isUpper = false) : c.toLower = c := by
  unfold Char.toLower
  exact dif_neg fun range => Bool.false_ne_true (h.symm.trans (decide_eq_true range))

namespace NamesLevel

variable {s : String} {level? : Option Level}

theorem levelOf?_eq (h : NamesLevel s level?) : Directive.levelOf? s = some level? := by
  have same : s.toLower = (level?.elim "off" (·.name)).toLower := by
    rw [← String.toList_inj]
    show (s.map Char.toLower).toList = (String.map Char.toLower _).toList
    rw [String.toList_map, String.toList_map, h]
  unfold Directive.levelOf?
  rw [same]
  cases level? with
  | none => decide +kernel
  | some l => cases l <;> decide +kernel

theorem ne_empty (h : NamesLevel s level?) : s ≠ "" := by
  rintro rfl
  revert h
  cases level? with
  | none => decide
  | some l => cases l <;> decide

/-- A name is made of letters, and so it is when some of them are capitals. -/
theorem isLetter (h : NamesLevel s level?) : ∀ c ∈ s.toList, Options.IsLetter c := by
  intro c hc
  cases upper : c.isUpper with
  | true => exact .inl (Options.isUpper_iff.mp upper)
  | false =>
    have lower : c ∈ s.toList.map Char.toLower :=
      List.mem_map.mpr ⟨c, hc, toLower_eq_self upper⟩
    have letters : ((level?.elim "off" (·.name)).toList.map Char.toLower).all Char.isLower := by
      cases level? with
      | none => decide
      | some l => cases l <;> decide
    rw [h] at lower
    exact .inr (.inl (Options.isLower_iff.mp (List.all_eq_true.mp letters c lower)))

/-- So the name of a level could be that of a module. -/
theorem isModulePath (h : NamesLevel s level?) : IsModulePath s := by
  intro c hc
  obtain ⟨unblank, equals, comma⟩ := Options.plain_of_letter_or_digit (.inl (h.isLetter c hc))
  refine ⟨unblank, equals, comma, ?_⟩
  rintro rfl
  exact absurd (Options.isLetter_iff.mpr (h.isLetter _ hc)) (by decide)

end NamesLevel

/-! ### One directive -/

namespace Directive

variable {s path : String} {level? : Option Level}

theorem ofText_of_namesLevel (h : NamesLevel s level?) : ofText s = .ok ⟨none, level?⟩ := by
  have whole : s.toList.splitOn '=' = [s.toList] :=
    splitOn_of_notMem fun hc => (h.isModulePath _ hc).2.1 rfl
  simp only [ofText, whole, List.map_cons, List.map_nil, String.ofList_toList, h.levelOf?_eq]

theorem toList_part (path s : String) :
    (path ++ "=" ++ s).toList = path.toList ++ '=' :: s.toList := by
  simp

theorem ofText_part (hp : IsModulePath path) (hs : NamesLevel s level?) :
    ofText (path ++ "=" ++ s) = .ok ⟨some path, level?⟩ := by
  have cut : (path ++ "=" ++ s).toList.splitOn '=' = [path.toList, s.toList] := by
    rw [toList_part, splitOn_append_cons fun hc => (hp _ hc).2.1 rfl,
      splitOn_of_notMem fun hc => (hs.isModulePath _ hc).2.1 rfl]
  have trimmed : Text.trim s.toList = s.toList :=
    Text.trim_eq_self fun c hc => (hs.isModulePath c hc).1
  simp only [ofText, cut, List.map_cons, List.map_nil, String.ofList_toList, trimmed,
    if_neg hs.ne_empty, hs.levelOf?_eq]

/-- A text without commas and blanks is one directive. -/
theorem listOf_eq (hne : s ≠ "") (plain : ∀ c ∈ s.toList, isBlank c = false ∧ c ≠ ',') :
    listOf s.toList = [ofText s] := by
  have whole : s.toList.splitOn ',' = [s.toList] := splitOn_of_notMem fun hc => (plain _ hc).2 rfl
  have trimmed : Text.trim s.toList = s.toList := Text.trim_eq_self fun c hc => (plain c hc).1
  have kept : [s.toList].filter (· ≠ []) = [s.toList] :=
    List.filter_eq_self.mpr (by simpa using hne)
  rw [listOf, whole, List.map_singleton, trimmed, kept, List.map_singleton, String.ofList_toList]

end Directive

/-! ### The filter -/

namespace LogSetting

/-- The one directive of a setting. -/
def directive : LogSetting → Directive
  | .unset => ⟨none, some .warn⟩
  | .all level? => ⟨none, level?⟩
  | .part path level? => ⟨some path, level?⟩

/-- What gives a setting is its directive, and nothing that would separate directives. -/
theorem IsGiven.ofText_eq {setting : LogSetting} {s : String} (h : setting.IsGiven (some s)) :
    Directive.ofText s = .ok setting.directive ∧ s ≠ "" ∧
      ∀ c ∈ s.toList, isBlank c = false ∧ c ≠ ',' ∧ c ≠ '/' := by
  cases h with
  | all hs => exact ⟨Directive.ofText_of_namesLevel hs, hs.ne_empty, hs.isModulePath.undivided⟩
  | part hp hs =>
    refine ⟨Directive.ofText_part hp hs, fun e => ?_, ?_⟩
    · have texts := congrArg String.toList e
      rw [Directive.toList_part] at texts
      exact List.append_ne_nil_of_right_ne_nil _ (List.cons_ne_nil _ _) texts
    · rw [Directive.toList_part, List.forall_mem_append, List.forall_mem_cons]
      exact ⟨hp.undivided, by decide, hs.isModulePath.undivided⟩

end LogSetting

namespace LogFilter

/-- A text that is one directive is understood. -/
theorem ofText_eq {s : String} {d : Directive} (h : Directive.ofText s = .ok d) (hne : s ≠ "")
    (plain : ∀ c ∈ s.toList, isBlank c = false ∧ c ≠ ',' ∧ c ≠ '/') :
    ofText s = ⟨[d], none⟩ ∧ complaints s = [] := by
  have whole : s.toList.splitOn '/' = [s.toList] := splitOn_of_notMem fun hc => (plain _ hc).2.2 rfl
  have one : Directive.listOf s.toList = [.ok d] := by
    rw [Directive.listOf_eq hne fun c hc => ⟨(plain c hc).1, (plain c hc).2.1⟩, h]
  simp only [ofText, complaints, halves?, whole, one]
  exact ⟨rfl, rfl⟩

theorem shows_singleton (d : Directive) (r : LogRecord) :
    shows ⟨[d], none⟩ r =
      (d.target.toList.isPrefixOf r.origin.target.toList && r.level.within d.level?) := by
  rw [shows, directiveFor?, List.foldl_cons, List.foldl_nil]
  cases d.target.toList.isPrefixOf r.origin.target.toList with
  | false => rfl
  | true =>
    obtain ⟨target?, level?⟩ := d
    cases level? <;> rfl

end LogFilter

namespace LogSetting

theorem shows_directive (setting : LogSetting) :
    LogFilter.shows ⟨[setting.directive], none⟩ = setting.lets := by
  funext r
  rw [LogFilter.shows_singleton]
  cases setting <;> rfl

variable {setting : LogSetting} {filter? : Option String}

/-- A record is shown if the setting lets it through. -/
theorem IsGiven.shows_eq (h : setting.IsGiven filter?) :
    ((filter?.map LogFilter.ofText).getD .standard).shows = setting.lets := by
  cases filter? with
  | none =>
    cases h
    exact shows_directive .unset
  | some s =>
    obtain ⟨directive, hne, plain⟩ := h.ofText_eq
    rw [Option.map_some, Option.getD_some, (LogFilter.ofText_eq directive hne plain).1,
      shows_directive]

end LogSetting

end SchemaReport
