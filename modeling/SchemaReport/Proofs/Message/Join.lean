import SchemaReport.Message.Basic

/-! Two messages made into one, field by field: of an optional scalar the later value stands if
there is one, lists go one behind the other, and optional messages that are both there are joined in
turn. A required scalar holds zero whether it was given as zero or not at all, so there the later
value may be either. -/

namespace SchemaReport

mutual

/-- `joint` holds what `earlier` and `later` hold, the later where only one can stand. -/
inductive Record.Joins : {fs : List Field} → (earlier later joint : Record fs) → Prop
  | nil : Record.Joins .nil .nil .nil
  | cons {f : Field} {fs : List Field} {s s' s'' : Slot f.kind} {r r' r'' : Record fs}
      (hs : Slot.Joins s s' s'') (hr : Record.Joins r r' r'') :
      Record.Joins (.cons s r) (.cons s' r') (.cons s'' r'')

inductive Slot.Joins : {k : Kind} → (earlier later joint : Slot k) → Prop
  | given {s : Scalar} (v v' : s.Value) : Slot.Joins (.required v) (.required v') (.required v')
  | kept {s : Scalar} (v : s.Value) : Slot.Joins (.required v) (.required s.zero) (.required v)
  | optional {s : Scalar} (v v' : Option s.Value) :
      Slot.Joins (.optional v) (.optional v') (.optional (v'.or v))
  | repeated {s : Scalar} {packed : Bool} (vs vs' : List s.Value) :
      Slot.Joins (.repeated vs : Slot (.repeated s packed)) (.repeated vs') (.repeated (vs ++ vs'))
  | noLater {t : MessageType} (s : Slot (.message t)) : Slot.Joins s .absent s
  | noEarlier {t : MessageType} (m : Message t) : Slot.Joins .absent (.present m) (.present m)
  | both {t : MessageType} {m m' m'' : Message t} (h : Record.Joins m m' m'') :
      Slot.Joins (.present m) (.present m') (.present m'')
  | messages {t : MessageType} (ms ms' : List (Message t)) :
      Slot.Joins (.messages (.ofList ms)) (.messages (.ofList ms'))
        (.messages (.ofList (ms ++ ms')))

end

/-- Nothing later leaves everything as it is. -/
theorem Slot.joins_empty {k : Kind} (s : Slot k) : Slot.Joins s (.empty k) s := by
  cases s with
  | required v => exact .kept v
  | optional v => exact .optional v none
  | @repeated s packed vs =>
    have h := @Slot.Joins.repeated s packed vs []
    rwa [List.append_nil] at h
  | absent => exact .noLater _
  | present m => exact .noLater _
  | messages ms =>
    have h := Slot.Joins.messages ms.toList []
    rwa [List.append_nil, Messages.ofList_toList] at h

theorem Record.joins_empty {fs : List Field} (r : Record fs) : Record.Joins r (.empty fs) r := by
  induction fs with
  | nil =>
    cases r
    exact .nil
  | cons f fs ih =>
    cases r with
    | cons s r => exact .cons s.joins_empty (ih r)

end SchemaReport
