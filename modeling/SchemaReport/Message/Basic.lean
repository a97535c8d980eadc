import SchemaReport.Schema.Message

/-! Messages: a record has one slot for each field of its type, in the order of declaration. What
a slot can hold follows from the kind of the field, so a text never stands where a number
belongs, and a nested message has the type that its field names. -/

namespace SchemaReport

mutual

inductive Record : List Field → Type
  | nil : Record []
  | cons {f : Field} {fs : List Field} (s : Slot f.kind) (r : Record fs) : Record (f :: fs)

inductive Slot : Kind → Type
  | required {s : Scalar} (v : s.Value) : Slot (.required s)
  | optional {s : Scalar} (v : Option s.Value) : Slot (.optional s)
  | repeated {s : Scalar} {packed : Bool} (vs : List s.Value) : Slot (.repeated s packed)
  | absent {t : MessageType} : Slot (.message t)
  | present {t : MessageType} (m : Record t.fields) : Slot (.message t)
  | messages {t : MessageType} (ms : Messages t) : Slot (.messages t)

/-- A list of messages of one type. -/
inductive Messages : MessageType → Type
  | nil {t : MessageType} : Messages t
  | cons {t : MessageType} (m : Record t.fields) (ms : Messages t) : Messages t

end

abbrev Message (t : MessageType) := Record t.fields

/-- Nothing given: required fields hold zero. -/
def Slot.empty : (k : Kind) → Slot k
  | .required s => .required s.zero
  | .optional _ => .optional none
  | .repeated _ _ => .repeated []
  | .message _ => .absent
  | .messages _ => .messages .nil

def Record.empty : (fs : List Field) → Record fs
  | [] => .nil
  | f :: fs => .cons (.empty f.kind) (.empty fs)

def Message.empty (t : MessageType) : Message t := Record.empty t.fields

namespace Messages

def toList {t : MessageType} : Messages t → List (Message t)
  | .nil => []
  | .cons m ms => m :: ms.toList

def ofList {t : MessageType} : List (Message t) → Messages t
  | [] => .nil
  | m :: ms => .cons m (ofList ms)

def add {t : MessageType} : Messages t → Message t → Messages t
  | .nil, m => .cons m .nil
  | .cons m' ms, m => .cons m' (ms.add m)

theorem toList_ofList {t : MessageType} : (ms : List (Message t)) → (ofList ms).toList = ms
  | [] => rfl
  | m :: ms => congrArg (m :: ·) (toList_ofList ms)

theorem ofList_toList {t : MessageType} : (ms : Messages t) → ofList ms.toList = ms
  | .nil => rfl
  | .cons m ms => congrArg (Messages.cons m) (ofList_toList ms)

theorem toList_add {t : MessageType} : (ms : Messages t) → (m : Message t) →
    (ms.add m).toList = ms.toList ++ [m]
  | .nil, _ => rfl
  | .cons m' ms, m => congrArg (m' :: ·) (toList_add ms m)

theorem add_ofList {t : MessageType} (ms : List (Message t)) (m : Message t) :
    (ofList ms).add m = ofList (ms ++ [m]) := by
  rw [← ofList_toList ((ofList ms).add m), toList_add, toList_ofList]

theorem sizeOf_lt_of_mem {t : MessageType} {m : Message t} :
    {ms : Messages t} → m ∈ ms.toList → sizeOf m < sizeOf ms
  | .cons m' ms, h => by
    simp only [toList, List.mem_cons] at h
    rcases h with rfl | h
    · simp only [cons.sizeOf_spec]; omega
    · have := sizeOf_lt_of_mem h
      simp only [cons.sizeOf_spec]; omega

end Messages

namespace Slot

def value {s : Scalar} : Slot (.required s) → s.Value
  | .required v => v

def value? {s : Scalar} : Slot (.optional s) → Option s.Value
  | .optional v => v

def values {s : Scalar} {packed : Bool} : Slot (.repeated s packed) → List s.Value
  | .repeated vs => vs

def message? {t : MessageType} : Slot (.message t) → Option (Message t)
  | .absent => none
  | .present m => some m

def toList {t : MessageType} : Slot (.messages t) → List (Message t)
  | .messages ms => ms.toList

end Slot

/-- The kind of the field with number `n`. -/
def kindOf? : List Field → Nat → Option Kind
  | [], _ => none
  | f :: fs, n => if f.number = n then some f.kind else kindOf? fs n

namespace Record

/-- The slot of the field with number `n`. -/
def slot {k : Kind} : {fs : List Field} → Record fs → (n : Nat) → kindOf? fs n = some k → Slot k
  | f :: _, .cons s r, n, h =>
    if hn : f.number = n then
      have e : f.kind = k := by simpa [kindOf?, hn] using h
      e ▸ s
    else r.slot n (by simpa [kindOf?, hn] using h)

/-- The record with another slot for the field with number `n`. -/
def setSlot {k : Kind} : {fs : List Field} → Record fs → (n : Nat) → kindOf? fs n = some k →
    Slot k → Record fs
  | f :: _, .cons s r, n, h, s' =>
    if hn : f.number = n then
      have e : f.kind = k := by simpa [kindOf?, hn] using h
      .cons (e ▸ s') r
    else .cons s (r.setSlot n (by simpa [kindOf?, hn] using h) s')

/-- What is put into a slot is found there. -/
theorem slot_setSlot {k : Kind} {fs : List Field} (r : Record fs) (n : Nat)
    (h : kindOf? fs n = some k) (s : Slot k) : (r.setSlot n h s).slot n h = s := by
  induction fs with
  | nil => simp [kindOf?] at h
  | cons f fs ih =>
    cases r with
    | cons s' r =>
      by_cases hn : f.number = n
      · have e : f.kind = k := by simpa [kindOf?, hn] using h
        subst e
        simp only [slot, setSlot, hn, dite_true]
      · simp only [slot, setSlot, hn, dite_false]
        exact ih r (by simpa [kindOf?, hn] using h)

/-- The other slots stay as they are. -/
theorem slot_setSlot_of_ne {k k' : Kind} {fs : List Field} (r : Record fs) {n n' : Nat}
    (h : kindOf? fs n = some k) (h' : kindOf? fs n' = some k') (s : Slot k) (hne : n' ≠ n) :
    (r.setSlot n h s).slot n' h' = r.slot n' h' := by
  induction fs with
  | nil => simp [kindOf?] at h
  | cons f fs ih =>
    cases r with
    | cons s' r =>
      by_cases hn : f.number = n
      · subst hn
        have hn' : f.number ≠ n' := hne.symm
        simp only [setSlot, dite_true, slot, hn', dite_false]
      · by_cases hn' : f.number = n'
        · subst hn'
          simp only [setSlot, hn, dite_false, slot, dite_true]
        · simp only [setSlot, hn, dite_false, slot, hn']
          exact ih r _ _

theorem sizeOf_slot_lt {k : Kind} {fs : List Field} (r : Record fs) (n : Nat)
    (h : kindOf? fs n = some k) : sizeOf (r.slot n h) < sizeOf r := by
  induction fs with
  | nil => simp [kindOf?] at h
  | cons f fs ih =>
    cases r with
    | cons s r =>
      by_cases hn : f.number = n
      · have e : f.kind = k := by simpa [kindOf?, hn] using h
        subst e
        simp only [slot, hn, dite_true, cons.sizeOf_spec]; omega
      · have := ih r (by simpa [kindOf?, hn] using h)
        simp only [slot, hn, dite_false, cons.sizeOf_spec]; omega

end Record

theorem Slot.sizeOf_lt_of_mem {t : MessageType} {s : Slot (.messages t)} {m : Message t}
    (h : m ∈ s.toList) : sizeOf m < sizeOf s := by
  cases s with
  | messages ms =>
    have := Messages.sizeOf_lt_of_mem h
    simp only [messages.sizeOf_spec]; omega

end SchemaReport
