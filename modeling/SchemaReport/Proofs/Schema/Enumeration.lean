import Mathlib.Data.List.Nodup
import SchemaReport.Schema.Enumeration

/-! No enumeration gives one name to two values, or one number, so the name of a value stands for its
number and the number has no other name. -/

namespace SchemaReport.Enumeration

theorem nodup_names (e : Enumeration) : (e.values.map Prod.fst).Nodup := by
  cases e <;> decide

theorem nodup_numbers (e : Enumeration) : (e.values.map Prod.snd).Nodup := by
  cases e <;> decide

/-- What is looked for by a part that nothing else has is found. -/
theorem find?_eq_some_of_nodup {α β : Type} [DecidableEq β] {f : α → β} {as : List α}
    (nodup : (as.map f).Nodup) {a : α} (ha : a ∈ as) :
    (as.find? fun b => f b = f a) = some a := by
  obtain ⟨b, hb⟩ : ∃ b, (as.find? fun b => f b = f a) = some b := by
    rw [← Option.isSome_iff_exists, List.find?_isSome]
    exact ⟨a, ha, by simp⟩
  have part : f b = f a := by simpa using List.find?_some hb
  rw [hb, List.inj_on_of_nodup_map nodup (List.mem_of_find?_eq_some hb) ha part]

theorem numberOf?_eq_some {e : Enumeration} {v : String × Int32} (h : v ∈ e.values) :
    e.numberOf? v.1 = some v.2 := by
  have found : (e.values.find? fun w => w.1 = v.1) = some v :=
    find?_eq_some_of_nodup e.nodup_names h
  rw [numberOf?, found, Option.map_some]

theorem numberOf?_eq_some_iff {e : Enumeration} {s : String} {n : Int32} :
    e.numberOf? s = some n ↔ (s, n) ∈ e.values := by
  refine ⟨fun h => ?_, numberOf?_eq_some⟩
  obtain ⟨v, hv, rfl⟩ := Option.map_eq_some_iff.mp h
  have name : v.1 = s := by simpa using List.find?_some hv
  exact name ▸ List.mem_of_find?_eq_some hv

theorem nameOf?_eq_some_iff {e : Enumeration} {n : Int32} {s : String} :
    e.nameOf? n = some s ↔ (s, n) ∈ e.values := by
  constructor
  · intro h
    obtain ⟨v, hv, rfl⟩ := Option.map_eq_some_iff.mp h
    have number : v.2 = n := by simpa using List.find?_some hv
    exact number ▸ List.mem_of_find?_eq_some hv
  · intro h
    have found : (e.values.find? fun w => w.2 = n) = some (s, n) :=
      find?_eq_some_of_nodup e.nodup_numbers h
    rw [nameOf?, found, Option.map_some]

/-- The name of a number stands for that number. -/
theorem numberOf?_of_nameOf? {e : Enumeration} {n : Int32} {s : String}
    (h : e.nameOf? n = some s) : e.numberOf? s = some n :=
  numberOf?_eq_some_iff.mpr (nameOf?_eq_some_iff.mp h)

end SchemaReport.Enumeration
