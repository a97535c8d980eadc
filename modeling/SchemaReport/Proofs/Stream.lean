import Mathlib.Data.Nat.Notation
import SchemaReport.Stream

/-! What goes through streams. A source is described by the bytes that it hands out and how it
ends, whatever the pieces; a sink by where it refuses to take more, whatever the portions. All that
a write of some bytes can come to is that all of them arrive, or those before a refusal. -/

namespace SchemaReport

namespace Source

/-- The source hands out `bs`, in pieces of any size and with interruptions anywhere, and then it
ends, or fails for the reason given. -/
inductive Yields : Source → (bs : List UInt8) → (failure? : Option String) → Prop
  | ended : Yields [] [] none
  | closed (ds : Source) : Yields (.bytes [] :: ds) [] none
  | failed (reason : String) (ds : Source) : Yields (.failed reason :: ds) [] (some reason)
  | interrupted {ds : Source} {bs : List UInt8} {failure? : Option String}
      (h : Yields ds bs failure?) : Yields (.interrupted :: ds) bs failure?
  | piece {ds : Source} {bs : List UInt8} {failure? : Option String} {c : List UInt8}
      (hne : c ≠ []) (h : Yields ds bs failure?) : Yields (.bytes c :: ds) (c ++ bs) failure?

/-- Every source is described in this way. -/
theorem exists_yields (ds : Source) : ∃ bs failure?, ds.Yields bs failure? := by
  induction ds with
  | nil => exact ⟨[], none, .ended⟩
  | cons d ds ih =>
    obtain ⟨bs, failure?, h⟩ := ih
    cases d with
    | bytes c =>
      by_cases hc : c = []
      · rw [hc]
        exact ⟨[], none, .closed ds⟩
      · exact ⟨c ++ bs, failure?, .piece hc h⟩
    | interrupted => exact ⟨bs, failure?, .interrupted h⟩
    | failed reason => exact ⟨[], some reason, .failed reason ds⟩

/-- Only the bytes and the end of a source matter. -/
theorem Yields.readAll_eq {ds : Source} {bs : List UInt8} {failure? : Option String}
    (h : ds.Yields bs failure?) :
    ds.readAll = failure?.elim (.ok bs) fun reason => .error (.device reason) := by
  induction h with
  | ended => rfl
  | closed => rfl
  | failed => rfl
  | interrupted _ ih => exact ih
  | @piece ds bs failure? c hne _ ih =>
    obtain ⟨b, c, rfl⟩ := List.exists_cons_of_ne_nil hne
    rw [readAll, ih]
    cases failure? <;> rfl

end Source

/-- Why a sink takes nothing, if it takes nothing. -/
def Portion.refusal? : Portion → Option StreamError
  | .failed reason => some (.device reason)
  | .upTo 0 => some .nothingTaken
  | .upTo (_ + 1) => none

namespace Sink

variable {s : Sink}

/-- A write comes to an end when all bytes are taken, or at the first refusal. -/
theorem writeFrom_eq (s : Sink) (taken room : ℕ) (bs : List UInt8) :
    s.writeFrom taken room bs = ⟨bs, .ok ()⟩ ∨
      ∃ k e, k < bs.length ∧ (s.next (taken + k)).refusal? = some e ∧
        s.writeFrom taken room bs = ⟨bs.take k, .error e⟩ := by
  induction bs generalizing taken room with
  | nil => exact .inl rfl
  | cons b bs ih =>
    have goesOn (room : ℕ) : (s.writeFrom (taken + 1) room bs).cons b = ⟨b :: bs, .ok ()⟩ ∨
        ∃ k e, k < (b :: bs).length ∧ (s.next (taken + k)).refusal? = some e ∧
          (s.writeFrom (taken + 1) room bs).cons b = ⟨(b :: bs).take k, .error e⟩ := by
      rcases ih (taken + 1) room with h | ⟨k, e, hk, hr, h⟩
      · rw [h]
        exact .inl rfl
      · rw [h]
        refine .inr ⟨k + 1, e, Nat.succ_lt_succ hk, ?_, rfl⟩
        rw [← hr, Nat.add_right_comm, Nat.add_assoc]
    cases room with
    | succ room => exact goesOn room
    | zero =>
      cases hn : s.next taken with
      | failed reason =>
        exact .inr ⟨0, .device reason, Nat.succ_pos _, by rw [Nat.add_zero, hn]; rfl,
          by rw [writeFrom, hn]; rfl⟩
      | upTo n =>
        cases n with
        | zero =>
          exact .inr ⟨0, .nothingTaken, Nat.succ_pos _, by rw [Nat.add_zero, hn]; rfl,
            by rw [writeFrom, hn]; rfl⟩
        | succ n =>
          rw [writeFrom, hn]
          exact goesOn n

/-- The size of the portions does not matter as long as there is a byte in each. -/
theorem writeAll_of_takes {bs : List UInt8} (h : ∀ k < bs.length, (s.next k).refusal? = none) :
    s.writeAll bs = ⟨bs, .ok ()⟩ := by
  rcases s.writeFrom_eq 0 0 bs with done | ⟨k, e, hk, hr, -⟩
  · exact done
  · rw [Nat.zero_add, h k hk] at hr
    cases hr

/-- The sink takes the first `n` bytes, in portions of any size, and then refuses with `e`. -/
structure RefusesAt (s : Sink) (n : ℕ) (e : StreamError) : Prop where
  takes : ∀ k < n, ∃ m, s.next k = .upTo (m + 1) ∧ k + m < n
  refuses : (s.next n).refusal? = some e

theorem RefusesAt.writeFrom_eq {n : ℕ} {e : StreamError} (h : s.RefusesAt n e) (taken room : ℕ)
    (bs : List UInt8) (hle : taken + room ≤ n) (hlt : n < taken + bs.length) :
    s.writeFrom taken room bs = ⟨bs.take (n - taken), .error e⟩ := by
  induction bs generalizing taken room with
  | nil =>
    rw [List.length_nil] at hlt
    omega
  | cons b bs ih =>
    rw [List.length_cons] at hlt
    have goesOn (room : ℕ) (hle : taken + 1 + room ≤ n) :
        (s.writeFrom (taken + 1) room bs).cons b = ⟨(b :: bs).take (n - taken), .error e⟩ := by
      have next : n - taken = n - (taken + 1) + 1 := by omega
      rw [ih (taken + 1) room hle (by omega), next, List.take_succ_cons]
      rfl
    cases room with
    | succ room => exact goesOn room (by omega)
    | zero =>
      rcases Nat.lt_or_eq_of_le (Nat.le_of_add_right_le hle) with before | rfl
      · obtain ⟨m, hm, within⟩ := h.takes taken before
        rw [writeFrom, hm]
        exact goesOn m (by omega)
      · rw [Nat.sub_self, List.take_zero, writeFrom]
        have refused := h.refuses
        split
        next reason hn =>
          rw [hn] at refused
          obtain rfl := Option.some.inj refused
          rfl
        next hn =>
          rw [hn] at refused
          obtain rfl := Option.some.inj refused
          rfl
        next hn =>
          rw [hn] at refused
          cases refused

end Sink

end SchemaReport
