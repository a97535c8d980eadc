import SchemaReport.Proofs.Invocation
import SchemaReport.Proofs.Wire.Concatenation

/-! Fields that a type does not have. Whatever they hold, groups within groups among it and fields
that look like known ones, they leave no trace: the message is the one without them, and so is all
that the plugin does with it. -/

namespace SchemaReport.Wire

/-- The pieces are records, and none has the number of a field of the type. -/
def Unknown (t : MessageType) (ps : List Piece) : Prop :=
  ∀ p ∈ ps, IsRecord depthLimit p ∧ ∀ f ∈ t.fields, f.number ≠ p.number

theorem mergeWithin_unknown {n : ℕ} {t : MessageType} (m : Message t) {p : Piece}
    (hp : IsRecord n p) (hu : ∀ f ∈ t.fields, f.number ≠ p.number) :
    mergeWithin n m p.bytes = .ok m := by
  have hne := hp.bytes_ne_nil
  obtain ⟨k, ks, vs, rfl, hk, hv⟩ := hp
  have body : Reads (mergeRecord (mergeNested n) (skip n) t k m) vs m := by
    rw [mergeRecord_of_forall_ne hu]
    exact hv.reads_skip.map fun _ => m
  exact mergeWithin_of_steps (.single hne (hk.reads.bind body))

theorem Unknown.merge_eq {t : MessageType} {ps : List Piece} (h : Unknown t ps) (m : Message t) :
    merge m (ps.flatMap Piece.bytes) = .ok m := by
  induction ps with
  | nil => rfl
  | cons p ps ih =>
    obtain ⟨hp, hu⟩ := h p (by simp)
    have first := mergeWithin_unknown m hp hu
    exact (mergeWithin_append first _).trans (ih fun q hq => h q (by simp [hq]))

/-- Records of unknown fields can be merged into every message, which they leave as it is. In
between the fields of a message they change neither the message that is read nor the error, and the
plugin answers a request as it does without them. -/
theorem unknown_leaves_no_trace :
    (∀ t ps, Unknown t ps → (∀ m : Message t, merge m (ps.flatMap Piece.bytes) = .ok m) ∧
      ∀ a b (m : Message t), decode t a = .ok m →
        decode t (a ++ ps.flatMap Piece.bytes ++ b) = decode t (a ++ b)) ∧
    ∀ ps, Unknown .request ps → ∀ a b r, decode .request a = .ok r →
      ∀ (input input' : Source) (failure? : Option String) (output : Sink),
        input.Yields (a ++ ps.flatMap Piece.bytes ++ b) failure? →
        input'.Yields (a ++ b) failure? → execute input output = execute input' output := by
  have passed : ∀ t ps, Unknown t ps → ∀ a b (m : Message t), decode t a = .ok m →
      decode t (a ++ ps.flatMap Piece.bytes ++ b) = decode t (a ++ b) := by
    intro t ps h a b m ha
    calc decode t (a ++ ps.flatMap Piece.bytes ++ b)
        = merge m (ps.flatMap Piece.bytes ++ b) := by
          rw [List.append_assoc]
          exact mergeWithin_append ha _
      _ = merge m b := mergeWithin_append (h.merge_eq m) b
      _ = decode t (a ++ b) := (mergeWithin_append ha b).symm
  refine ⟨fun t ps h => ⟨h.merge_eq, passed t ps h⟩, ?_⟩
  intro ps h a b r ha input input' failure? output hi hi'
  exact execute_congr hi hi' (passed .request ps h a b r ha) output

/-- A group of number 99 with a field in it that would be a parameter, were it outside. -/
def strayGroup : Piece := ⟨99, [0x9b, 6, 18, 1, 98, 0x9c, 6]⟩

theorem strayGroup_isRecord : IsRecord depthLimit strayGroup := by
  have opened : IsKey [0x9b, 6] ⟨99, .startGroup⟩ :=
    ⟨.more (by decide) (.last (by decide) (by decide)), by decide, by decide⟩
  have closed : IsKey [0x9c, 6] ⟨99, .endGroup⟩ :=
    ⟨.more (by decide) (.last (by decide) (by decide)), by decide, by decide⟩
  have key : IsKey [18] ⟨2, .delimited⟩ :=
    ⟨.last (by decide) (by decide), by decide, by decide⟩
  have text : IsBody 99 ⟨2, .delimited⟩ ([1] ++ [98]) := .delimited (.last (by decide) (by decide))
  exact ⟨⟨99, .startGroup⟩, [0x9b, 6], [18] ++ (([1] ++ [98]) ++ [0x9c, 6]), rfl, opened,
    .groupField key text (.groupEnd closed)⟩

/-- The group changes neither the parameter of a request nor the error of one that is broken off
behind it, nor what reaches the output. -/
theorem unknown_strayGroup : Unknown .request [strayGroup] ∧
    decode .request ([18, 1, 97] ++ strayGroup.bytes ++ [18, 2, 99]) =
      decode .request [18, 1, 97, 18, 2, 99] ∧
    execute [.bytes ([18, 1, 97] ++ strayGroup.bytes)] narrow =
      execute [.bytes [18, 1, 97]] narrow := by
  have unknown : Unknown .request [strayGroup] := by
    intro p hp
    obtain rfl := List.mem_singleton.mp hp
    exact ⟨strayGroup_isRecord, by decide⟩
  obtain ⟨r, hr⟩ : ∃ r, decode .request [18, 1, 97] = .ok r := ⟨_, rfl⟩
  have decoded := (unknown_leaves_no_trace.1 .request _ unknown).2 [18, 1, 97] [18, 2, 99] r hr
  have executed := unknown_leaves_no_trace.2 _ unknown [18, 1, 97] [] r hr
  exact ⟨unknown, decoded, executed _ _ none narrow (.piece (by decide) .ended)
    (.piece (by decide) .ended)⟩

end SchemaReport.Wire
