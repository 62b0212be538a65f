import CallLowering.Proofs.Judgement

/-!
# Reading, writing and converting values

The functions of lowering that read and write storage and convert values record plain code: they
have no effect in terms of direct evaluation, and they answer available values when they are given
available ones.
-/

namespace CallLowering

namespace Lower

variable {Γ : Scenario} {σ : Setting} {known : Known} {s : LowerState} {v ptr : ValueId}
  {loc : Location} {name : String} {ty owner source : Ty}

theorem intConstant_does {value : Int64} :
    Does Γ σ 1 known s (intConstant ty value) (Γ.Avail σ) := by
  unfold intConstant
  split <;> exact .constant

theorem floatConstant_does {value : Float} :
    Does Γ σ 1 known s (floatConstant ty value) (Γ.Avail σ) := by
  unfold floatConstant
  split <;> exact .constant

theorem tagConstant_does : Does Γ σ 1 known s (tagConstant ty loc) (Γ.Avail σ) := by
  unfold tagConstant
  exact .types_bind (.orFault_bind fun _ _ => .constant)

section

variable (usable : Γ.Avail σ known s ptr)

include usable

theorem loadSlot_does : Does Γ σ 1 known s (loadSlot ptr ty) (Γ.Avail σ) := by
  unfold loadSlot
  split
  · exact .pure usable
  · split
    · exact .nilValue
    · exact .types_bind (.emit rfl (.cons usable .nil))

theorem fieldAddress_does :
    Does Γ σ 1 known s (fieldAddress owner ptr name loc) fun known' s' found =>
      Γ.Avail σ known' s' found.1 := by
  unfold fieldAddress
  refine .types_bind (.orFault_bind fun _ _ => ?_)
  exact .silently (.emit rfl (.cons usable .nil)) fun _ avail => .pure avail

theorem loadField_does :
    Does Γ σ 1 known s (loadField owner ptr name loc) fun known' s' found =>
      Γ.Avail σ known' s' found.1 := by
  unfold loadField
  refine .silently (fieldAddress_does usable) fun _ avail => ?_
  exact .silently (loadSlot_does avail) fun _ avail => .pure avail

end

theorem readBinding_does {binding : Binding} (usable : Γ.Avail σ known s binding.ref) :
    Does Γ σ 1 known s (readBinding binding) (Γ.Avail σ) := by
  cases binding with
  | value v ty => exact .pure usable
  | slot ptr ty => exact loadSlot_does usable

/-- `self` can be read. -/
theorem selfInstance_does :
    Does Γ σ 1 known s (selfInstance loc) fun known' s' found => Γ.Avail σ known' s' found.2 := by
  unfold selfInstance
  refine .ready fun ready => .context_bind (.orFault_bind fun binding bound => ?_)
  obtain ⟨_, _, _, self, _⟩ := ready.contexts
  exact .silently (readBinding_does (self binding bound)) fun _ avail => .pure avail

variable {ret : Ty} (usable : Γ.Avail σ known s v)

include usable

/-- A conversion answers an available value and records nothing in a block that has ended. -/
theorem coerce_does {dest : Ty} :
    Does Γ σ 1 known s (coerce v source dest) fun known' s' w =>
      Γ.Avail σ known' s' w ∧ (s.code.isTerminated = true → s'.code.isTerminated = true) := by
  unfold coerce
  split
  · exact .pure ⟨usable, id⟩
  · refine .isTerminated_bind ?_
    split
    · exact .pure ⟨usable, id⟩
    · rename_i running
      split
      · exact .pure ⟨usable, id⟩
      · exact (Does.emit rfl (.cons usable .nil)).mono fun _ avail =>
          ⟨avail, fun ended => absurd ended running⟩

theorem storeSlot_does (stored : Γ.Avail σ known s ptr) :
    Does Γ σ 1 known s (storeSlot v ptr ty) fun _ _ _ => True := by
  unfold storeSlot
  split
  · exact .types_bind (.emitEffect rfl (.cons stored (.cons usable .nil)))
  · split
    · exact .pure trivial
    · exact .emitEffect rfl (.cons usable (.cons stored .nil))

theorem spill_does : Does Γ σ 1 known s (spill v ty name) (Stored σ) := by
  unfold spill
  refine .types_bind (.silently .alloca fun later stored => ?_)
  refine .silently (storeSlot_does (usable.mono later) stored.avail) fun later _ => ?_
  exact .pure (stored.mono later)

/-- A function ends with its return. -/
theorem emitReturn_does (returns : σ.region.ret = Γ.env.program.types.returnType ret) :
    Does Γ σ .halt known s (emitReturn v source ret) fun _ s' _ => s'.code.isTerminated = true := by
  unfold emitReturn
  refine .isTerminated_bind ?_
  split
  · rename_i ended
    exact .dead ended (.pure ended)
  · split
    · exact .unreachable
    · refine .types_bind ?_
      rw [← returns]
      split
      · rename_i isVoid
        refine .stop rfl rfl .nil fun value same => ?_
        cases same
        exact iff_of_true rfl (beq_iff_eq.mp isVoid)
      · rename_i isValued
        have valued : ∀ {w value}, Operation.ret (some w) = .ret value →
            (value = none ↔ σ.region.ret = .void) := by
          intro w value same
          cases same
          exact iff_of_false (Option.some_ne_none _) fun isVoid => isValued (beq_iff_eq.mpr isVoid)
        refine .silently (coerce_does usable) fun _ avail => ?_
        split
        · refine .types_bind (.silently (.emit rfl (.cons avail.1 .nil)) fun _ avail => ?_)
          exact .stop rfl rfl (.cons avail .nil) fun _ => valued
        · exact .stop rfl rfl (.cons avail.1 .nil) fun _ => valued

end Lower

end CallLowering
