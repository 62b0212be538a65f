import CallLowering.Proofs.Restoring

/-!
# States that lowering reaches

Whatever lowering does, if it succeeds it reaches a state in the same function and under the same
context, in which all that was recorded is still there (`LowerState.Reaches`). An instruction that a
function holds (`Recording.Holds`) it holds from then on.
-/

namespace CallLowering

namespace Recording

variable {code code' : Recording} {func : FuncId}

/-- A block of the function has the instruction. -/
def Holds (code : Recording) (func : FuncId) (instruction : Instruction) : Prop :=
  ∃ b, code.Owns func b ∧ instruction ∈ code.instructionsOf b

theorem Holds.later {instruction : Instruction} (holds : code.Holds func instruction)
    (later : code.Extends code') : code'.Holds func instruction := by
  obtain ⟨b, owned, member⟩ := holds
  exact ⟨b, owned.later later, (later.instructionsOf b).subset member⟩

/-- An operation that is recorded goes to the function at the cursor. -/
theorem StandsIn.written {block : BlockId} (stands : code.StandsIn func)
    (here : code.cursor = some block) (op : Operation) :
    (code.written block op).Holds func ⟨code.resultOf op, op⟩ := by
  obtain ⟨b, atBlock, owns⟩ := stands
  obtain rfl : b = block := Option.mem_unique atBlock here
  refine ⟨b, owns.later (extends_written b op), ?_⟩
  obtain ⟨_, present, _⟩ := owns
  rw [written_instructionsOf_self present]
  exact List.mem_append_right _ (List.mem_singleton_self _)

end Recording

/-- A later state of lowering, in the same function and under the same context. -/
structure LowerState.Reaches (func : FuncId) (s s' : LowerState) : Prop where
  stands : s'.code.StandsIn func
  later : s.code.Extends s'.code
  context : s'.context = s.context
  faithful : s.Faithful → s'.Faithful

namespace LowerState.Reaches

variable {α : Type} {env : Env} {func : FuncId} {s s1 s' : LowerState} {act : Lowering α} {a : α}
  {holds : α → Prop} {depth : Nat}

theorem trans (first : s.Reaches func s1) (second : s1.Reaches func s') : s.Reaches func s' where
  stands := second.stands
  later := first.later.trans second.later
  context := second.context.trans first.context
  faithful here := second.faithful (first.faithful here)

variable (stands : s.code.StandsIn func)

include stands

/-- What keeps to the rules reaches such a state. -/
theorem of_stays (stays : ∀ γ : Standing, γ.Sound (.any env) → Stays (.any env) γ ∅ act holds)
    (ran : act (Lower.lowerExprWithin depth) env s = .ok a s') : s.Reaches func s' := by
  have outcome : Outcome (fun _ s' => s.Reaches func s') (fun _ _ => True)
      (act (Lower.lowerExprWithin depth) env s) :=
    (stands.fits.run (stays _ LowerState.standing_any)
      (Lower.lowerExprWithin_walks depth).fitting).mono (fun _ _ ended =>
        ⟨(ended.settled func rfl).stands, ended.kept.code, ended.context, ended.kept.faithful⟩)
      fun _ _ _ => trivial
  rw [ran] at outcome
  exact outcome

theorem of_still {act : Lower α} (stays : ∀ γ : Standing, Stays (.any env) γ ∅ (fun _ => act) holds)
    (ran : act env s = .ok a s') : s.Reaches func s' :=
  @of_stays _ _ _ _ _ (fun _ => act) _ _ 0 stands (fun γ _ => stays γ) ran

theorem of_plain {act : Lower α} [act.Plain] (ran : act env s = .ok a s') :
    s.Reaches func s' := of_still stands (fun _ => Goes.plain.moves) ran

end LowerState.Reaches

end CallLowering
