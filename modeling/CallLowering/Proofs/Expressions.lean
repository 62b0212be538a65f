import CallLowering.Proofs.Dispatching

/-!
# Expressions

Lowering an expression does what direct evaluation of it does, with join points as frames
(`lowerExprWithin_handles`). One level of an expression is lowered over a function that lowers the
expressions inside it; the rest is an induction over the depth.
-/

namespace CallLowering

open Evaluation

namespace Lower

variable {Γ : Scenario} {σ : Setting} {known : Known} {s : LowerState}
  {inner : Expr → Lower ValueId} {meaning : Activation → Nat → Expr → Effect} {expr : Expr}
  {name : String} {ty : Ty} {loc : Location}

/-! ## Reading and assigning -/

theorem lowerVar_does (readable : Γ.strict → ¬IsHidden name ∨ name ∈ σ.hidden) :
    Does Γ σ 1 known s (lowerVar name ty loc) (Γ.Avail σ) := by
  unfold lowerVar
  refine .lookup_bind fun _ visible => .orFault_bind fun binding bound => ?_
  have usable : Γ.Avail σ known s binding.ref :=
    fun strict => visible binding bound (.inr (readable strict)) strict
  refine .silently (readBinding_does usable) fun _ avail => ?_
  exact (coerce_does avail).mono fun _ holds => holds.1

theorem lowerField_does : Does Γ σ 1 known s (lowerField name ty loc) (Γ.Avail σ) := by
  unfold lowerField
  refine .silently selfInstance_does @fun _ _ ⟨_, _⟩ _ avail => ?_
  refine .silently (loadField_does avail) @fun _ _ ⟨_, _⟩ _ avail => ?_
  exact (coerce_does avail).mono fun _ holds => holds.1

theorem selfRef_does :
    Does Γ σ 1 known s
      (do readBinding (← orFault (← context).selfBinding .noSelf loc)) (Γ.Avail σ) := by
  refine .ready fun ready => .context_bind (.orFault_bind fun binding bound => ?_)
  obtain ⟨_, _, _, self, _⟩ := ready.contexts
  exact readBinding_does (self binding bound)

theorem callInitializer_does :
    Does Γ σ (.call ("~" ++ name ++ ":init")) known s (callInitializer name) fun _ _ _ => True := by
  unfold callInitializer
  have listed := Γ.listed _ (.initializer name)
  refine .silently (.declareFn listed) fun _ named => ?_
  exact (emitCall_does ⟨listed, .of_length rfl rfl⟩ named .nil).discard

theorem lowerConst_does {initializer : Bool} :
    Does Γ σ (ofKind Γ.env.program meaning σ.context.activation σ.frames
        (.const name initializer) ty) known s (lowerConst name initializer ty loc) (Γ.Avail σ) := by
  have loaded : ∀ {known s}, Does Γ σ 1 known s (do loadSlot (← record (Emit.global name)) ty)
      (Γ.Avail σ) := fun {_ _} => .silently .global fun _ avail => loadSlot_does avail
  have initialized : Does Γ σ (if initializer then .call ("~" ++ name ++ ":init") else 1) known s (do
      if initializer then callInitializer name
      loadSlot (← record (Emit.global name)) ty) (Γ.Avail σ) := by
    cases initializer with
    | true => exact .finally callInitializer_does fun _ _ => loaded
    | false => exact loaded
  cases ty with
  | metaclass _ => exact tagConstant_does
  | _ => exact initialized

/-- What an expression does that is not seen to leave: it answers an available value. -/
theorem result_of_avail {effect : Effect} {act : Lower ValueId}
    (does : Does Γ σ effect known s act (Γ.Avail σ)) (stays : expr.leaves Γ.env.program = false) :
    Does Γ σ effect known s act (Γ.Result σ expr) :=
  does.mono fun _ avail => ⟨avail, fun _ leaves => absurd (leaves.symm.trans stays) nofun⟩

section

variable (handles : Handles Γ inner meaning)

include handles

/-- An assignment evaluates its value. -/
theorem lowerAssign_does {target : String} {value : Expr} (source : value ∈ Γ.sources) :
    Does Γ σ (meaning σ.context.activation σ.frames value) known s
      (lowerAssign inner target value) (Γ.Avail σ) := by
  unfold lowerAssign
  refine .finally (handles.used (.inl source)) fun _ ⟨avail, _⟩ => .isTerminated_bind ?_
  refine .ite (fun _ => .pure avail) fun _ => .lookup_bind fun found visible => ?_
  rcases found with _ | ⟨ptr, slotTy⟩ | ⟨_, _⟩
  · refine .silently (spill_does avail) fun later1 stored => ?_
    refine .silently (.declareSlot stored) fun later2 _ => ?_
    exact .pure (avail.mono (later1.trans later2))
  · have stored := visible _ rfl (.inl rfl)
    refine .silently (coerce_does avail) fun later1 ⟨converted, _⟩ => ?_
    refine .silently (storeSlot_does converted (stored.mono later1)) fun later2 _ => ?_
    exact .pure (avail.mono (later1.trans later2))
  · exact .fault

/-- A sequence evaluates its parts in order. -/
theorem lowerSeq_does {exprs : List Expr} (sources : ∀ expr ∈ exprs, expr ∈ Γ.sources) :
    Does Γ σ (all meaning σ.context.activation σ.frames exprs) known s
      (lowerSeq inner exprs) fun known' s' v => Γ.Avail σ known' s' v ∧
        (Γ.sealed → Expr.lastLeaves Γ.env.program exprs = true → s'.code.isTerminated = true) := by
  induction exprs generalizing known s with
  | nil => exact Does.nilValue.mono fun _ avail => ⟨avail, nofun⟩
  | cons first rest ih =>
    cases rest with
    | nil =>
      rw [all_singleton]
      exact handles σ known s first (.inl (sources first List.mem_cons_self))
    | cons second rest =>
      rw [all]
      refine .bind (handles.unused (.inl (sources first List.mem_cons_self))).discard ?_
      intro _ _ _ _ _
      exact ih (List.forall_mem_cons.mp sources).2

/-! ## One level of an expression -/

theorem lowerKind_does (settled : σ.entering = false) (source : expr ∈ Γ.sources) :
    Does Γ σ (ofKind Γ.env.program meaning σ.context.activation σ.frames expr.kind expr.ty)
      known s (lowerKind inner expr.kind expr.ty expr.loc) (Γ.Result σ expr) := by
  have children := Γ.child expr source
  have simple := fun flat => Γ.simple flat expr source
  obtain ⟨kind, _, _⟩ := expr
  cases kind with
  | nop | nil => exact result_of_avail .nilValue rfl
  | bool | char | string | symbol => exact result_of_avail .constant rfl
  | int => exact result_of_avail intConstant_does rfl
  | float => exact result_of_avail floatConstant_does rfl
  | var name =>
    refine result_of_avail (lowerVar_does fun strict => .inl ?_) rfl
    exact Γ.hygienic strict _ source name (List.mem_singleton_self _)
  | selfRef => exact result_of_avail selfRef_does rfl
  | field name => exact result_of_avail lowerField_does rfl
  | assign target value =>
    exact result_of_avail (lowerAssign_does handles (children value (List.mem_singleton_self _))) rfl
  | const name initializer => exact result_of_avail lowerConst_does rfl
  | call site =>
    refine .finally (lowerCallWith_does handles settled source rfl) fun _ holds => ?_
    refine (coerce_does holds.1).mono fun _ ⟨avail, kept⟩ => ⟨avail, ?_⟩
    exact fun isSealed leaves => kept (holds.2 isSealed leaves)
  | yield args scope =>
    refine result_of_avail (.finally (lowerYield_does handles (fun flat => nomatch simple flat)
      children) fun _ avail => ?_) rfl
    exact (coerce_does avail).mono fun _ holds => holds.1
  | breakWith value =>
    refine .ready fun ready => .context_bind ?_
    obtain ⟨_, _, _, _, _, breaks, _⟩ := ready.contexts
    rw [ofKind, σ.context.activation_breakTo]
    exact (lowerJump_does handles (fun flat => nomatch simple flat) breaks fun expr given =>
      children expr (Option.mem_toList.mpr given)).mono fun _ ⟨avail, ended⟩ =>
        ⟨avail, fun isSealed _ => ended isSealed⟩
  | nextWith value =>
    refine .ready fun ready => .context_bind ?_
    obtain ⟨_, _, _, _, _, _, nexts, _⟩ := ready.contexts
    rw [ofKind, σ.context.activation_nextTo]
    exact (lowerJump_does handles (fun flat => nomatch simple flat) nexts fun expr given =>
      children expr (Option.mem_toList.mpr given)).mono fun _ ⟨avail, ended⟩ =>
        ⟨avail, fun isSealed _ => ended isSealed⟩
  | out | discard => exact .fault
  | procLiteral block =>
    refine result_of_avail (materialize_does handles (fun flat => nomatch simple flat) ⟨?_, ?_⟩) rfl
    · exact children block.body (List.mem_singleton_self _)
    · exact fun strict => Γ.hygienic strict _ source
  | seq exprs => exact lowerSeq_does handles children
  | rescue body handler =>
    refine result_of_avail (lowerRescue_does handles (fun flat => nomatch simple flat) settled ?_ ?_) rfl
    · exact children body List.mem_cons_self
    · exact children handler (List.mem_cons_of_mem _ (List.mem_singleton_self _))

/-! ## Expressions of any depth -/

theorem lowerExprWith_handles :
    Handles Γ (lowerExprWith inner) fun activation frames expr =>
      ofKind Γ.env.program meaning activation frames expr.kind expr.ty := by
  intro σ known s expr lowerable
  unfold lowerExprWith
  refine .settled (.isTerminated_bind (.ite (fun ended => ?_) fun _ => ?_))
  · -- the rest of an expression is dead once the block has ended
    refine .dead ended (Does.nilKept.mono fun _ ⟨avail, kept⟩ => ⟨avail, fun _ _ => kept ended⟩)
  · obtain source | ⟨_, hidden, kind⟩ := lowerable
    · exact lowerKind_does handles rfl source
    · obtain ⟨_, _, _⟩ := expr
      cases kind
      exact result_of_avail (lowerVar_does fun _ => .inr hidden) rfl

end

/-- Lowering an expression does what direct evaluation does. -/
theorem lowerExprWithin_handles (Γ : Scenario) (depth : Nat) :
    Handles Γ (lowerExprWithin depth) (within Γ.env.program depth) := by
  induction depth with
  | zero => exact fun _ _ _ _ _ => .fault
  | succ depth ih => exact lowerExprWith_handles ih

end Lower

end CallLowering
