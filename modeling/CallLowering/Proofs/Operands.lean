import CallLowering.Proofs.Functions
import CallLowering.Proofs.Guarding

/-!
# Walking through operands

The operands of a call of several candidates are evaluated once, in order, before a candidate is
tried. A walk makes their calls and then knows the run-time types behind the tags that were read
(`dispatchReceiver_passes`, `dispatchArgs_passes`).
-/

namespace CallLowering

/-! ## Lowering operands -/

variable {expr : Expr} {calls : List String} {program : Program}

/-- A call that is an operand calls a foreign function without a block. -/
theorem Program.Operand.of_call {site : Call} (operand : program.Operand expr calls)
    (kind : expr.kind = .call site) :
    (∃ name defn, site.targets = [name] ∧ program.target? name = some defn ∧
      defn.foreign.isSome = true) ∧ site.block = none := by
  cases operand with
  | read free =>
    rw [kind] at free
    cases free
  | foreign kind' target resolved isForeign _ _ _ _ blockless =>
    cases kind.symm.trans kind'
    exact ⟨⟨_, _, target, resolved, by rw [isForeign]; rfl⟩, blockless⟩

theorem ExprKind.children_of_free {kind : ExprKind} (free : kind.isSideEffectFree = true) :
    kind.children = [] := by
  cases kind <;> first | rfl | cases free

/-- What is inside an operand is an operand. -/
theorem Program.Operand.child {inner : Expr} (operand : program.Operand expr calls)
    (member : inner ∈ expr.kind.children) : ∃ calls', program.Operand inner calls' := by
  cases operand with
  | read free =>
    rw [ExprKind.children_of_free free] at member
    cases member
  | @foreign _ site _ _ _ _ kind _ _ _ _ _ receiver argless blockless =>
    rw [kind, ExprKind.children, argless, blockless] at member
    simp only [List.append_nil, Option.map_none, Option.toList_none, Option.mem_toList] at member
    exact ⟨_, receiver inner member⟩

/-- The lowering of operands, which stays in one block if every call is single. -/
def Scenario.ofOperands (env : Env) (single : Prop) : Scenario where
  toRules := ⟨False, single, False, single, env.program.Declares⟩
  env := env
  listed _ announced := announced.declares
  sources := {expr | ∃ calls, env.program.Operand expr calls}
  child := by
    rintro expr ⟨calls, operand⟩ inner member
    exact operand.child member
  default := by
    rintro call defn ⟨⟨expr, ⟨calls, operand⟩, kind⟩, name, target, found⟩ evaluates
    obtain ⟨⟨name', defn', targets, found', isForeign⟩, blockless⟩ := operand.of_call kind
    rw [targets, List.mem_singleton] at target
    subst target
    obtain rfl : defn = defn' := Option.mem_unique found found'
    obtain domestic | passes := evaluates
    · rw [domestic] at isForeign
      cases isForeign
    · rw [blockless] at passes
      cases passes
  body := by
    rintro call defn ⟨⟨expr, ⟨calls, operand⟩, kind⟩, _⟩ passes
    rw [(operand.of_call kind).2] at passes
    cases passes
  leaves isSealed := isSealed.elim
  noReturn isSealed := isSealed.elim
  proper isSealed := isSealed.elim
  single := by
    rintro _ expr ⟨calls, operand⟩ call kind
    obtain ⟨⟨name, _, targets, _⟩, _⟩ := operand.of_call kind
    rw [targets]
    rfl
  hygienic strict := strict.elim
  simple := by
    rintro _ expr ⟨calls, operand⟩
    cases kind : expr.kind with
    | call site =>
      obtain ⟨⟨name, _, targets, _⟩, blockless⟩ := operand.of_call kind
      rw [ExprKind.isFlat, blockless, targets]
      rfl
    | yield | breakWith | nextWith | procLiteral | rescue =>
      cases operand with
      | read free =>
        rw [kind] at free
        cases free
      | foreign kind' => cases kind.symm.trans kind'
    | _ => rfl

/-- Outside blocks, being ready does not depend on what is promised about the program. -/
theorem Ready.recast {Γ : Scenario} (Γ' : Scenario) {σ : Setting} {known : Known} {s : LowerState}
    (ready : Ready Γ σ known s) (same : Γ.env = Γ'.env) (unhanded : σ.context.yieldTarget = none)
    (strict : Γ'.strict → Γ.strict) (unhandled : σ.region.handlers = []) : Ready Γ' σ known s where
  __ := ready
  memo := same ▸ ready.memo
  target := same ▸ ready.target
  types := same ▸ ready.types
  contexts := by
    obtain ⟨rooted, inside, readable, self, scope, breaks, nexts, _, _⟩ := ready.contexts
    refine .intro rooted inside ?_ ?_ ?_ breaks nexts ?_ ?_
    · exact fun name binding found visible strict' => readable name binding found visible (strict strict')
    · exact fun binding bound strict' => self binding bound (strict strict')
    · exact fun binding bound strict' => scope binding bound (strict strict')
    · intro block caller join handed
      cases unhanded.symm.trans handed
    · intro block caller join handed
      cases unhanded.symm.trans handed
  root name binding found slot strict' := ready.root name binding found slot (strict strict')
  hidden name member := (ready.hidden name member).imp id fun usable binding found strict' =>
    usable binding found (strict strict')
  flat _ := unhandled

namespace Lower

variable {env : Env} {σ : Setting} {known : Known} {s s' : LowerState} {depth : Nat}
  {calls : List String} {index number : Nat} {v : ValueId}

/-- A walk through the code of an operand makes the calls of the operand. -/
theorem lowerUsed_passes (operand : env.program.Operand expr calls)
    (ready : Ready (.ofOperands env True) σ known s)
    (ran : lowerUsed (lowerExprWithin depth) expr env s = .ok v s') (walk : Walk) :
    Passes s.code s'.code calls [] walk (walk.calling calls) :=
  ((lowerExprWithin_handles (.ofOperands env True) depth).used (.inl ⟨calls, operand⟩)).passes trivial
    trivial ready ran (Evaluation.within_of_operand operand) walk

/-- A walk through the code of a hidden argument makes the calls of the argument and then reads its
tag, if there is one. -/
theorem dispatchArg_passes {arg : Expr} {hidden : DispatchArg}
    (operand : env.program.Operand arg calls) (ready : Ready (.ofOperands env True) σ known s)
    (ran : dispatchArg (lowerExprWithin depth) number index arg env s = .ok hidden s') (walk : Walk) :
    ∃ walk', Passes s.code s'.code calls [] walk walk' ∧
      walk'.assumed = (if arg.kind.supportsAutocast then walk.assumed else walk.assumed.tail) ∧
      walk'.Finds s'.code hidden.tag
        (if arg.kind.supportsAutocast then none else some (walk.assumed.headD arg.ty)) ∧
      ∃ name, hidden.expr.kind = .var name := by
  unfold dispatchArg at ran
  have evaluated : ¬isEvaluatedByCallee arg = true := by
    unfold isEvaluatedByCallee
    split
    · rename_i kind
      cases operand with
      | read free => rw [kind] at free; cases free
      | foreign kind' => cases kind.symm.trans kind'
    · rename_i kind
      cases operand with
      | read free => rw [kind] at free; cases free
      | foreign kind' => cases kind.symm.trans kind'
    · exact Bool.false_ne_true
  rw [if_neg evaluated] at ran
  obtain ⟨_, _, used, ran1⟩ := bind_ok ran
  have passes := lowerUsed_passes operand ready used walk
  obtain ⟨_, _, declared, ran2⟩ := bind_ok ran1
  cases declared
  split at ran2
  · rename_i autocast
    cases ran2
    rw [if_pos autocast, if_pos autocast]
    exact ⟨_, passes, rfl, .untagged, _, rfl⟩
  · rename_i tagged
    obtain ⟨_, _, read, ran3⟩ := bind_ok ran2
    cases ran3
    rw [if_neg tagged, if_neg tagged]
    obtain ⟨walk', passes', rest, finds⟩ := emit_typeId_passes read (walk.calling calls)
    have both := passes.trans passes'
    rw [List.append_nil] at both
    exact ⟨walk', both, rest, finds, _, rfl⟩

theorem hideReceiver_passes {ty : Ty} {receiver : DispatchReceiver}
    (ran : hideReceiver number v ty env s = .ok receiver s') (walk : Walk) :
    ∃ walk', Passes s.code s'.code [] [] walk walk' ∧
      walk'.Finds s'.code receiver.tag
        (((some ty).filter Ty.passedAsSelf).map walk.assumed.headD) ∧
      walk'.assumed =
        if ((some ty).filter Ty.passedAsSelf).isSome then walk.assumed.tail else walk.assumed := by
  unfold hideReceiver at ran
  obtain ⟨_, _, declared, ran1⟩ := bind_ok ran
  cases declared
  rw [Option.filter_some]
  split at ran1
  · rename_i passed
    obtain ⟨_, _, read, ran2⟩ := bind_ok ran1
    cases ran2
    rw [if_pos passed]
    obtain ⟨walk', passes, rest, finds⟩ := emit_typeId_passes read walk
    exact ⟨walk', passes, finds, rest⟩
  · rename_i unpassed
    cases ran1
    rw [if_neg unpassed]
    exact ⟨walk, .refl, .untagged, rfl⟩

/-- A walk through the code of a hidden receiver makes the calls of the receiver and then reads its
tag, if there is one. -/
theorem dispatchReceiver_passes {call : Call} {defns : List Definition}
    {receiver : Option DispatchReceiver} {self : Ty}
    (operand : ∀ obj ∈ call.obj, env.program.Operand obj calls)
    (receiverless : call.obj = none → calls = []) (ready : Ready (.ofOperands env True) σ known s)
    (scopeless : σ.context.withScope = none)
    (isSelf : ∀ binding ∈ σ.context.selfBinding, binding.ty = self)
    (ran : dispatchReceiver (lowerExprWithin depth) call defns number env s = .ok receiver s')
    (walk : Walk) :
    ∃ walk', Passes s.code s'.code calls [] walk walk' ∧
      walk'.Finds s'.code (receiver.bind (·.tag))
        ((call.receiverTy? self defns).map walk.assumed.headD) ∧
      walk'.assumed =
        if (call.receiverTy? self defns).isSome then walk.assumed.tail else walk.assumed := by
  unfold dispatchReceiver at ran
  unfold Call.receiverTy?
  cases given : call.obj with
  | some obj =>
    rw [given] at ran
    obtain ⟨v, s1, used, ran1⟩ := bind_ok ran
    obtain ⟨hidden, s2, hid, ran2⟩ := bind_ok ran1
    cases ran2
    have passes := lowerUsed_passes (operand obj given) ready used walk
    obtain ⟨walk', passes', finds, rest⟩ := hideReceiver_passes hid (walk.calling calls)
    have both := passes.trans passes'
    rw [List.append_nil] at both
    exact ⟨walk', both, finds, rest⟩
  | none =>
    rw [given] at ran
    obtain rfl := receiverless given
    dsimp only at ran ⊢
    split at ran
    · rename_i taken
      rw [if_pos taken]
      obtain ⟨binding, s1, found, ran1⟩ := bind_ok ran
      obtain ⟨_, _, read, ran2⟩ := bind_ok ran1
      obtain ⟨_, _, hid, ran3⟩ := bind_ok ran2
      cases ran3
      obtain ⟨bound, rfl⟩ := orFault_ok found
      change (if call.usesWithScope then s1.context.withScope else s1.context.selfBinding) = _ at bound
      rw [ready.context, scopeless] at bound
      have selfBound : σ.context.selfBinding = some binding := by
        split at bound
        · cases bound
        · exact bound
      have usable : (Scenario.ofOperands env True).Avail σ known s1 binding.ref :=
        fun strict => strict.elim
      have passes := (readBinding_does usable).passes trivial trivial ready read .of_some walk
      rw [Walk.calling_nil] at passes
      obtain ⟨walk', passes', finds, rest⟩ := hideReceiver_passes hid walk
      rw [isSelf binding selfBound] at finds rest
      exact ⟨walk', passes.trans passes', finds, rest⟩
    · rename_i untaken
      cases ran
      rw [if_neg untaken]
      exact ⟨walk, .refl, .untagged, rfl⟩

/-- The setting of a dispatch in a function body, outside blocks and handlers. -/
structure Outermost (σ : Setting) : Prop where
  unhanded : σ.context.yieldTarget = none
  unhandled : σ.region.handlers = []

theorem Outermost.ready {single : Prop} (outermost : Outermost σ) (single' : Prop)
    (ready : Ready (.ofOperands env single) σ known s) : Ready (.ofOperands env single') σ known s :=
  ready.recast _ rfl outermost.unhanded id outermost.unhandled

theorem dispatchArgs_passes {args : List Expr} {calls : List (List String)} {names : Set String}
    {hidden : List DispatchArg} (operands : List.Forall₂ env.program.Operand args calls)
    (outermost : Outermost σ) (ready : Ready (.ofOperands env False) σ known s)
    (later : σ.seen < number)
    (concealed : Ready (.ofOperands env False) (σ.hiding names number) known s)
    (ran : dispatchArgs (lowerExprWithin depth) number index args env s = .ok hidden s')
    (walk : Walk) : ∃ walk', Passes s.code s'.code calls.flatten [] walk walk' ∧
      walk'.FindsArgs s'.code hidden (Observed.ofArgs args walk.assumed) ∧
      ∀ arg ∈ hidden, ∃ name, arg.expr.kind = .var name := by
  induction operands generalizing known s names index hidden walk with
  | nil =>
    cases ran
    exact ⟨walk, .refl, .nil, List.forall_mem_nil _⟩
  | @cons arg calls args callss operand operands ih =>
    unfold dispatchArgs at ran
    obtain ⟨first, s1, lowered, ran1⟩ := bind_ok ran
    obtain ⟨rest, _, others, ran2⟩ := bind_ok ran1
    cases ran2
    obtain ⟨walk1, passes1, assumed, finds, read⟩ :=
      dispatchArg_passes operand (outermost.ready True ready) lowered walk
    obtain ⟨_, lowers1, context1, _, _, concealed1, _⟩ :=
      dispatchArg_does (lowerExprWithin_handles (.ofOperands env False) depth) id later concealed
        ⟨calls, operand⟩ ready first s1 lowered
    obtain ⟨walk', passes', finds', reads⟩ :=
      ih (ready.after lowers1 context1) concealed1 others walk1
    have all : walk'.FindsArgs s'.code (first :: rest) (_ :: Observed.ofArgs args walk1.assumed) :=
      .cons (finds.since passes'.later passes'.since) finds'
    refine ⟨walk', passes1.trans passes', ?_, List.forall_mem_cons.mpr ⟨read, reads⟩⟩
    rw [assumed] at all
    rw [Observed.ofArgs]
    split at all
    · rename_i autocast
      rw [if_pos autocast]
      exact all
    · rename_i tagged
      rw [if_neg tagged]
      exact all

end Lower

end CallLowering
