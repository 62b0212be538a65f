import CallLowering.Proofs.Passing

/-!
# Call instructions

A call instruction performs the call that direct evaluation performs, whether or not the callee is
invoked because it may raise (`callOrInvoke_does`). A substituted body performs none
(`substitute_does`), and a foreign call evaluates its arguments and calls the symbol of the foreign
function (`lowerForeign_does`).
-/

namespace CallLowering

open Evaluation

/-- What lowering a call of one definition answers: an available value. If the definition does not
return the block has ended, and so it has if the value is given the type without values. Without a
block, the value is given the type that the definition returns, and control stops after a call of a
definition that does not return. -/
structure Scenario.Returned (Γ : Scenario) (σ : Setting) (defn : Definition) (known : Known)
    (s : LowerState) (outcome : CallOutcome) : Prop where
  avail : Γ.Avail σ known s outcome.value
  never : Γ.sealed → defn.ret.isNoReturn = true → s.code.isTerminated = true
  proper : Γ.sealed → defn.ret.Proper → outcome.ty.isNoReturn = true → s.code.isTerminated = true
  ty : Γ.flat → defn.ret.isNoReturn = false → outcome.ty = defn.ret
  stops : Γ.flat → defn.isSubstituted = false → defn.ret.isNoReturn = true →
    s.code.EndsWith .unreachable

namespace Lower

variable {Γ : Scenario} {σ : Setting} {known : Known} {s : LowerState}
  {inner : Expr → Lower ValueId} {meaning : Activation → Nat → Expr → Effect}
  {call : Call} {defn : Definition}

/-! ## Calling and returning -/

variable {cls : ArgClass} {decl : FnDecl} {func : FuncId} {args : List ValueId} {loc : Location}
  {conv : Option CallConv} {ty : Ty} {s' : LowerState} {r : Region} {env : Env}

/-- A new block belongs to the function that is lowered. -/
theorem newBlock_ok {label : String} {block : BlockId} (valid : Site.Valid r ⟨s.code, s.joins⟩)
    (ran : newBlock label env s = .ok block s') :
    block = ⟨s.code.blocks.size⟩ ∧ s' = { s with code := (s.code.appendBlock r.func label).2 } := by
  obtain ⟨_, recorded, rfl⟩ := record_ok ran
  obtain ⟨_, data, atBlock, present, rfl, rfl⟩ := Emit.newBlock_ok recorded
  obtain ⟨_, present', owned⟩ := valid.placed_at atBlock
  rw [Option.mem_unique present present', owned]
  exact ⟨rfl, rfl⟩

section

variable (callable : Γ.Callable decl conv args) (named : s.code.Names func decl.name)

include callable named

theorem emitCall_does (avail : AllAvail Γ σ known s args) :
    Does Γ σ (.call decl.name) known s (emit (.call func args conv)) (Γ.Avail σ) := by
  have calls := callable.calls named
  rw [← named.funcName]
  refine (Does.write (.call func args conv) rfl (.plain rfl avail) ?_
    fun _ => Operation.noConfusion).mono fun _ holds _ => .inl holds.1
  intro func' same
  cases same
  exact calls

/-- A call that may raise goes on in a new block. -/
theorem emitInvoke_does {handler : BlockId} (handled : σ.region.handlers.head? = some handler)
    (avail : AllAvail Γ σ known s args) : Does Γ σ (.call decl.name) known s (do
        let normal ← newBlock "invoke_out"
        let value ← emit (.invoke func args normal handler conv)
        position normal
        return value) (Γ.Avail σ) := by
  have calls := callable.calls named
  rw [← named.funcName]
  intro ready v s' ran
  obtain ⟨_, _, made, ran1⟩ := bind_ok ran
  obtain ⟨_, _, invoked, ran2⟩ := bind_ok ran1
  obtain ⟨_, _, moved, ran3⟩ := bind_ok ran2
  cases ran3
  obtain ⟨rfl, rfl⟩ := newBlock_ok ready.valid made
  obtain ⟨_, atBlock, running, result, rfl⟩ := emit_ok invoked
  cases moved
  cases result
  have layered : ¬Γ.flat := by
    intro flat
    rw [ready.flat flat] at handled
    cases handled
  refine ⟨insert ⟨s.code.values.size⟩ known, .of_code ?_, rfl, fun _ => .inl (.inl rfl)⟩
  exact .invoke layered handled calls atBlock
    (Recording.appendBlock_terminator?.symm.trans running) avail

/-- Calling or invoking a function performs its call. -/
theorem callOrInvoke_does (avail : AllAvail Γ σ known s args) :
    Does Γ σ (.call decl.name) known s (callOrInvoke func args defn conv) (Γ.Avail σ) := by
  unfold callOrInvoke
  refine .ready fun ready => .context_bind ?_
  rw [ready.handlers]
  cases handled : σ.region.handlers.head? with
  | none => exact emitCall_does callable named avail
  | some handler =>
    dsimp only
    split
    · exact emitInvoke_does callable named handled avail
    · exact emitCall_does callable named avail

end

/-- Control stops after a call that does not return. -/
theorem neverReturns_endsWith {outcome : CallOutcome} (valid : Site.Valid r ⟨s.code, s.joins⟩)
    (ran : neverReturns env s = .ok outcome s') : s'.code.EndsWith .unreachable := by
  unfold neverReturns at ran
  obtain ⟨_, _, stopped, ran1⟩ := bind_ok ran
  obtain ⟨_, recorded, rfl⟩ := record_ok stopped
  obtain ⟨block, atBlock, _, rfl⟩ := Emit.effect_ok recorded
  cases ran1
  obtain ⟨_, present, _⟩ := valid.placed_at atBlock
  refine ⟨block, atBlock, ?_⟩
  change (s.code.written block .unreachable).terminator? block = _
  rw [Recording.terminator?, Recording.written_block?_self present, Option.bind_some,
    BasicBlock.terminator?, Array.back?_push]
  rfl

/-- After a call that does not return the block ends. -/
theorem neverReturns_does (never : defn.ret.isNoReturn = true) :
    Does Γ σ .halt known s neverReturns (Γ.Returned σ defn) := by
  have answers : Does Γ σ .halt known s neverReturns fun known' s' outcome =>
      Γ.Avail σ known' s' outcome.value ∧ s'.code.isTerminated = true := by
    unfold neverReturns
    refine .finally .unreachable fun _ ended => ?_
    refine .silently .nilKept fun _ ⟨avail, kept⟩ => ?_
    exact .pure ⟨avail, kept ended⟩
  intro ready outcome s' ran
  obtain ⟨known', lowers, context, avail, ended⟩ := answers ready outcome s' ran
  exact ⟨known', lowers, context, avail, fun _ _ => ended, fun _ _ _ => ended,
    fun _ returns => absurd (never.symm.trans returns) Bool.noConfusion,
    fun _ _ _ => neverReturns_endsWith ready.valid ran⟩

/-- An available value of the result type is an outcome if the callee returns. -/
theorem returned_of_returns {v : ValueId} (avail : Γ.Avail σ known s v)
    (returns : ¬defn.ret.isNoReturn = true) : Γ.Returned σ defn known s ⟨v, defn.ret⟩ :=
  ⟨avail, fun _ never => absurd never returns, fun _ _ never => absurd never returns, fun _ _ => rfl,
    fun _ _ never => absurd never returns⟩

variable {arg : Expr} {formal : Option Ty} {ret : Ty} {result value : ValueId}
  {slot : Option ValueId} {classes : List ArgClass} {params : List Param} {spec : ForeignSpec}

theorem uniformReturn_does (avail : Γ.Avail σ known s result) :
    Does Γ σ (.after defn.ret) known s (uniformReturn defn result) (Γ.Returned σ defn) := by
  unfold uniformReturn Effect.after
  split
  · rename_i never
    exact neverReturns_does never
  · rename_i returns
    split
    · refine .context_bind ?_
      split
      · refine .types_bind (.silently .alloca fun later stored => ?_)
        refine .silently (.emitEffect rfl (.cons (avail.mono later) (.cons stored.avail .nil))) ?_
        exact fun later _ => .pure (returned_of_returns (stored.mono later).avail returns)
      · refine .silently .nilValue fun _ avail => ?_
        exact .pure (returned_of_returns avail returns)
    · split
      · refine .silently .nilValue fun _ avail => ?_
        exact .pure (returned_of_returns avail returns)
      · exact .pure (returned_of_returns avail returns)

/-! ## Substituted bodies -/

theorem literalValue?_isSome (kind : ExprKind) (ty : Ty) :
    (literalValue? kind ty).isSome = kind.isLiteral := by
  cases kind <;> rfl

theorem literalValue_does {kind : ExprKind} {literal : Lower (ValueId × Ty)}
    (found : literalValue? kind ty = some literal) :
    Does Γ σ 1 known s literal fun known' s' value => Γ.Avail σ known' s' value.1 := by
  unfold literalValue? at found
  split at found <;> cases found
  · exact .silently .nilValue fun _ avail => .pure avail
  · exact .silently .constant fun _ avail => .pure avail
  · exact .silently .constant fun _ avail => .pure avail
  · exact .silently .constant fun _ avail => .pure avail
  · exact .silently intConstant_does fun _ avail => .pure avail
  · exact .silently floatConstant_does fun _ avail => .pure avail
  · exact .silently .constant fun _ avail => .pure avail

/-- A body is trivial if it is a literal, or reads a `self` that the definition takes. -/
theorem trivialBody_does {body : Expr} {receiver : Option (ValueId × Ty)}
    (avail : ∀ found ∈ receiver, Γ.Avail σ known s found.1) :
    Does Γ σ 1 known s (trivialBody ret body receiver) fun known' s' found =>
      (∀ value ∈ found, Γ.Avail σ known' s' value.1) ∧
        found.isSome = (body.kind.isLiteral || body.kind.readsSelf && receiver.isSome) := by
  have answered : ∀ {known' s' value ty shape}, Γ.Avail σ known' s' value →
      ∀ found ∈ some (value, ty, shape), Γ.Avail σ known' s' (found : ValueId × Ty × BodyShape).1 :=
    fun avail found same => by cases same; exact avail
  unfold trivialBody
  split
  · rename_i literal
    rw [Bool.and_eq_true] at literal
    refine .silently .nilValue fun _ avail => .pure ⟨answered avail, ?_⟩
    rw [literal.2]
    rfl
  · cases found : literalValue? body.kind body.ty with
    | some literal =>
      refine .silently (literalValue_does found) @fun _ _ ⟨value, ty⟩ _ avail => ?_
      refine .pure ⟨answered avail, ?_⟩
      rw [← literalValue?_isSome _ body.ty, found]
      rfl
    | none =>
      have other : body.kind.isLiteral = false := by
        rw [← literalValue?_isSome _ body.ty, found]
        rfl
      rw [other, Bool.false_or]
      dsimp only
      split
      · rename_i value owner kind
        rw [kind]
        split
        · exact .pure ⟨answered (avail _ rfl), rfl⟩
        · exact .silently tagConstant_does fun _ avail => .pure ⟨answered avail, rfl⟩
      · rename_i name value owner kind
        rw [kind]
        refine .silently (loadField_does (avail _ rfl)) @fun _ _ ⟨_, _⟩ _ avail => ?_
        exact .pure ⟨answered avail, rfl⟩
      · rename_i receiver _ _ notSelf notField
        refine .pure ⟨nofun, ?_⟩
        cases receiver with
        | none => exact (Bool.and_false _).symm
        | some receiver =>
          cases kind : body.kind with
          | selfRef => exact (notSelf receiver.1 receiver.2 kind rfl).elim
          | field name => exact (notField name receiver.1 receiver.2 kind rfl).elim
          | _ => rfl

/-- The call of a definition is substituted if its body is trivial. -/
theorem substitute_does {args : CallArgs}
    (avail : ∀ found ∈ args.receiver, Γ.Avail σ known s found.1)
    (given : args.receiver.isSome = defn.takesReceiver) :
    Does Γ σ 1 known s (substitute? defn args) fun known' s' found =>
      (∀ v ∈ found, Γ.Avail σ known' s' v) ∧ found.isSome = defn.isSubstituted := by
  unfold substitute? Definition.isSubstituted
  split
  · rename_i foreign
    refine .pure ⟨nofun, ?_⟩
    rw [foreign]
    rfl
  · rename_i domestic
    rw [Bool.eq_false_iff.mpr domestic]
    cases defn.body with
    | none => exact .pure ⟨nofun, rfl⟩
    | some body =>
      refine .silently (trivialBody_does avail) @fun _ _ found _ ⟨avail, shape⟩ => ?_
      rw [given] at shape
      rcases found with _ | ⟨value, ty, shape'⟩
      · exact .pure ⟨nofun, shape⟩
      · refine .silently .report fun later _ => ?_
        refine .silently (coerce_does ((avail _ rfl).mono later)) fun _ avail => ?_
        exact .pure ⟨fun _ same => by cases same; exact avail.1, shape⟩

/-! ## Foreign calls -/

/-- A call is classified as its prototype is. -/
theorem classification_does {tail : List Ty} :
    Does Γ σ 1 known s (classification defn tail loc) fun _ _ classification =>
      classification = Signature.classify Γ.env.options.target Γ.env.program.types
        ⟨defn.params.map (·.ty) ++ tail, defn.ret⟩ := by
  refine .ready fun ready => ?_
  obtain ⟨_, _, ran, faithful⟩ :=
    classification_run Γ.env defn tail loc ready.memo ready.target ready.types
  exact .of_run ran rfl rfl rfl rfl rfl (fun _ => faithful) rfl

theorem outAddress_does {target : Expr} : Does Γ σ 1 known s (outAddress target) (Γ.Avail σ) := by
  unfold outAddress
  split
  · refine .lookup_bind fun _ visible => ?_
    split
    · exact .pure (visible _ rfl (.inl rfl))
    · exact .fault
    · refine .types_bind (.silently .alloca fun _ stored => ?_)
      exact .silently (.declareSlot stored) fun later _ => .pure (stored.mono later).avail
  · refine .silently selfInstance_does @fun _ _ ⟨_, _⟩ _ avail => ?_
    exact .silently (fieldAddress_does avail) @fun _ _ ⟨_, _⟩ _ avail => .pure avail
  · exact .types_bind (Does.alloca.mono fun _ stored => stored.avail)
  · exact .fault

theorem fillBuffer_does {buffer : ValueId} (stored : Γ.Avail σ known s buffer)
    (avail : Γ.Avail σ known s value) :
    Does Γ σ 1 known s (fillBuffer buffer value ty cls) fun _ _ _ => True := by
  unfold fillBuffer
  split
  · exact .emitEffect rfl (.cons stored (.cons avail .nil))
  · exact .emitEffect rfl (.cons avail (.cons stored .nil))

theorem passByClass_does (avail : Γ.Avail σ known s value) :
    Does Γ σ 1 known s (passByClass value ty cls) fun known' s' passed =>
      AllAvail Γ σ known' s' passed.toList := by
  have passed : ∀ {known' s' v}, Γ.Avail σ known' s' v →
      AllAvail Γ σ known' s' (some v).toList := fun avail => .cons avail .nil
  unfold passByClass
  split
  · exact .pure .nil
  · refine .silently .alloca fun later stored => ?_
    refine .silently (fillBuffer_does stored.avail (avail.mono later)) fun later _ => ?_
    exact .pure (passed (stored.mono later).avail)
  · split
    · refine .silently .alloca fun later stored => ?_
      refine .silently (fillBuffer_does stored.avail (avail.mono later)) fun later _ => ?_
      exact .silently (.emit rfl (.cons (stored.mono later).avail .nil)) fun _ avail =>
        .pure (passed avail)
    · split
      · exact .silently (.emit rfl (.cons avail .nil)) fun _ avail => .pure (passed avail)
      · exact .pure (passed avail)

section

variable (handles : Handles Γ inner meaning)

include handles

theorem foreignValue_does (lowerable : Γ.Lowerable σ arg) :
    Does Γ σ (meaning σ.context.activation σ.frames arg) known s (foreignValue inner arg formal)
      fun known' s' found => Γ.Avail σ known' s' found.1 := by
  unfold foreignValue
  refine .finally (handles.used lowerable) fun _ result => ?_
  cases formal with
  | some formal =>
    exact .silently (coerce_does result.1) fun _ avail => .pure avail.1
  | none =>
    cases arg.ty.promotion? with
    | some promotion =>
      exact .silently (.emit rfl (.cons result.1 .nil)) fun _ avail => .pure avail
    | none => exact .pure result.1

/-- An argument of a foreign call is evaluated, unless it names a place. -/
theorem foreignArg_does (lowerable : Γ.Lowerable σ arg) :
    Does Γ σ (if arg.isOut then 1 else meaning σ.context.activation σ.frames arg) known s
      (foreignArg inner arg formal) fun known' s' found => Γ.Avail σ known' s' found.1 := by
  unfold foreignArg
  cases evaluated : arg.isOut with
  | true =>
    rw [if_pos rfl]
    split
    · exact .silently outAddress_does fun _ avail => .pure avail
    · rename_i other
      unfold Expr.isOut at evaluated
      split at evaluated
      · rename_i target kind
        exact (other target kind).elim
      · cases evaluated
  | false =>
    rw [if_neg Bool.false_ne_true]
    split
    · rename_i target kind
      rw [Expr.isOut, kind] at evaluated
      cases evaluated
    · refine .context_bind (.ite (fun _ => .throw) fun _ => .ite (fun _ => ?_) fun _ => ?_)
      · refine .finally (handles.unused lowerable).discard fun _ _ => ?_
        exact .silently .constant fun _ avail => .pure avail
      · refine .finally (foreignValue_does handles lowerable) ?_
        rintro _ _ ⟨value, ty⟩ _ avail
        refine .ite (fun _ => ?_) fun _ => .pure avail
        exact .types_bind (.silently (.emit rfl (.cons avail .nil)) fun _ avail => .pure avail)

/-- The arguments of a foreign call are evaluated in order. -/
theorem foreignArgs_does {args : List Expr} (covered : classes.length = args.length)
    (lowerable : ∀ arg ∈ args, Γ.Lowerable σ arg) :
    Does Γ σ (all meaning σ.context.activation σ.frames
        (args.filter fun arg => !arg.isOut)) known s
      (foreignArgs inner args classes params) (AllAvail Γ σ) := by
  induction args generalizing classes params known s with
  | nil =>
    unfold foreignArgs
    exact .pure .nil
  | cons arg args ih =>
    cases classes with
    | nil => cases covered
    | cons cls classes =>
      have evaluated : all meaning σ.context.activation σ.frames
          ((arg :: args).filter fun arg => !arg.isOut) =
            (if arg.isOut then 1 else meaning σ.context.activation σ.frames arg) *
              all meaning σ.context.activation σ.frames
                (args.filter fun arg => !arg.isOut) := by
        cases out : arg.isOut with
        | true => rw [List.filter_cons_of_neg (by simp [out]), if_pos rfl, one_mul]
        | false =>
          rw [List.filter_cons_of_pos (by simp [out]), if_neg Bool.false_ne_true, all]
      rw [evaluated]
      refine .bind (foreignArg_does handles (lowerable arg List.mem_cons_self)) ?_
      rintro _ _ ⟨value, ty⟩ _ avail
      refine .silently (passByClass_does avail) fun _ avail => ?_
      refine .finally (ih (Nat.succ.inj covered) (List.forall_mem_cons.mp lowerable).2) fun later avails => ?_
      exact .pure ((avail.mono later).append avails)

end

theorem foreignReturn_does (avail : Γ.Avail σ known s result)
    (slotAvail : ∀ v ∈ slot, Γ.Avail σ known s v) :
    Does Γ σ 1 known s (foreignReturn result cls slot ret loc) (Γ.Avail σ) := by
  unfold foreignReturn
  split
  · exact .orFault slotAvail
  · exact .types_bind (.ite (fun _ => .fault) fun _ => .nilValue)
  · split
    · refine .silently .alloca fun later stored => ?_
      refine .silently (.emitEffect rfl (.cons (avail.mono later) (.cons stored.avail .nil))) ?_
      intro _ _ _ later _
      have buffered := stored.mono later
      refine .silently .alloca fun later stored => ?_
      refine .silently (.emitEffect rfl (.cons stored.avail (.cons (buffered.mono later).avail .nil))) ?_
      intro _ _ _ later _
      have filled := stored.mono later
      exact .ite (fun _ => .pure filled.avail) fun _ => .emit rfl (.cons filled.avail .nil)
    · refine .ite (fun _ => ?_) fun _ => .pure avail
      refine .silently .alloca fun later stored => ?_
      refine .silently (.emitEffect rfl (.cons (avail.mono later) (.cons stored.avail .nil))) ?_
      exact fun later _ => .pure (stored.mono later).avail

theorem returnSlot_does : Does Γ σ 1 known s (returnSlot cls) fun known' s' slot =>
      ∀ v ∈ slot, Γ.Avail σ known' s' v := by
  unfold returnSlot
  refine .ite (fun _ => ?_) fun _ => .pure nofun
  refine .silently .alloca fun _ stored => .pure fun _ same => ?_
  cases same
  exact stored.avail

/-! ### Prototypes of foreign functions -/

theorem passByClass_length {passed : Option ValueId}
    (ran : passByClass value ty cls env s = .ok passed s') :
    passed.toList.length = if cls.kind = .ignore then 0 else 1 := by
  unfold passByClass at ran
  cases kind : cls.kind with
  | ignore =>
    rw [kind] at ran
    cases ran
    rfl
  | indirect =>
    rw [kind] at ran
    obtain ⟨_, _, _, ran⟩ := bind_ok ran
    obtain ⟨_, _, _, ran⟩ := bind_ok ran
    cases ran
    rfl
  | direct =>
    rw [kind] at ran
    cases cast : cls.cast with
    | some cast' =>
      rw [cast] at ran
      obtain ⟨_, _, _, ran⟩ := bind_ok ran
      obtain ⟨_, _, _, ran⟩ := bind_ok ran
      obtain ⟨_, _, _, ran⟩ := bind_ok ran
      cases ran
      rfl
    | none =>
      rw [cast] at ran
      dsimp only at ran
      split at ran
      · obtain ⟨_, _, _, ran⟩ := bind_ok ran
        cases ran
        rfl
      · cases ran
        rfl

/-- A value is passed for every argument that is not ignored. -/
theorem foreignArgs_length {args : List Expr} {values : List ValueId}
    (covered : classes.length = args.length)
    (ran : foreignArgs inner args classes params env s = .ok values s') :
    values.length = (classes.filter (·.kind ≠ .ignore)).length := by
  induction args generalizing classes params values s with
  | nil =>
    obtain rfl := List.length_eq_zero_iff.mp covered
    cases ran
    rfl
  | cons arg args ih =>
    obtain ⟨cls, _, rfl⟩ := List.exists_cons_of_length_eq_add_one covered
    unfold foreignArgs at ran
    obtain ⟨⟨_, _⟩, _, _, ran⟩ := bind_ok ran
    obtain ⟨_, _, once, ran⟩ := bind_ok ran
    obtain ⟨_, _, others, ran⟩ := bind_ok ran
    cases ran
    rw [List.length_append, passByClass_length once, ih (Nat.succ.inj covered) others]
    by_cases ignored : cls.kind = .ignore <;> simp [ignored, Nat.add_comm]

theorem returnSlot_length (ran : returnSlot cls env s = .ok slot s') :
    slot.toList.length = (if cls.kind = .indirect then [MachineType.ptr] else []).length := by
  unfold returnSlot at ran
  split at ran
  · rename_i indirect
    obtain ⟨_, _, _, ran⟩ := bind_ok ran
    cases ran
    rw [if_pos indirect]
    rfl
  · rename_i direct
    cases ran
    rw [if_neg direct]
    rfl

/-- The prototype of a foreign function has no place for what is passed beyond its parameters. -/
theorem foreignPrototype_classify (defn : Definition) (spec : ForeignSpec) (target : Target)
    (types : TypeTable) (tail : List Ty) : foreignPrototype defn spec
        (Signature.classify target types ⟨defn.params.map (·.ty) ++ tail, defn.ret⟩) =
      foreignPrototype defn spec
        (Signature.classify target types ⟨defn.params.map (·.ty), defn.ret⟩) := by
  have taken : ((defn.params.map (·.ty) ++ tail).map (ArgClass.ofTy target types)).take
      defn.params.length = ((defn.params.map (·.ty)).map (ArgClass.ofTy target types)).take
        defn.params.length := by
    rw [List.map_append, List.take_append_of_le_length (by simp)]
  unfold foreignPrototype Signature.classify
  dsimp only
  rw [taken]

/-- A call that passes what its classification asks for is in accordance with its prototype. -/
theorem foreignPrototype_accepts {classification : Classification} {passed : List ValueId}
    (returned : slot.toList.length =
      (if classification.ret.kind = .indirect then [MachineType.ptr] else []).length)
    (passes : passed.length = (classification.args.filter (·.kind ≠ .ignore)).length)
    (fixed : defn.variadic = false → classification.args.length = defn.params.length) :
    (foreignPrototype defn spec classification).Accepts (some spec.conv) (slot.toList ++ passed) where
  conv := rfl
  enough := by
    have fewer := ((List.take_sublist defn.params.length classification.args).filter
      fun cls => decide (cls.kind ≠ .ignore)).length_le
    simp only [foreignPrototype, List.length_append, List.length_map, returned, passes]
    omega
  exact := by
    rintro (domestic | plain)
    · exact absurd domestic (Option.some_ne_none _)
    · simp [foreignPrototype, returned, passes, ← fixed plain]

/-- A foreign call evaluates its arguments and performs the call of the foreign symbol. -/
theorem lowerForeign_does (handles : Handles Γ inner meaning) (foreign : defn.foreign = some spec)
    (ready : Γ.CallReady σ call defn) :
    Does Γ σ (receiver meaning σ.context.activation σ.frames call defn *
        all meaning σ.context.activation σ.frames
          (call.args.filter fun arg => !arg.isOut) *
        Effect.call spec.symbol * Effect.after defn.ret) known s
      (lowerForeign inner call defn) (Γ.Returned σ defn) := by
  have ignored : defn.takesReceiver = false := by
    rw [Definition.takesReceiver, Definition.isForeign, foreign]
    rfl
  unfold lowerForeign
  rw [foreign, mul_assoc, mul_assoc]
  refine .orFault_bind fun spec' same => ?_
  obtain rfl : spec = spec' := Option.some.inj same
  refine .bind (lowerIgnoredReceiver_does handles ready.obj ignored) fun _ _ => ?_
  refine .ite (fun _ => .fault) fun counted => ?_
  simp only [Bool.or_eq_true, Bool.and_eq_true, Bool.not_eq_true', decide_eq_true_eq, not_or, not_and,
    Nat.not_lt] at counted
  refine .silently classification_does @fun _ _ classification _ classified => ?_
  have covered : classification.args.length = call.args.length := by
    rw [classified, Signature.length_classify, List.length_append, List.length_map, List.length_map,
      List.length_drop]
    omega
  refine .silently returnSlot_does.ran @fun _ _ slot _ slotAvail => ?_
  obtain ⟨slotAvail, returned⟩ := slotAvail
  refine .bind (foreignArgs_does handles covered ready.args).ran @fun _ _ passed later avail => ?_
  obtain ⟨avail, passes⟩ := avail
  have slotAvail : AllAvail Γ σ _ _ slot.toList := AllAvail.mono (.of_option slotAvail) later
  have listed : Γ.declares (foreignPrototype defn spec classification) := by
    rw [classified, foreignPrototype_classify]
    exact Γ.listed _ (.foreign ready.member foreign)
  refine .silently (.declareFn listed) fun later named => ?_
  refine .silently .report fun later' _ => ?_
  have both := (slotAvail.append avail).mono (later.trans later')
  have callable : Γ.Callable (foreignPrototype defn spec classification) (some spec.conv)
      (slot.toList ++ passed) := by
    refine ⟨listed, foreignPrototype_accepts (returnSlot_length returned)
      (foreignArgs_length covered passes) fun plain => ?_⟩
    rw [covered]
    exact Nat.le_antisymm (Nat.not_lt.mp fun more => counted.2 more plain) counted.1
  refine .bind (callOrInvoke_does callable (named.later later'.code) both) fun later2 avail => ?_
  have slotAvail := slotAvail.mono (later.trans (later'.trans later2))
  unfold Effect.after
  split
  · rename_i never
    exact neverReturns_does never
  · rename_i returns
    refine .silently (foreignReturn_does avail fun v member =>
      slotAvail v (Option.mem_toList.mpr member)) fun _ avail => ?_
    exact .pure (returned_of_returns avail returns)

end Lower

end CallLowering
