import CallLowering.Proofs.Functions
import CallLowering.Proofs.LockstepArguments

/-!
# Lowering in lockstep

What lowering does with calls, closures and expressions in two coupled runs. The main result,
`Coupling.Sound.lowerExpr`, says that two runs that are started in corresponding states lower an
expression alike; `Coupling.Sound.lowerFunction` says it of a definition.
-/

namespace CallLowering

open Lower Expr

namespace Lower

variable {env : Env} {defn : Definition} {s : LowerState} {t : LowerState} {α : Type}
  {context : Context} {act : Lower α} {error : LowerError} {a : α}

theorem withContext_of_ok (ran : act env { s with context := context } = .ok a t) :
    withContext context act env s = .ok a { t with context := s.context } := by
  rw [withContext_run, around, ran]

theorem withContext_of_error (ran : act env { s with context := context } = .error error t) :
    withContext context act env s = .error error { t with context := s.context } := by
  rw [withContext_run, around, ran]

/-- How a function is lowered: it is declared, its body begun and lowered in a context of its own. -/
theorem lowerFunction_run {body : Expr} {func : FuncId} {declared : Recording}
    (bodied : defn.body = some body)
    (declares : s.code.declare (prototype env.program.types defn) = (func, declared)) :
    lowerFunction defn env s =
      match Emit.beginRoutine func declared with
      | .error error code => .error (.backend (.record error))
          { s with code := code, events := s.events.push (.loweringFunction defn.name) }
      | .ok params code =>
        match functionBody defn body (if defn.takesReceiver then params.tail else params) env
            (s.atFunction env defn func params code) with
        | .ok _ t => .ok func { t with context := s.context }
        | .error error t => .error error { t with context := s.context } := by
  have given : orFault defn.body (.noBody defn.name) defn.loc env s = .ok body s := by
    rw [bodied]
    rfl
  have reported : report (.loweringFunction defn.name) env s =
      .ok () { s with events := s.events.push (.loweringFunction defn.name) } := rfl
  have called : declareDefinition defn env
      { s with events := s.events.push (.loweringFunction defn.name) } = .ok func
        { s with code := declared, events := s.events.push (.loweringFunction defn.name) } := by
    change record (Emit.declare (prototype env.program.types defn)) env _ = _
    unfold record Emit.declare Emit.update
    dsimp only
    rw [declares]
  refine (bind_of_ok given).trans ((bind_of_ok reported).trans ((bind_of_ok called).trans ?_))
  cases began : Emit.beginRoutine func declared with
  | error error code =>
    refine bind_of_error ?_
    unfold beginRoutine record
    dsimp only
    rw [began]
  | ok params code =>
    have begun : beginRoutine func env
        { s with code := declared, events := s.events.push (.loweringFunction defn.name) } =
        .ok params { s with code := code, events := s.events.push (.loweringFunction defn.name) } := by
      unfold beginRoutine record
      dsimp only
      rw [began]
    refine (bind_of_ok begun).trans ((bind_of_ok functionContext_run).trans ?_)
    dsimp only
    change (withContext _ (functionBody defn body _) >>= fun _ => pure func) env
      { s with
        code := code
        scopes := (s.scopes.add none).2
        closures := 0
        events := s.events.push (.loweringFunction defn.name) } = _
    cases lowered : functionBody defn body (if defn.takesReceiver then params.tail else params) env
        (s.atFunction env defn func params code) with
    | ok _ t =>
      refine (bind_of_ok (a := ()) (t := { t with context := s.context }) ?_).trans rfl
      exact withContext_of_ok lowered
    | error error t =>
      refine bind_of_error ?_
      exact withContext_of_error lowered

end Lower

namespace Coupling

variable {W : Type} [Preorder W] {C : Coupling W} {w : Stage W}

/-- Two runs agree on a call instruction together with what becomes of its result. -/
def Returns (C : Coupling W) : Prop :=
  ∀ {w name f1 f2 args1 args2} defn, C.Func w name f1 f2 → C.Values w args1 args2 →
    C.Runs w (callOrInvoke f1 args1 defn none >>= uniformReturn defn)
      (callOrInvoke f2 args2 defn none >>= uniformReturn defn) C.SameOutcome

/-- What corresponds again after a function was lowered, in the context that was there before. -/
structure Idle (C : Coupling W) (w : Stage W) (s1 s1' s2' : LowerState) : Prop where
  core : C.Core w s1' s2'
  left : s1'.context = s1.context

/-- Captured variables that correspond. -/
structure SameCapture (C : Coupling W) (w : Stage W) (capture1 capture2 : Capture) : Prop where
  name : capture1.name = capture2.name
  shown : C.SameName capture1.name capture1.name
  ptr : C.Value w capture1.ptr capture2.ptr
  ty : capture1.ty = capture2.ty

variable {block : CallLowering.Block} {w' : Stage W}

theorem SameCapture.mono {capture1 capture2 : Capture} (later : w ≤ w')
    (same : C.SameCapture w capture1 capture2) : C.SameCapture w' capture1 capture2 :=
  ⟨same.name, same.shown, same.ptr.mono later, same.ty⟩

variable {call1 call2 : Call} {expr : Expr}

theorem SameCall.block_eq (same : C.SameCall call1 call2) : call1.block = call2.block := by
  cases same
  rfl

theorem SameCall.clean (same : C.SameCall call1 call2) :
    ∀ block ∈ call1.block, C.Clean block.variables := by
  cases same
  assumption

/-- Receivers of dispatches that correspond. -/
structure SameReceiver (C : Coupling W) (w : Stage W) (r1 r2 : DispatchReceiver) : Prop where
  named : C.SameName r1.name r2.name
  ty : r1.ty = r2.ty
  tag : Option.Rel (C.Value w) r1.tag r2.tag

/-- Arguments of dispatches that correspond. -/
structure SameArgument (C : Coupling W) (w : Stage W) (arg1 arg2 : DispatchArg) : Prop where
  expr : C.SameExpr arg1.expr arg2.expr
  ty : arg1.ty = arg2.ty
  tag : Option.Rel (C.Value w) arg1.tag arg2.tag

theorem SameReceiver.mono {r1 r2 : DispatchReceiver} (later : w ≤ w')
    (same : C.SameReceiver w r1 r2) : C.SameReceiver w' r1 r2 :=
  ⟨same.named, same.ty, rel_imp same.tag fun _ _ => .mono later⟩

theorem SameArgument.mono {arg1 arg2 : DispatchArg} (later : w ≤ w')
    (same : C.SameArgument w arg1 arg2) : C.SameArgument w' arg1 arg2 :=
  ⟨same.expr, same.ty, rel_imp same.tag fun _ _ => .mono later⟩

theorem SameExpr.retype {expr1 expr2 : Expr} {ty : Ty} (same : C.SameExpr expr1 expr2) :
    C.SameExpr { expr1 with ty := ty } { expr2 with ty := ty } := by
  cases same with
  | read named => exact .read named
  | same clean =>
    obtain ⟨_, _, _⟩ := expr1
    exact .same (by simpa [Expr.variables, Expr.parts] using clean)

theorem child_same {child : Expr} (clean : C.Clean expr.variables)
    (member : child ∈ expr.kind.children) : C.SameExpr child child :=
  .same (clean.mono (child_variables_subset member))

theorem SameCall.refl {call : Call} (clean : C.Clean expr.variables) (kind : expr.kind = .call call) : C.SameCall call call := by
  have child : ∀ {inner}, inner ∈ (ExprKind.call call).children → C.SameExpr inner inner :=
    fun member => child_same clean (kind ▸ member)
  have handed : ∀ block ∈ call.block, C.Clean block.variables := by
    intro block handed
    refine clean.mono (List.append_subset.mpr ⟨?_, ?_⟩)
    · refine List.Subset.trans ?_ expr.mentions_subset
      rw [kind]
      change _ ⊆ (ExprKind.call call).binds
      rw [ExprKind.binds, Option.mem_def.mp handed]
      exact List.Subset.refl _
    · refine child_variables_subset (kind ▸ List.mem_append_right _ ?_)
      exact Option.mem_toList.mpr (Option.map_eq_some_iff.mpr ⟨block, handed, rfl⟩)
  obtain ⟨obj, _, _, _, _, _, _, _, _⟩ := call
  refine .intro ?_ ?_ handed
  · cases obj with
    | none => exact .none
    | some obj =>
      exact .some (child (List.mem_append_left _ (List.mem_append_left _ List.mem_cons_self)))
  · exact List.forall₂_same.mpr fun _ member =>
      child (List.mem_append_left _ (List.mem_append_right _ member))

section

variable (clean : C.Clean block.variables)

include clean

theorem block_params_shown :
    ∀ param ∈ block.params, C.SameName param.name param.name := fun _ member =>
  clean.shown (List.mem_append_left _ (List.mem_append_left _ (List.mem_map_of_mem member)))

theorem block_captures_shown : ∀ name ∈ block.captures, C.SameName name name := fun _ member =>
  clean.shown (List.mem_append_left _ (List.mem_append_right _ member))

theorem block_body_same : C.SameExpr block.body block.body :=
  .same (clean.mono (List.subset_append_right _ _))

end

theorem SameContext.yieldTarget {c1 c2 : Context} (same : C.SameContext w c1 c2) :
    Option.Rel (fun target1 target2 => C.SameHanded target1 target2 ∧
      C.SameContext w target1.2.1 target2.2.1) c1.yieldTarget c2.yieldTarget := by
  have handed := same.here.handed
  have callers : ∀ target1 target2, c1.yieldTarget = some target1 →
      c2.yieldTarget = some target2 → C.SameContext w target1.2.1 target2.2.1 :=
    fun _ _ => same.callers
  revert handed callers
  generalize c1.yieldTarget = handed1
  generalize c2.yieldTarget = handed2
  rintro (handed | _) callers
  · exact .some ⟨handed, callers _ _ rfl rfl⟩
  · exact .none

namespace Sound

variable (sound : C.Sound)

include sound

/-- The result of a call is treated alike where values are needed alike. -/
theorem returns (alike : ∀ needed1 needed2, C.needs needed1 needed2 → needed1 = needed2) :
    C.Returns := by
  intro w name f1 f2 args1 args2 defn func args
  refine (sound.callOrInvoke func args).bind fun _ result => ?_
  refine .ite (fun _ => sound.neverReturns) fun _ => .ite (fun _ => ?_) fun _ => ?_
  · refine .context_bind fun _ _ context => ?_
    rw [alike _ _ context.here.needs]
    refine .ite (fun _ => .types_bind sound ?_) fun _ => ?_
    · refine Runs.bind (.emit sound .alloca) @fun w2 _ _ later2 slot => ?_
      refine (sound.emitEffect (.store (result.mono later2) slot)).andThen
        fun later3 => ?_
      exact .pure ⟨slot.mono later3, rfl⟩
    · exact sound.nilValue.bind fun _ nil => .pure ⟨nil, rfl⟩
  · refine .ite (fun _ => ?_) fun _ => .pure ⟨result, rfl⟩
    exact sound.nilValue.bind fun _ nil => .pure ⟨nil, rfl⟩

variable {inner1 inner2 : Expr → Lower ValueId}

/-! ## Inlined calls -/

variable {call call1 call2 : Call} {block : CallLowering.Block} {defn : Definition} {body : Expr}
  {captures1 captures2 : List Capture} {args1 args2 : List DispatchArg} {args : List Expr}
  {vs1 vs2 : List ValueId} {loc : Location} {recordType : MachineType} {id1 id2 index join : Nat}
  {r1 r2 : Option DispatchReceiver} {name : String} {ty : Ty}

theorem calleeContext {r1 r2 : Option (ValueId × Ty)} (clean : C.Clean block.variables)
    (receiver : Option.Rel (C.Typed w) r1 r2) :
    C.Runs w (calleeContext defn block r1 join) (calleeContext defn block r2 join)
      C.SameContext := by
  refine .context_bind fun _ _ caller => ?_
  rw [caller.here.fnName]
  refine (sound.freshContext (caller.here.fnName ▸ caller.here.own)).bind
    fun later1 fresh => .pure (.intro ?_ ?_)
  · have caller := caller.here.mono later1
    refine { fresh.here with
      needs := caller.needs
      handlers := caller.handlers
      selfTy := rfl
      functionScope := caller.functionScope
      handed := .some ⟨rfl, clean, rfl⟩
      self := ?_ }
    cases receiver with
    | none => exact .none
    | @some r1 r2 receiver =>
      obtain ⟨_, _⟩ := r1
      obtain ⟨_, _⟩ := r2
      obtain ⟨value, rfl⟩ := receiver
      exact .some (.value (value.mono later1))
  · rintro target1 target2 ⟨⟩ ⟨⟩
    exact caller.mono later1

section

variable (handles : C.Handles inner1 inner2) (same : C.SameCall call1 call2) (target : C.calls defn)

include handles same target

theorem inlinedBody (bodied : defn.body = some body) (values : C.Values w vs1 vs2) :
    C.Runs w (inlinedBody inner1 call1 defn body vs1 join)
      (inlinedBody inner2 call2 defn body vs2 join) fun _ _ _ => True := by
  unfold Lower.inlinedBody
  rw [same.loc_eq]
  refine (sound.bindArguments target values).andThen @fun w1 _ _ _ => ?_
  refine (handles w1 _ _ (.same (sound.body_clean target bodied))).bind fun _ value => ?_
  exact sound.addToJoin value

/-- The body of an inlined callee together with the join point of its call. -/
theorem inlinedCall {callee1 callee2 : Context} (bodied : defn.body = some body)
    (callee : C.SameContext w callee1 callee2) (values : C.Values w vs1 vs2) : C.Runs w (do
        Lower.withContext callee1 (Lower.inlinedBody inner1 call1 defn body vs1 join)
        let value ← Lower.closeJoinOrNil join
        if ← Lower.isTerminated then return ⟨value, .noReturn⟩ else return ⟨value, ty⟩)
      (do
        Lower.withContext callee2 (Lower.inlinedBody inner2 call2 defn body vs2 join)
        let value ← Lower.closeJoinOrNil join
        if ← Lower.isTerminated then return ⟨value, .noReturn⟩ else return ⟨value, ty⟩)
      C.SameOutcome := by
  refine (Runs.withContext callee (sound.inlinedBody handles same target bodied values)).andThen
    fun _ => ?_
  refine sound.closeJoinOrNil.bind fun _ value => ?_
  exact .isTerminated_bind sound fun _ =>
    .ite (fun _ => .pure ⟨value, rfl⟩) fun _ => .pure ⟨value, rfl⟩

theorem lowerInlined :
    C.Runs w (lowerInlined inner1 call1 defn) (lowerInlined inner2 call2 defn)
      C.SameOutcome := by
  unfold Lower.lowerInlined
  have clean := same.clean
  rw [← same.block_eq, same.loc_eq]
  cases handed : call1.block with
  | none => exact .fault fun _ => rfl
  | some block =>
    cases bodied : defn.body with
    | none => exact .fault fun _ => rfl
    | some body =>
      refine .ite (fun _ => .fault fun _ => rfl) fun _ => ?_
      refine (Runs.report sound).andThen fun _ => ?_
      refine (sound.uniformArgs handles same target).bind @fun _ args1 args2 _ args => ?_
      refine (Runs.openJoin sound).bind fun later3 equal => ?_
      subst equal
      have receiver := rel_imp args.receiver fun _ _ found => found.mono later3
      have values := args.values.mono later3
      refine (sound.calleeContext (clean block handed) receiver).bind
        fun later4 callee => ?_
      have values := values.mono later4
      dsimp only
      revert receiver
      generalize args1.receiver = r1
      generalize args2.receiver = r2
      rintro (_ | _)
      · exact sound.inlinedCall handles same target bodied callee (tail_rel values)
      · exact sound.inlinedCall handles same target bodied callee values

end

variable {params : List BlockParam} {names : List String} {s1 s2 : LowerState} {d1 d2 : ValueId}

theorem bindYielded {args1 args2 : List (ValueId × Ty)}
    (named : ∀ param ∈ params, C.SameName param.name param.name)
    (args : List.Forall₂ (C.Typed w) args1 args2) :
    C.Runs w (bindYielded params args1) (bindYielded params args2)
      fun _ _ _ => True := by
  induction params generalizing w args1 args2 with
  | nil => exact .pure trivial
  | cons param params ih =>
    obtain ⟨first, rest⟩ := List.forall_mem_cons.mp named
    have bind : ∀ {w1 v1 v2} ty, w ≤ w1 → C.Value w1 v1 v2 → C.Runs w1
        (do
          let value ← Lower.coerce v1 ty param.ty
          let slot ← Lower.spill value param.ty param.name
          Lower.declare param.name (.slot slot param.ty)
          bindYielded params args1.tail)
        (do
          let value ← Lower.coerce v2 ty param.ty
          let slot ← Lower.spill value param.ty param.name
          Lower.declare param.name (.slot slot param.ty)
          bindYielded params args2.tail) fun _ _ _ => True := by
      intro w1 v1 v2 ty later1 value
      refine (sound.coerce value).bind fun later2 coerced => ?_
      refine (sound.spill coerced).bind fun later3 slot => ?_
      refine (Runs.declare first (.slot slot)).andThen fun later4 => ?_
      have later := ((later1.trans later2).trans later3).trans later4
      exact ih rest ((tail_rel args).imp fun _ _ => .mono later)
    have head := head_rel args
    simp only [bindYielded, pure_bind]
    revert head
    generalize args1.head? = head1
    generalize args2.head? = head2
    rintro (@⟨⟨v1, ty⟩, ⟨v2, _⟩, ⟨value, rfl⟩⟩ | _)
    · exact bind ty (le_refl w) value
    · exact sound.nilValue.bind fun later1 nil => bind .nil later1 nil

section

variable (handles : C.Handles inner1 inner2)

include handles

theorem yieldedBody {args1 args2 : List (ValueId × Ty)} (clean : C.Clean block.variables)
    (args : List.Forall₂ (C.Typed w) args1 args2) :
    C.Runs w (yieldedBody inner1 block args1) (yieldedBody inner2 block args2)
      C.SameOutcome := by
  refine (sound.bindYielded (block_params_shown clean) args).andThen fun _ => ?_
  refine (Runs.openJoin sound).bind @fun _ next _ _ equal => ?_
  subst equal
  refine (Runs.setContext fun _ _ same => same.nexting next).andThen @fun w3 _ _ _ => ?_
  refine (handles w3 _ _ (block_body_same clean)).bind fun _ value => ?_
  refine (sound.addToJoin value).andThen fun _ => ?_
  refine sound.closeJoin.bind fun _ result => ?_
  cases result with
  | some value => exact .pure ⟨value, rfl⟩
  | none => exact sound.nilValue.bind fun _ nil => .pure ⟨nil, rfl⟩

variable {scope : Option Expr}

theorem yieldScope (clean : ∀ expr ∈ scope, C.Clean expr.variables) :
    C.Runs w (yieldScope inner1 scope) (yieldScope inner2 scope)
      fun w => Option.Rel (C.SameBinding w) := by
  cases scope with
  | none => exact .pure .none
  | some expr =>
    exact (sound.lowerUsed handles (.same (clean expr rfl))).bind fun _ value =>
      .pure (.some (.value value))

theorem yieldedArgs (clean : ∀ arg ∈ args, C.Clean arg.variables) :
    C.Runs w (args.mapM fun arg => return (← Lower.lowerUsed inner1 arg, arg.ty))
      (args.mapM fun arg => return (← Lower.lowerUsed inner2 arg, arg.ty))
      fun w => List.Forall₂ (C.Typed w) :=
  .mapM (fun later arg => arg.mono later) fun _ _ arg member =>
    (sound.lowerUsed handles (.same (clean arg member))).bind fun _ value =>
      .pure ⟨value, rfl⟩

theorem lowerYield (clean : ∀ arg ∈ args, C.Clean arg.variables)
    (cleanScope : ∀ expr ∈ scope, C.Clean expr.variables) :
    C.Runs w (Lower.lowerYield inner1 args scope loc) (Lower.lowerYield inner2 args scope loc)
      C.SameOutcome := by
  refine .context_bind fun _ _ context => ?_
  refine (Runs.orFault context.yieldTarget fun _ => rfl).bind ?_
  rintro w1 ⟨block, caller1, breakJoin⟩ ⟨_, caller2, _⟩ later1 ⟨⟨equal, cleanBlock, equal'⟩, caller⟩
  cases equal
  cases equal'
  refine (sound.yieldedArgs handles clean).bind fun later2 args => ?_
  refine (sound.yieldScope handles cleanScope).bind fun later3 withScope => ?_
  have caller := caller.mono ((later1.trans later2).trans later3)
  refine (Runs.newScope (.some caller.here.scope)).bind fun later4 blockScope => ?_
  refine .context_bind fun _ _ callee => ?_
  have caller := caller.mono later4
  refine .withContext ?_ (sound.yieldedBody handles cleanBlock
    (args.imp fun _ _ => .mono (later3.trans later4)))
  exact caller.ofFrame
    { caller.here with
      scope := blockScope
      handlers := callee.here.handlers
      needs := callee.here.needs
      breakJoin := rfl
      withScope := rel_or (rel_imp withScope fun _ _ => .mono later4) caller.here.withScope } rfl rfl

theorem lowerJump {join : Option Nat} {value : Option Expr} {keyword : String}
    (clean : ∀ expr ∈ value, C.Clean expr.variables) :
    C.Runs w (lowerJump inner1 join value keyword loc)
      (lowerJump inner2 join value keyword loc) C.Value := by
  refine Runs.orFault_same.bind ?_
  rintro w1 join _ _ ⟨_, rfl⟩
  cases value with
  | some expr =>
    refine (sound.lowerUsed handles (.same (clean expr rfl))).bind fun _ value => ?_
    exact (sound.addToJoin value).andThen fun _ => sound.nilValue
  | none =>
    refine sound.nilValue.bind fun _ value => ?_
    exact (sound.addToJoin value).andThen fun _ => sound.nilValue

end

/-! ## Closures -/

theorem capture (named : C.SameName name name) :
    C.Runs w (capture loc name) (capture loc name) C.SameCapture := by
  refine (Runs.lookup named).bind fun _ found => ?_
  refine (Runs.orFault found fun _ => rfl).bind fun later2 binding => ?_
  cases binding with
  | slot ptr => exact .pure ⟨rfl, named, ptr.mono later2, rfl⟩
  | value value =>
    exact (sound.spill (value.mono later2)).bind fun _ ptr => .pure ⟨rfl, named, ptr, rfl⟩

theorem captures (named : ∀ name ∈ names, C.SameName name name) :
    C.Runs w (names.mapM (Lower.capture loc)) (names.mapM (Lower.capture loc))
      fun w => List.Forall₂ (C.SameCapture w) :=
  .mapM (fun later capture => capture.mono later) fun _ _ name member =>
    sound.capture (named name member)

theorem captureSelf : C.Runs w captureSelf captureSelf fun w => Option.Rel (C.Typed w) := by
  refine .context_bind fun c1 c2 context => ?_
  have self := context.here.self
  revert self
  generalize c1.selfBinding = self1
  generalize c2.selfBinding = self2
  rintro (self | _)
  · dsimp only
    rw [self.ty_eq]
    refine .ite (fun _ => ?_) fun _ => .pure .none
    exact (sound.readBinding self).bind fun _ value => .pure (.some ⟨value, rfl⟩)
  · exact .pure .none

theorem bindSelf (data : C.Value w d1 d2) :
    C.Runs w (bindSelf recordType d1 index ty) (bindSelf recordType d2 index ty)
      fun _ _ _ => True := by
  refine Runs.bind (.emit sound (.fieldPtr data)) fun _ field => .types_bind sound ?_
  refine Runs.bind (.emit sound (.load field)) fun _ value => ?_
  exact .setContext fun _ _ same =>
    same.ofFrame { same.here with selfTy := rfl, self := .some (.value value) } rfl rfl

theorem bindBlockParams (named : ∀ param ∈ params, C.SameName param.name param.name)
    (values : C.Values w vs1 vs2) :
    C.Runs w (bindBlockParams loc params vs1) (bindBlockParams loc params vs2)
      fun _ _ _ => True := by
  induction params generalizing w vs1 vs2 with
  | nil => exact .pure trivial
  | cons param params ih =>
    obtain ⟨first, rest⟩ := List.forall_mem_cons.mp named
    obtain _ | ⟨value, values⟩ := values
    · exact .pure trivial
    · refine (sound.bindParam first (.some value)).andThen fun later1 => ?_
      exact ih rest (Values.mono later1 values)

variable {self1 self2 : Option (ValueId × Ty)}

section

variable (captures : List.Forall₂ (C.SameCapture w) captures1 captures2)

include captures

theorem storeCaptures {r1 r2 : ValueId} (record : C.Value w r1 r2) :
    C.Runs w (storeCaptures recordType r1 index captures1)
      (storeCaptures recordType r2 index captures2) fun _ _ _ => True := by
  induction captures1 generalizing w index captures2 with
  | nil =>
    cases captures
    exact .pure trivial
  | cons capture1 captures1 ih =>
    obtain _ | ⟨capture, captures⟩ := captures
    refine Runs.bind (.emit sound (.fieldPtr record)) fun later1 field => ?_
    refine (sound.emitEffect (.store (capture.ptr.mono later1) field)).andThen
      fun later2 => ?_
    have later := later1.trans later2
    exact ih (captures.imp fun _ _ => .mono later) (record.mono later)

theorem bindCaptures (data : C.Value w d1 d2) :
    C.Runs w (bindCaptures recordType d1 index captures1)
      (bindCaptures recordType d2 index captures2) fun _ _ _ => True := by
  induction captures1 generalizing w index captures2 with
  | nil =>
    cases captures
    exact .pure trivial
  | cons capture1 captures1 ih =>
    obtain _ | ⟨capture, captures⟩ := captures
    refine Runs.bind (.emit sound (.fieldPtr data)) fun later1 field => ?_
    refine Runs.bind (.emit sound (.load field)) fun later2 ptr => ?_
    rw [← capture.name, ← capture.ty]
    refine (Runs.declare capture.shown (.slot ptr)).andThen fun later3 => ?_
    have later := (later1.trans later2).trans later3
    exact ih (captures.imp fun _ _ => .mono later) (data.mono later)

variable (self : Option.Rel (C.Typed w) self1 self2)

include self

omit sound in
theorem captureRecord_eq {types : TypeTable} :
    captureRecord types captures1 self1 = captureRecord types captures2 self2 := by
  have fields : captures1.map (fun _ => MachineType.ptr) = captures2.map fun _ => .ptr := by
    rw [List.map_const', List.map_const', captures.length_eq]
  unfold captureRecord
  rw [fields]
  cases self with
  | none => rfl
  | some self => rw [Option.map_some, Option.map_some, self.2]

theorem closureData : C.Runs w (closureData recordType captures1 self1)
      (closureData recordType captures2 self2) C.Value := by
  have empty : captures1.isEmpty = captures2.isEmpty := by cases captures <;> rfl
  have absent : self1.isNone = self2.isNone := by cases self <;> rfl
  unfold Lower.closureData
  rw [empty, absent]
  refine .ite (fun _ => .constant sound) fun _ => ?_
  refine Runs.bind (.emit sound .alloca) fun later1 record => ?_
  refine (sound.storeCaptures (captures.imp fun _ _ => .mono later1) record).andThen
    fun later2 => ?_
  cases self with
  | none => exact .pure (record.mono later2)
  | @some self1 self2 self =>
    rw [captures.length_eq]
    refine Runs.bind (.emit sound (.fieldPtr (record.mono later2))) fun later3 field => ?_
    have value := self.1.mono ((later1.trans later2).trans later3)
    refine (sound.emitEffect (.store value field)).andThen fun later4 => ?_
    exact .pure (record.mono ((later2.trans later3).trans later4))

end

section

variable (handles : C.Handles inner1 inner2) (clean : C.Clean block.variables)

include handles clean

theorem closureBody : C.Runs w (closureBody inner1 block) (closureBody inner2 block)
      fun _ _ _ => True := by
  refine (Runs.openJoin sound).bind @fun _ next _ _ equal => ?_
  subst equal
  refine (Runs.setContext fun _ _ same => same.nexting next).andThen @fun w2 _ _ _ => ?_
  refine (handles w2 _ _ (block_body_same clean)).bind fun _ value => ?_
  refine (sound.addToJoin value).andThen fun _ => ?_
  refine sound.closeJoin.bind fun _ result => ?_
  cases result with
  | some value => exact sound.emitReturn value
  | none => exact .pure trivial

theorem closureFunction (captures : List.Forall₂ (C.SameCapture w) captures1 captures2)
    (self : Option.Rel (C.Typed w) self1 self2) (values : C.Values w vs1 vs2) :
    C.Runs w (Lower.closureFunction inner1 name block recordType captures1 self1 vs1)
      (Lower.closureFunction inner2 name block recordType captures2 self2 vs2)
      fun _ _ _ => True := by
  obtain _ | @⟨d1, d2, vs1, vs2, data, values⟩ := values
  · exact .throw fun _ => rfl
  have rest : ∀ {w'}, w ≤ w' → C.Runs w'
      (do
        let scope ← Lower.newScope (some (← Lower.context).scope)
        Lower.setContext fun context => { context with scope := scope }
        Lower.bindBlockParams block.body.loc block.params vs1
        Lower.closureBody inner1 block)
      (do
        let scope ← Lower.newScope (some (← Lower.context).scope)
        Lower.setContext fun context => { context with scope := scope }
        Lower.bindBlockParams block.body.loc block.params vs2
        Lower.closureBody inner2 block) fun _ _ _ => True := by
    intro w' later
    refine .context_bind fun _ _ context => ?_
    refine (Runs.newScope (.some context.here.scope)).bind fun later1 scope => ?_
    refine Runs.andThen (.setContext fun _ _ same =>
      same.ofFrame { same.here with scope := scope } rfl rfl) fun later2 => ?_
    have values := Values.mono ((later.trans later1).trans later2) values
    refine (sound.bindBlockParams (block_params_shown clean) values).andThen fun _ => ?_
    exact sound.closureBody handles clean
  refine (sound.bindCaptures captures data).andThen fun later1 => ?_
  obtain @⟨⟨s1, ty⟩, ⟨s2, _⟩, ⟨_, rfl⟩⟩ | _ := self
  · rw [captures.length_eq]
    exact (sound.bindSelf (data.mono later1)).andThen fun later2 => rest (later1.trans later2)
  · exact rest later1

theorem materialize :
    C.Runs w (Lower.materialize inner1 block) (Lower.materialize inner2 block) C.Value := by
  refine .context_bind fun c1 c2 context => ?_
  rw [← context.here.fnName]
  have own := context.here.own
  refine Runs.nextClosure.bind @fun _ number _ _ equal => ?_
  subst equal
  refine (sound.captures (block_captures_shown clean)).bind
    fun _ captures => ?_
  refine sound.captureSelf.bind fun later3 self => .types_bind sound ?_
  have captures := captures.imp fun _ _ capture => SameCapture.mono later3 capture
  rw [captureRecord_eq captures self]
  refine (sound.closureData captures self).bind fun later4 data => .types_bind sound ?_
  refine (sound.declareFn (sound.closureDeclared number block own)).bind
    fun later5 func => ?_
  refine (Runs.cursor sound).bind fun later6 resume => ?_
  have own := sound.closure number own
  refine (Runs.beginRoutine sound own (func.mono later6)).bind fun later7 values => ?_
  refine (sound.freshContext own).bind fun later8 context => ?_
  have later := ((later4.trans later5).trans later6).trans (later7.trans later8)
  have captures := captures.imp fun _ _ capture => SameCapture.mono later capture
  have self := rel_imp self fun _ _ => Typed.mono later
  refine (sound.returningTo (rel_imp resume fun _ _ => .mono (later7.trans later8))
    (.withContext context (sound.closureFunction handles clean captures self
      (values.mono later8)))).andThen fun later9 => ?_
  refine (Runs.report sound).andThen fun later10 => ?_
  have later := ((later6.trans later7).trans later8).trans (later9.trans later10)
  exact .emit sound (.makeClosure ⟨_, func.mono later⟩ (data.mono (later5.trans later)))

end

/-! ## Dispatches -/

theorem hideReceiver {v1 v2 : ValueId} (id : C.SameDispatch id1 id2) (value : C.Value w v1 v2) :
    C.Runs w (hideReceiver id1 v1 ty) (hideReceiver id2 v2 ty) C.SameReceiver := by
  obtain ⟨k, rfl, rfl⟩ := id
  refine (Runs.declare (.receiver k) (.value value)).andThen fun later1 => ?_
  refine .ite (fun _ => ?_) fun _ => .pure ⟨.receiver k, rfl, .none⟩
  exact Runs.bind (.emit sound (.typeId (value.mono later1))) fun _ tag =>
    .pure ⟨.receiver k, rfl, .some tag⟩

omit sound in
theorem dispatchSelf : C.Runs w (dispatchSelf call) (dispatchSelf call) C.SameBinding := by
  refine .context_bind fun _ _ context => ?_
  refine (Runs.orFault ?_ fun _ => rfl).mono fun later binding => SameBinding.mono later binding
  split
  · exact context.here.withScope
  · exact context.here.self

section

variable (handles : C.Handles inner1 inner2)

include handles

theorem dispatchReceiver {defns : List Definition} (same : C.SameCall call call)
    (id : C.SameDispatch id1 id2) : C.Runs w (dispatchReceiver inner1 call defns id1)
      (dispatchReceiver inner2 call defns id2) fun w => Option.Rel (C.SameReceiver w) := by
  have receiver := same.receiver
  unfold Lower.dispatchReceiver
  revert receiver
  cases call.obj with
  | some obj =>
    rintro (receiver | _)
    refine (sound.lowerUsed handles receiver).bind fun _ value => ?_
    exact (sound.hideReceiver id value).bind fun _ hidden => .pure (.some hidden)
  | none =>
    intro _
    refine .ite (fun _ => ?_) fun _ => .pure .none
    refine dispatchSelf.bind fun _ binding => ?_
    rw [binding.ty_eq]
    refine (sound.readBinding binding).bind fun _ value => ?_
    exact (sound.hideReceiver id value).bind fun _ hidden => .pure (.some hidden)

theorem dispatchArg {arg : Expr} (id : C.SameDispatch id1 id2) (same : C.SameExpr arg arg) :
    C.Runs w (dispatchArg inner1 id1 index arg) (dispatchArg inner2 id2 index arg)
      C.SameArgument := by
  obtain ⟨k, rfl, rfl⟩ := id
  refine .ite (fun _ => .pure ⟨same, rfl, .none⟩) fun _ => ?_
  refine (sound.lowerUsed handles same).bind fun _ value => ?_
  refine (Runs.declare (.argument k index) (.value value)).andThen fun later2 => ?_
  refine .ite (fun _ => .pure ⟨.read (.argument k index), rfl, .none⟩) fun _ => ?_
  exact Runs.bind (.emit sound (.typeId (value.mono later2))) fun _ tag =>
    .pure ⟨.read (.argument k index), rfl, .some tag⟩

theorem dispatchArgs (id : C.SameDispatch id1 id2) (same : List.Forall₂ C.SameExpr args args) :
    C.Runs w (dispatchArgs inner1 id1 index args) (dispatchArgs inner2 id2 index args)
      fun w => List.Forall₂ (C.SameArgument w) := by
  induction args generalizing w index with
  | nil => exact .pure .nil
  | cons arg args ih =>
    obtain _ | ⟨first, rest⟩ := same
    refine (sound.dispatchArg handles id first).bind fun _ hidden => ?_
    refine (ih rest).bind fun later2 rest => ?_
    exact .pure (.cons (hidden.mono later2) rest)

end

theorem receiverTest (receiver : Option.Rel (C.SameReceiver w) r1 r2) :
    C.Runs w (receiverTest call r1 defn) (receiverTest call r2 defn)
      fun w => Option.Rel (C.Value w) := by
  cases receiver with
  | none => exact .pure .none
  | @some r1 r2 receiver =>
    obtain ⟨_, _, _⟩ := r1
    obtain ⟨_, _, _⟩ := r2
    obtain ⟨_, equal, tag⟩ := receiver
    cases equal
    cases tag with
    | none => exact .pure .none
    | some tag =>
      refine .ite (fun _ => .pure .none) fun _ => ?_
      exact Runs.bind (.emit sound (.matchTypeTag tag)) fun _ test => .pure (.some test)

theorem argTests {cond1 cond2 : Option ValueId} (args : List.Forall₂ (C.SameArgument w) args1 args2)
    (cond : Option.Rel (C.Value w) cond1 cond2) :
    C.Runs w (argTests call defn index args1 cond1)
      (argTests call defn index args2 cond2) fun w => Option.Rel (C.Value w) := by
  induction args1 generalizing w index args2 cond1 cond2 with
  | nil =>
    cases args
    exact .pure cond
  | cons arg1 args1 ih =>
    obtain _ | @⟨_, arg2, _, args2, arg, args⟩ := args
    obtain ⟨_, _, _⟩ := arg1
    obtain ⟨_, _, _⟩ := arg2
    obtain ⟨_, equal, tag⟩ := arg
    cases equal
    cases tag with
    | none => exact ih args cond
    | some tag =>
      refine Runs.orFault_same.bind ?_
      rintro w1 param _ later1 ⟨_, rfl⟩
      refine Runs.bind (.emit sound (.matchTypeTag (tag.mono later1)))
        @fun w2 _ _ later2 test => ?_
      have rest : ∀ {w' c1 c2}, w2 ≤ w' → C.Value w' c1 c2 → C.Runs w'
          (argTests call defn (index + 1) args1 (some c1))
          (argTests call defn (index + 1) args2 (some c2)) fun w => Option.Rel (C.Value w) :=
        fun later3 cond => ih (args.imp fun _ _ => .mono ((later1.trans later2).trans later3)) (.some cond)
      cases cond with
      | none => exact rest (le_refl w2) test
      | some cond =>
        have cond := cond.mono (later1.trans later2)
        exact Runs.bind (.emit sound (.and cond test)) fun later3 both => rest later3 both

theorem guardOf (receiver : Option.Rel (C.SameReceiver w) r1 r2)
    (args : List.Forall₂ (C.SameArgument w) args1 args2) :
    C.Runs w (guardOf call r1 args1 defn) (guardOf call r2 args2 defn) C.Value := by
  refine (sound.receiverTest receiver).bind fun later1 cond => ?_
  refine (sound.argTests (args.imp fun _ _ => .mono later1) cond).bind
    fun _ cond => ?_
  cases cond with
  | none => exact .constant sound
  | some cond => exact .pure cond

omit sound in
theorem rebindArgs {params : List Param} (args : List.Forall₂ (C.SameArgument w) args1 args2) :
    List.Forall₂ C.SameExpr (rebindArgs args1 params) (rebindArgs args2 params) := by
  induction args generalizing params with
  | nil => exact .nil
  | @cons arg1 arg2 _ _ arg _ ih =>
    cases params with
    | nil => exact .cons arg.expr ih
    | cons param params =>
      refine .cons ?_ ih
      have tag := arg.tag
      revert tag
      generalize arg1.tag = tag1
      generalize arg2.tag = tag2
      rintro (_ | _)
      · exact arg.expr.retype
      · exact arg.expr

omit sound in
theorem candidateCall (same : C.SameCall call call) (receiver : Option.Rel (C.SameReceiver w) r1 r2)
    (args : List.Forall₂ (C.SameArgument w) args1 args2) :
    C.SameCall (candidateCall call r1 args1 defn) (candidateCall call r2 args2 defn) := by
  refine .intro ?_ (rebindArgs args) same.clean
  cases receiver with
  | none => exact .none
  | @some r1 r2 receiver =>
    refine .some ?_
    unfold rebindReceiver
    dsimp only
    rw [receiver.ty]
    exact .read receiver.named

theorem definitions :
    C.Runs w (names.mapM fun name => Lower.definition name loc)
      (names.mapM fun name => Lower.definition name loc)
      fun _ defns1 defns2 => defns1 = defns2 ∧ ∀ defn ∈ defns1, C.calls defn := by
  have rows : C.Runs w (names.mapM fun name => Lower.definition name loc)
      (names.mapM fun name => Lower.definition name loc)
      fun _ => List.Forall₂ fun defn1 defn2 => defn1 = defn2 ∧ C.calls defn1 :=
    .mapM (fun _ found => found) fun _ _ _ _ => Runs.definition sound
  refine rows.mono fun _ same => ?_
  induction same with
  | nil => exact ⟨rfl, nofun⟩
  | cons first _ ih =>
    exact ⟨by rw [first.1, ih.1], List.forall_mem_cons.mpr ⟨first.2, ih.2⟩⟩

/-! ## Expressions -/

theorem lowerVar {n1 n2 : String} (named : C.SameName n1 n2) :
    C.Runs w (lowerVar n1 ty loc) (lowerVar n2 ty loc) C.Value := by
  refine (Runs.lookup named).bind fun _ found => ?_
  refine (Runs.orFault found fun exact => ?_).bind fun later2 binding => ?_
  · rw [named.eq_of_aligned (sound.aligned exact)]
  · rw [binding.ty_eq]
    exact (sound.readBinding (binding.mono later2)).bind fun _ value => sound.coerce value

theorem lowerField : C.Runs w (lowerField name ty loc) (lowerField name ty loc) C.Value := by
  refine sound.selfInstance.bind ?_
  rintro w1 ⟨owner, p1⟩ ⟨_, p2⟩ _ ⟨rfl, ptr⟩
  refine (sound.loadField ptr).bind ?_
  rintro w2 ⟨v1, fieldTy⟩ ⟨v2, _⟩ _ ⟨value, rfl⟩
  exact sound.coerce value

theorem callInitializer :
    C.Runs w (callInitializer name) (callInitializer name) fun _ _ _ => True := by
  refine (sound.declareFn (sound.initializer name)).bind fun _ func => ?_
  exact Runs.discard (.emit sound (.call ⟨_, func⟩ .nil))

theorem lowerConst {initializer : Bool} :
    C.Runs w (lowerConst name initializer ty loc) (lowerConst name initializer ty loc)
      C.Value := by
  have load : ∀ {w'}, C.Runs w' (do Lower.loadSlot (← Lower.record (Emit.global name)) ty)
      (do Lower.loadSlot (← Lower.record (Emit.global name)) ty) C.Value :=
    (Runs.global sound).bind fun _ ptr => sound.loadSlot ptr
  unfold Lower.lowerConst
  split
  · exact sound.tagConstant
  · exact .ite (fun _ => sound.callInitializer.andThen fun _ => load) fun _ => load

section

variable (handles : C.Handles inner1 inner2)

include handles

theorem lowerAssign {target : String} {value : Expr} (named : C.SameName target target)
    (same : C.SameExpr value value) :
    C.Runs w (lowerAssign inner1 target value) (lowerAssign inner2 target value)
      C.Value := by
  refine (sound.lowerUsed handles same).bind fun _ result => ?_
  refine .isTerminated_bind sound fun _ => .ite (fun _ => .pure result) fun _ => ?_
  refine (Runs.lookup named).bind fun later2 found => ?_
  have result := result.mono later2
  obtain (⟨ptr⟩ | _) | _ := found
  · refine (sound.coerce result).bind fun later3 converted => ?_
    refine (sound.storeSlot converted (ptr.mono later3)).andThen fun later4 => ?_
    exact .pure (result.mono (later3.trans later4))
  · exact .fault fun _ => rfl
  · refine (sound.spill result).bind fun later3 slot => ?_
    refine (Runs.declare named (.slot slot)).andThen fun later4 => ?_
    exact .pure (result.mono (later3.trans later4))

theorem lowerSeq {exprs : List Expr} (same : ∀ expr ∈ exprs, C.SameExpr expr expr) :
    C.Runs w (lowerSeq inner1 exprs) (lowerSeq inner2 exprs) C.Value := by
  induction exprs generalizing w with
  | nil => exact sound.nilValue
  | cons expr exprs ih =>
    obtain ⟨first, rest⟩ := List.forall_mem_cons.mp same
    cases exprs with
    | nil => exact handles w _ _ first
    | cons => exact (sound.lowerUnused handles first).discard.andThen fun _ => ih rest

theorem lowerRescue {handler : Expr} (sameBody : C.SameExpr body body)
    (sameHandler : C.SameExpr handler handler) :
    C.Runs w (lowerRescue inner1 body handler ty) (lowerRescue inner2 body handler ty)
      C.Value := by
  refine (Runs.newBlock sound).bind fun _ rescue => ?_
  refine (Runs.openJoin sound).bind @fun w2 _ _ later2 equal => ?_
  subst equal
  refine (Runs.withHandler (rescue.mono later2) (handles w2 _ _ sameBody)).bind
    fun later3 value => ?_
  refine (sound.addToJoin value).andThen fun later4 => ?_
  refine (Runs.position sound (rescue.mono ((later2.trans later3).trans later4))).andThen
    fun _ => ?_
  refine (Runs.discard (.emit sound .landingPad)).andThen @fun w6 _ _ _ => ?_
  refine (handles w6 _ _ sameHandler).bind fun _ value => ?_
  exact (sound.addToJoin value).andThen fun _ => sound.closeJoinOrNil

theorem blockArgument (same : C.SameCall call1 call2) :
    C.Runs w (blockArgument inner1 call1 defn) (blockArgument inner2 call2 defn)
      C.Values := by
  refine .ite (fun _ => ?_) fun _ => .pure .nil
  have clean := same.clean
  rw [← same.block_eq]
  cases handed : call1.block with
  | some block =>
    exact (sound.materialize handles (clean block handed)).bind fun _ value =>
      .pure (.cons value .nil)
  | none => exact sound.nilValue.bind fun _ value => .pure (.cons value .nil)

end

/-- The states at the start of a function correspond. -/
theorem atFunction {params1 params2 : List ValueId} {c1 c2 : Recording} {link : W} (f1 f2 : FuncId)
    (core : C.Core w s1 s2) (own : C.own defn.name) (later : w.1 ≤ link)
    (site : C.site link ⟨c1, s1.joins⟩ ⟨c2, s2.joins⟩)
    (params : List.Forall₂ (C.value link) params1 params2) :
    C.States (link, w.2 + 1) (s1.atFunction C.left defn f1 params1 c1)
      (s2.atFunction C.right defn f2 params2 c2) := by
  obtain ⟨scopes, scope⟩ := (core.scopes.mono later).add Option.Rel.none
  refine ⟨⟨site, scopes, core.dispatches, core.memory, sound.report _ core.events⟩, .intro ?_ nofun, rfl⟩
  refine ⟨rfl, own, sound.file, scope, scope, ?_, rfl, .none, sound.needs true, .nil, .none, rfl, rfl⟩
  change Option.Rel _ (defn.self? params1) (defn.self? params2)
  unfold Definition.self?
  split
  · obtain _ | ⟨first, _⟩ := params
    · exact .none
    · exact .some (.value first)
  · exact .none

/-! ## Calls -/

variable (returns : C.Returns)

include returns

section

variable (handles : C.Handles inner1 inner2)

include handles

theorem lowerUniform (same : C.SameCall call1 call2) (target : C.calls defn) (inside : defn.foreign = none) :
    C.Runs w (lowerUniform inner1 call1 defn) (lowerUniform inner2 call2 defn)
      C.SameOutcome := by
  refine (sound.uniformArgs handles same target).bind @fun _ args1 args2 _ args => ?_
  refine (sound.substitute args).bind fun later2 result => ?_
  cases result with
  | some value => exact .pure ⟨value, rfl⟩
  | none =>
    refine (sound.blockArgument handles same).bind @fun w3 bs1 bs2 later3 block => ?_
    have values : C.Values w3 (args1.values ++ bs1) (args2.values ++ bs2) :=
      List.rel_append (args.values.mono (later2.trans later3)) block
    refine (sound.declareDefinition target inside).bind fun later4 func => ?_
    rw [values.length_eq]
    refine (Runs.report sound).andThen fun later5 => ?_
    exact returns defn (func.mono later5) (values.mono (later4.trans later5))

theorem lowerSingle (same : C.SameCall call1 call2) (target : C.calls defn) :
    C.Runs w (lowerSingle inner1 call1 defn) (lowerSingle inner2 call2 defn)
      C.SameOutcome := by
  unfold Lower.lowerSingle
  rw [same.block_eq, same.loc_eq]
  refine .ite (fun _ => sound.lowerInlined handles same target) fun _ => ?_
  refine .ite (fun _ => sound.lowerForeign handles same target) fun inside => ?_
  refine .ite (fun _ => .fault fun _ => rfl) fun _ => ?_
  have inside : defn.foreign = none := by simpa [Definition.isForeign] using inside
  exact sound.lowerUniform returns handles same target inside

section

variable (same : C.SameCall call call)

include same

theorem tryCandidate (target : C.calls defn) (receiver : Option.Rel (C.SameReceiver w) r1 r2)
    (args : List.Forall₂ (C.SameArgument w) args1 args2) :
    C.Runs w (tryCandidate inner1 call r1 args1 join defn)
      (tryCandidate inner2 call r2 args2 join defn) fun _ _ _ => True := by
  refine (sound.guardOf receiver args).bind fun _ cond => ?_
  refine (Runs.newBlock sound).bind fun later2 current => ?_
  refine (Runs.newBlock sound).bind fun later3 next => ?_
  have current := current.mono later3
  refine (sound.emitEffect (.condBr (cond.mono (later2.trans later3)) current next)).andThen
    fun later4 => ?_
  refine (Runs.position sound (current.mono later4)).andThen fun later5 => ?_
  refine (sound.lowerSingle returns handles (candidateCall same receiver args) target).bind ?_
  rintro w6 ⟨v1, ty⟩ ⟨v2, _⟩ later6 ⟨value, equal⟩
  cases equal
  refine (sound.addToJoin value).andThen fun later7 => ?_
  exact .position sound (next.mono ((later4.trans later5).trans (later6.trans later7)))

theorem lowerDispatch :
    C.Runs w (Lower.lowerDispatch inner1 call) (Lower.lowerDispatch inner2 call) C.SameOutcome := by
  refine sound.definitions.bind ?_
  rintro w1 defns _ _ ⟨rfl, targets⟩
  refine (Runs.report sound).andThen fun _ => ?_
  refine Runs.nextDispatch.bind fun _ id => ?_
  refine (sound.dispatchReceiver handles same id).bind fun _ receiver => ?_
  refine (sound.dispatchArgs handles id same.passed).bind fun later5 args => ?_
  refine (Runs.openJoin sound).bind fun later6 equal => ?_
  subst equal
  refine (Runs.forM fun w7 later7 defn member => ?_).andThen fun _ => ?_
  · exact sound.tryCandidate returns handles same (targets defn member)
      (rel_imp receiver fun _ _ => .mono ((later5.trans later6).trans later7))
      (args.imp fun _ _ => .mono (later6.trans later7))
  · refine (sound.emitEffect .unreachable).andThen fun _ => ?_
    exact sound.closeJoinOrNil.bind fun _ value => .pure ⟨value, rfl⟩

theorem lowerCallWith :
    C.Runs w (lowerCallWith inner1 call) (lowerCallWith inner2 call) C.SameOutcome := by
  unfold Lower.lowerCallWith
  split
  · exact .fault fun _ => rfl
  · refine (Runs.definition sound).bind ?_
    rintro w1 defn _ _ ⟨rfl, target⟩
    exact sound.lowerSingle returns handles same target
  · exact sound.lowerDispatch returns handles same

end

theorem lowerKind {kind : ExprKind}
    (clean : C.Clean (Expr.variables ⟨kind, ty, loc⟩)) :
    C.Runs w (lowerKind inner1 kind ty loc) (lowerKind inner2 kind ty loc) C.Value := by
  have child : ∀ {inner}, inner ∈ kind.children → C.SameExpr inner inner :=
    fun member => child_same clean member
  have mentions : C.Clean kind.mentions := clean.mono (mentions_subset ⟨kind, ty, loc⟩)
  cases kind with
  | nop | nil => exact sound.nilValue
  | bool | char | string | symbol => exact .constant sound
  | int => exact sound.intConstant
  | float => exact sound.floatConstant
  | var name => exact sound.lowerVar (mentions.shown List.mem_cons_self)
  | selfRef =>
    refine .context_bind fun c1 c2 context => ?_
    refine (Runs.orFault context.here.self fun _ => rfl).bind @fun w1 _ _ later1 binding => ?_
    exact sound.readBinding (binding.mono later1)
  | field name => exact sound.lowerField
  | assign target value =>
    exact sound.lowerAssign handles (mentions.shown List.mem_cons_self) (child List.mem_cons_self)
  | const name initializer => exact sound.lowerConst
  | call call =>
    refine (sound.lowerCallWith returns handles (.refl clean rfl)).bind ?_
    rintro w1 ⟨v1, ty⟩ ⟨v2, _⟩ _ ⟨value, equal⟩
    cases equal
    exact sound.coerce value
  | yield args scope =>
    refine (sound.lowerYield handles (fun _ member => ?_) fun expr member => ?_).bind ?_
    · exact clean.mono (child_variables_subset (List.mem_append_left _ member))
    · exact clean.mono (child_variables_subset
        (List.mem_append_right _ (Option.mem_toList.mpr member)))
    · rintro w1 ⟨v1, ty⟩ ⟨v2, _⟩ _ ⟨value, equal⟩
      cases equal
      exact sound.coerce value
  | breakWith value =>
    refine .context_bind fun c1 c2 context => ?_
    rw [context.here.breakJoin]
    exact sound.lowerJump handles fun expr member =>
      clean.mono (child_variables_subset (Option.mem_toList.mpr member))
  | nextWith value =>
    refine .context_bind fun _ _ context => ?_
    rw [context.here.nextJoin]
    exact sound.lowerJump handles fun expr member =>
      clean.mono (child_variables_subset (Option.mem_toList.mpr member))
  | out | discard => exact .fault fun _ => rfl
  | procLiteral block =>
    refine sound.materialize handles (clean.mono (List.append_subset.mpr ⟨?_, ?_⟩))
    · exact mentions_subset ⟨.procLiteral block, ty, loc⟩
    · exact child_variables_subset List.mem_cons_self
  | seq exprs => exact sound.lowerSeq handles fun _ member => child member
  | rescue body handler =>
    exact sound.lowerRescue handles (child List.mem_cons_self)
      (child (List.mem_cons_of_mem _ List.mem_cons_self))

theorem lowerExprWith : C.Handles (lowerExprWith inner1) (lowerExprWith inner2) := by
  intro w expr1 expr2 same
  refine .isTerminated_bind sound fun _ => .ite (fun _ => sound.nilValue) fun _ => ?_
  cases same with
  | same clean =>
    obtain ⟨_, _, _⟩ := expr1
    exact sound.lowerKind returns handles clean
  | read named => exact sound.lowerVar named

end

theorem lowerExprWithin (depth : Nat) :
    C.Handles (lowerExprWithin depth) (lowerExprWithin depth) := by
  induction depth with
  | zero =>
    intro w expr1 expr2 same
    unfold Lower.lowerExprWithin
    rw [same.loc_eq]
    exact .fault fun _ => rfl
  | succ depth ih => exact sound.lowerExprWith returns ih

/-- Two coupled runs lower an expression alike. -/
theorem lowerExpr (clean : C.Clean expr.variables) :
    C.Runs w (lowerExpr expr) (lowerExpr expr) C.Value := by
  refine .program_bind ?_
  rw [sound.nesting]
  exact sound.lowerExprWithin returns _ w _ _ (.same clean)

theorem lowerCall (clean : C.Clean (ofCall call .nil).variables) :
    C.Runs w (lowerCall call) (lowerCall call) C.SameOutcome := by
  refine .program_bind ?_
  rw [sound.nesting]
  exact sound.lowerCallWith returns (sound.lowerExprWithin returns _) (.refl clean rfl)

/-! ## Functions -/

theorem functionBody (target : C.calls defn) (bodied : defn.body = some body)
    (values : C.Values w vs1 vs2) :
    C.Runs w (functionBody defn body vs1) (functionBody defn body vs2)
      fun _ _ _ => True := by
  refine (sound.bindArguments target values).andThen fun _ => ?_
  refine (sound.lowerExpr returns (sound.body_clean target bodied)).bind fun _ value => ?_
  exact sound.emitReturn value

/-- Two coupled runs lower a definition alike, whatever contexts they stand in. -/
theorem lowerFunction (defn : Definition) (target : C.calls defn)
    (declares : C.declares (prototype C.left.program.types defn)) (own : C.own defn.name)
    (core : C.Core w s1 s2) :
    Coupled C.exact (fun f1 s1' f2 s2' => ∃ w', w ≤ w' ∧ C.Idle w' s1 s1' s2' ∧
        C.Func w' defn.name f1 f2) (fun s1' s2' => ∃ w', w ≤ w' ∧ C.Idle w' s1 s1' s2')
      (lowerFunction defn C.left s1) (lowerFunction defn C.right s2) := by
  cases bodied : defn.body with
  | none =>
    unfold Lower.lowerFunction
    rw [bodied]
    exact ⟨fun _ => rfl, w, le_refl w, core, rfl⟩
  | some body =>
    have declared := sound.declare core.site declares
    unfold Emit.declare Emit.update at declared
    dsimp only at declared
    cases declares1 : s1.code.declare (prototype C.left.program.types defn) with
    | mk f1 d1 =>
    cases declares2 : s2.code.declare (prototype C.left.program.types defn) with
    | mk f2 d2 =>
    rw [declares1, declares2] at declared
    obtain ⟨_, later, site, func⟩ := declared
    have begun := sound.beginRoutine site own func
    rw [lowerFunction_run bodied declares1,
      lowerFunction_run bodied (sound.types ▸ declares2)]
    refine begun.both ?_ ?_
    · rintro params1 c1 params2 c2 ⟨link', later', site', params⟩
      have values : C.Values (link', w.2 + 1)
          (if defn.takesReceiver then params1.tail else params1)
          (if defn.takesReceiver then params2.tail else params2) := by
        split
        · exact tail_rel params
        · exact params
      have before : w ≤ (link', w.2 + 1) := ⟨later.trans later', Nat.le_succ _⟩
      have func := C.func_mono later' func
      have ran := sound.functionBody returns target bodied values _ _
        (sound.atFunction f1 f2 core own before.1 site' params)
      dsimp only
      refine ran.both ?_ ?_
      · rintro _ t1 _ t2 ⟨w', after, states, _⟩
        exact ⟨w', before.trans after, ⟨⟨states.site, states.scopes, states.dispatches,
          states.memory, states.events⟩, rfl⟩,
          C.func_mono after.1 func⟩
      · rintro e1 t1 e2 t2 same ⟨w', after, states⟩
        exact ⟨same, w', before.trans after, ⟨states.site, states.scopes, states.dispatches,
          states.memory, states.events⟩, rfl⟩
    · rintro e1 c1 e2 c2 same ⟨link', later', site'⟩
      have core := core.ofSite (later.trans later') site'
      exact ⟨fun exact => by rw [same exact], (link', w.2), ⟨later.trans later', Nat.le_refl _⟩,
        { core with events := sound.report _ core.events }, rfl⟩

end Sound

end Coupling

end CallLowering
