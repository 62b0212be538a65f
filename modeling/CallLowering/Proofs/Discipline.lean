import CallLowering.Proofs.Following

/-!
# Lowering keeps to the rules

What each function of lowering does, in terms of `Tracks`: most of them end where they started. The
proofs go along the text of the functions.
-/

namespace CallLowering

open Recording Lower CallLowering.Task Tracks

variable {V : Vocabulary} {γ : Standing} {u : Unbound} {α β : Type}

/-! ## Lists -/

variable {xs : List α}

theorem exists_of_forall₂ {ys : List β} {holds : α → β → Prop} (all : List.Forall₂ holds xs ys) :
    ∀ y ∈ ys, ∃ x, holds x y := by
  induction all with
  | nil => exact List.forall_mem_nil _
  | cons first _ ih => exact List.forall_mem_cons.mpr ⟨⟨_, first⟩, ih⟩

namespace Goes

theorem mapM {tasks : α → List Block → List Task} {f : α → Lowering β} {holds : α → β → Prop}
    (each : ∀ x ∈ xs, Goes V γ u (tasks x) (f x) (holds x)) :
    Goes V γ u (fun handed => xs.flatMap fun x => tasks x handed)
      (fun inner => xs.mapM fun x => f x inner) (List.Forall₂ holds xs) := by
  induction xs with
  | nil => exact pure .nil
  | cons x xs ih =>
    simp only [List.mapM_cons, List.flatMap_cons]
    refine (each x List.mem_cons_self).bind fun first => ?_
    refine (ih (List.forall_mem_cons.mp each).2).closing fun rest => ?_
    exact pure (.cons first rest)

theorem forM {tasks : α → List Block → List Task} {f : α → Lowering Unit}
    (each : ∀ x ∈ xs, Goes V γ u (tasks x) (f x) fun _ => True) :
    Goes V γ u (fun handed => xs.flatMap fun x => tasks x handed)
      (fun inner => xs.forM fun x => f x inner) fun _ => True := by
  induction xs with
  | nil => exact pure trivial
  | cons x xs ih =>
    simp only [List.flatMap_cons]
    refine (each x List.mem_cons_self).bind fun _ => ?_
    exact ih (List.forall_mem_cons.mp each).2

end Goes

theorem Keeps.mapM {f : α → Lowering β} {holds : α → β → Prop}
    (each : ∀ x ∈ xs, Keeps V γ u (f x) (holds x)) :
    Keeps V γ u (fun inner => xs.mapM fun x => f x inner) (List.Forall₂ holds xs) := by
  have silent : (xs.flatMap fun _ => ([] : List Task)) = [] :=
    List.flatMap_eq_nil_iff.mpr fun _ _ => rfl
  simpa [silent] using Goes.mapM each

/-! ## Expressions inside -/

variable {block : Block} {call : Call} {defn : Definition} {arg body expr : Expr} {args : List Expr}
  {params : List Param} {values : List ValueId} {loc : Location} {join : Nat} {name : String}
  {ty : Ty} {captures : List Capture} {act : Lowering α} {recordType : MachineType}
  {holds : α → Prop} {tasks : List Block → List Task} {after : α → Standing → Unbound → Prop}
  {self : Option (ValueId × Ty)} {data : ValueId} {decl : FnDecl} {event : Event}

namespace Goes

theorem inner (sound : γ.Sound V) (tidy : expr.Tidy V.names) :
    Goes V γ ∅ (fun _ => [.expr expr]) (fun inner => inner expr) fun _ => True :=
  of_tracks (.inner sound tidy)

theorem withNeedsValue {needed : Bool}
    (inside : Goes V { γ with context.needsValue := needed, held := True } u tasks act holds) :
    Goes V γ u tasks (fun inner => withNeedsValue needed (act inner)) holds :=
  context.bind fun here => by
    subst here
    refine around inside (fun context same => ?_) fun _ hands => ⟨_, hands, id⟩
    rw [same trivial]
    cases γ.context
    rfl

section

variable (sound : γ.Sound V) (tidy : expr.Tidy V.names)

include sound tidy

/-- An expression without effects leaves no marks. -/
theorem operand : Goes V γ ∅ (fun _ => each [expr]) (fun inner => inner expr) fun _ => True :=
  (inner sound tidy).retask fun _ => .each

theorem lowerUsed :
    Goes V γ ∅ (fun _ => each [expr]) (fun inner => lowerUsed inner expr) fun _ => True :=
  withNeedsValue (operand (sound.alter rfl rfl rfl rfl rfl) tidy)

theorem lowerUnused :
    Goes V γ ∅ (fun _ => each [expr]) (fun inner => lowerUnused inner expr)
      fun _ => True :=
  withNeedsValue (operand (sound.alter rfl rfl rfl rfl rfl) tidy)

end

/-! ## Arguments -/

section

variable (sound : γ.Sound V)

include sound

theorem lowerIgnoredReceiver {obj : Option Expr}
    (tidy : ∀ expr ∈ obj, expr.Tidy V.names) :
    Goes V γ ∅ (fun _ => each obj.toList) (fun inner => lowerIgnoredReceiver inner obj)
      fun _ => True := by
  cases obj with
  | none => exact pure trivial
  | some expr =>
    exact .ite (fun _ => (pure trivial).dropping (.dropping _)) fun _ =>
      discard (lowerUnused sound (tidy expr rfl))

theorem receiverValue (tidy : call.Tidy V.names) :
    Goes V γ ∅ (fun _ => each call.obj.toList) (fun inner => receiverValue inner call)
      fun _ => True := by
  unfold Lower.receiverValue
  cases found : call.obj <;> dsimp only
  case some obj => exact (lowerUsed sound (tidy.obj obj found)).closing fun _ => pure trivial
  case none => exact plain

/-- Only a callee that takes a receiver gets one. -/
theorem lowerReceiver (defn : Definition) (tidy : call.Tidy V.names) :
    Goes V γ ∅ (fun _ => each call.obj.toList)
      (fun inner => lowerReceiver inner call defn) fun found =>
        found.isSome = true → defn.takesReceiver = true := by
  unfold Lower.lowerReceiver
  refine .ite (fun taken => ?_) fun _ => ?_
  · refine (receiverValue sound tidy).closing @fun found _ => ?_
    obtain ⟨_, _⟩ := found
    dsimp only
    split
    · exact plain.mono fun _ _ _ => taken
    · split <;> exact plain.mono fun _ _ _ => taken
  · exact (lowerIgnoredReceiver sound tidy.obj).closing fun _ => pure nofun

theorem uniformArg {param : Param} {arg : Option Expr} (tidy : ∀ expr ∈ arg, expr.Tidy V.names)
    (default : ∀ expr, param.default? = some (.expr expr) → expr.Tidy V.names) :
    Goes V γ ∅ (fun _ => each (param.evaluated arg))
      (fun inner => uniformArg inner call defn param arg) fun _ => True := by
  unfold Lower.uniformArg Param.evaluated Param.defaultExpr?
  cases arg with
  | some arg => exact (lowerUsed sound (tidy arg rfl)).closing fun _ => plain
  | none =>
    cases found : param.default? with
    | none => exact fault rfl
    | some value =>
      cases value <;> dsimp only
      case expr value => exact (lowerUsed sound (default value found)).closing fun _ => plain
      case magic => exact plain

theorem uniformArgsFor (params : List Param) (tidy : ∀ expr ∈ args, expr.Tidy V.names)
    (default : ∀ param ∈ params, ∀ expr, param.default? = some (.expr expr) → expr.Tidy V.names) :
    Goes V γ ∅ (fun _ => each (Param.row params args))
      (fun inner => uniformArgsFor inner call defn params args) fun values =>
        values.length = params.length := by
  induction params generalizing args with
  | nil => exact pure rfl
  | cons param params ih =>
    have first : ∀ expr ∈ args.head?, expr.Tidy V.names := fun expr found =>
      tidy expr (List.mem_of_mem_head? found)
    have rest : ∀ expr ∈ args.tail, expr.Tidy V.names := fun expr member =>
      tidy expr (List.mem_of_mem_tail member)
    simp only [Param.row, each_append]
    refine (uniformArg sound first (default param List.mem_cons_self)).bind fun _ => ?_
    refine (ih rest (List.forall_mem_cons.mp default).2).closing
      fun length => ?_
    exact pure (congrArg (· + 1) length)

theorem specialAddress {special : Param} (named : V.names special.name)
    (loc : Location) : Keeps V γ ∅ (fun _ => specialAddress special loc) fun _ => True := by
  refine context.bind fun here => ?_
  subst here
  -- A name that is bound nowhere on the way out, and not in the outermost scope either, is new.
  refine lookup? _ (fun binding => get fun s _ => ?_) (get fun s _ => ?_)
  · refine settle ?_
    cases binding with
    | slot => exact pure trivial
    | value => exact fault rfl
  · cases outer : s.scopes.lookupLocal? γ.context.functionScope special.name with
    | some binding =>
      refine settle ?_
      cases binding with
      | slot => exact pure trivial
      | value => exact fault rfl
    | none =>
      have free : (γ.context.functionScope, special.name) ∈ γ.unboundIn s :=
        .inr ⟨sound.functionScope, outer⟩
      refine plain.bind fun _ => plain.bind fun _ => ?_
      refine .after (.silent (.declareIn (.new (.inr free) named))) ?_
      rintro _ _ _ ⟨rfl, rfl⟩
      exact pure trivial

/-- The operands of a call are lowered in order. -/
theorem uniformArgs (tidy : call.Tidy V.names) (known : defn.Tidy V.names) :
    Goes V γ ∅ (fun _ => each (call.operands defn))
      (fun inner => uniformArgs inner call defn) fun args =>
      (args.receiver.isSome = true → defn.takesReceiver = true) ∧
      ∃ rest, args.values = (args.receiver.map (·.1)).toList ++ rest ∧
        rest.length = defn.fixedParams.length + defn.specialVars.length +
          defn.trailingParams.length := by
  simp only [Call.operands, each_append]
  refine (lowerReceiver sound defn tidy).bind fun taken => ?_
  refine .ite (fun _ => fault rfl) fun enough => ?_
  simp only [← each_append, ← defn.row_fixed_append_trailing call.args (Nat.not_lt.mp enough)]
  simp only [each_append]
  refine (uniformArgsFor sound defn.fixedParams tidy.args fun param member =>
    known.defaults param (List.mem_of_mem_take member)).bind @fun fixed fixedLength => ?_
  refine (Keeps.mapM fun special member =>
    specialAddress sound (known.specials special member) call.loc).bind @fun specials found => ?_
  refine (uniformArgsFor sound defn.trailingParams
    (fun arg member => tidy.args arg (List.mem_of_mem_drop member))
    fun param member => known.defaults param (List.mem_of_mem_drop member)).closing
    @fun trailing trailingLength => ?_
  refine pure ⟨taken, fixed ++ specials ++ trailing, by simp, ?_⟩
  simp only [List.length_append, fixedLength, found.length_eq, trailingLength]

end

/-- In a scope of one's own every name may be bound. -/
theorem declareOwn {binding : Binding} (own : γ.context.scope ∈ γ.fresh) (named : V.names name) :
    Keeps V γ ∅ (fun _ => Lower.declare name binding) fun _ => True :=
  of_tracks (declare (.own own named))

theorem bindParam (ty : Ty) (value : Option ValueId) (primitive : Bool) (loc : Location)
    (own : γ.context.scope ∈ γ.fresh) (named : V.names name) :
    Keeps V γ ∅ (fun _ => Lower.bindParam name ty value primitive loc) fun _ => True := by
  refine (orFault fun _ => rfl).bind fun _ => ?_
  split
  · exact declareOwn own named
  · refine plain.bind fun _ => plain.bind fun _ => ?_
    dsimp only
    split
    · exact declareOwn own named
    · exact plain.bind fun _ => declareOwn own named

section

variable (own : γ.context.scope ∈ γ.fresh)

include own

theorem bindParams (named : ∀ param ∈ params, V.names param.name) :
    Keeps V γ ∅ (fun _ => bindParams defn loc params values) fun left =>
      left.length = values.length - params.length := by
  induction params generalizing values with
  | nil => exact pure rfl
  | cons param params ih =>
    refine (bindParam _ _ _ _ own (named param List.mem_cons_self)).bind fun _ => ?_
    refine (ih (List.forall_mem_cons.mp named).2).mono
      fun _ length => ?_
    rw [length, List.length_tail, List.length_cons, Nat.sub_sub, Nat.add_comm]

variable {missing : Fault}

/-- Special variables are bound if there are addresses for all of them, or if the fault of a missing
one is harmless. -/
theorem bindSpecials {specials : List Param} (named : ∀ special ∈ specials, V.names special.name)
    (enough : specials.length ≤ values.length ∨ (LowerError.internal missing loc).isInconsistency = false) :
    Keeps V γ ∅ (fun _ => Lower.bindSpecials missing loc specials values) fun _ => True := by
  induction specials generalizing values with
  | nil => exact pure trivial
  | cons special specials ih =>
    have harmless : values.head? = none →
        (LowerError.internal missing loc).isInconsistency = false := by
      intro absent
      refine enough.resolve_left fun enough => ?_
      rw [List.head?_eq_none_iff.mp absent] at enough
      exact absurd enough (Nat.not_succ_le_zero _)
    have rest : specials.length ≤ values.tail.length ∨
        (LowerError.internal missing loc).isInconsistency = false := by
      refine enough.imp_left fun enough => ?_
      rw [List.length_tail]
      exact Nat.le_sub_of_add_le enough
    refine (orFault harmless).bind fun _ => ?_
    refine (declareOwn own (named special List.mem_cons_self)).bind fun _ => ?_
    exact ih (List.forall_mem_cons.mp named).2 rest

theorem bindArguments (known : defn.Tidy V.names)
    (enough : defn.fixedParams.length + defn.specialVars.length ≤ values.length ∨ (LowerError.internal missing loc).isInconsistency = false) :
    Keeps V γ ∅ (fun _ => bindArguments defn missing loc values) fun _ => True := by
  refine (bindParams own fun param member =>
    known.params param (List.mem_of_mem_take member)).bind fun length => ?_
  refine (bindSpecials own known.specials (enough.imp_left fun enough => ?_)).bind fun _ => ?_
  · rw [length]
    exact Nat.le_sub_of_add_le (Nat.add_comm _ _ ▸ enough)
  · exact discard (bindParams own fun param member =>
      known.params param (List.mem_of_mem_drop member))

end

end Goes

/-! ## Call instructions -/

namespace Lower

variable {env : Env} {s s' : LowerState} {b : BlockId} {func : FuncId} {conv : Option CallConv}
  {v : ValueId}

/-- A call leaves its mark. -/
theorem emitCall_onward {op : Operation} {rescues : List BlockId} (orderly : s.Orderly env.program)
    (links : env.program.Links defn.symbol) (named : s.code.Names func defn.symbol)
    (callee : op.callee? = some func)
    (handled : op.handler? = if defn.raises then rescues.head? else none)
    (ran : emit op env s = .ok v s') : s.Onward env.program [.call defn rescues] s' := by
  obtain ⟨block, here, _, _, rfl⟩ := emit_ok ran
  have later : s.code.Extends (s.code.written block op) := extends_written block op
  have sound : op.Sound env.program s.code := by
    refine ⟨fun f called => ?_, fun _ made => ?_⟩
    · cases callee.symm.trans called
      exact ⟨_, links, named⟩
    · cases op with
      | makeClosure => cases callee
      | _ => cases made
  refine .of_code orderly (.written orderly.code (orderly.code.placed block here) ?_ sound ?_)
  · cases op <;> first | rfl | cases callee
  · cases op with
    | call | invoke => exact .cons ⟨func, callee, named.later later, handled⟩ .nil
    | _ => cases callee

theorem newBlock_has {label : String} (ran : newBlock label env s = .ok b s') : s'.code.Has b := by
  obtain ⟨_, recorded, rfl⟩ := record_ok ran
  obtain ⟨_, _, _, _, rfl, rfl⟩ := Emit.newBlock_ok recorded
  exact ⟨_, appendBlock_block?_new⟩

/-- A callee that raises is invoked under the innermost rescue. -/
theorem callOrInvoke_onward (orderly : s.Orderly env.program)
    (links : env.program.Links defn.symbol) (named : s.code.Names func defn.symbol)
    (ran : callOrInvoke func values defn conv env s = .ok v s') :
    s.Onward env.program [.call defn s.context.handlers] s' := by
  obtain ⟨uncaught, called⟩ | ⟨_, _, _, _, caught, opened, invoked, rfl⟩ := callOrInvoke_ok ran
  · exact emitCall_onward orderly links named rfl (by exact uncaught.symm) called
  · have first := Silent.onward orderly opened
    have second := emitCall_onward first.orderly links (named.later first.code.later) rfl
      (by exact caught.symm) invoked
    have has := (newBlock_has opened).later second.code.later
    exact first.trans (second.trans (.of_code second.orderly (.position second.orderly.code has)))

end Lower

theorem Stays.callOrInvoke (func : FuncId) (args : List ValueId) (defn : Definition)
    (conv : Option CallConv) :
    Stays V γ u (fun _ => callOrInvoke func args defn conv) fun _ => True := by
  refine Stays.bind Goes.context.moves fun _ _ => ?_
  split
  · split
    · refine .bind (.newBlock _) ?_
      rintro b _ _ ⟨rfl, rfl⟩
      refine (of_moves (.record (.value rfl))).bind fun _ _ => ?_
      refine (of_moves (.position (Set.mem_insert b _))).bind fun _ _ => ?_
      exact .weaken (γ.less_withBlock b) subset_rfl (.pure ⟨rfl, rfl, trivial⟩) fun _ _ _ => id
    · exact of_moves (.record (.value rfl))
  · exact of_moves (.record (.value rfl))

namespace Goes

/-- A function is declared under its name, and called. -/
theorem callDeclared {conv : Option CallConv} {next : ValueId → Lowering α}
    (links : V.env.program.Links defn.symbol) (named : decl.name = defn.symbol)
    (rest : ∀ v, Tracks V γ u (fun _ => []) (next v) after) :
    Tracks V γ u (fun _ => [.call defn]) (fun inner => do
      let func ← declareFn decl
      report event
      let result ← callOrInvoke func values defn conv
      next result inner) after := by
  have called : Goes V γ u (fun _ => [.call defn]) (fun _ => do
      let func ← declareFn decl
      report event
      callOrInvoke func values defn conv) fun _ => True := by
    refine ⟨?_, fun {_ _ s _ _} _ tracked ran => ?_⟩
    · refine (Stays.of_moves (.record (.declare decl))).bind @fun func _ => ?_
      exact Stays.bind plain.moves fun _ _ => Stays.callOrInvoke func values defn conv
    · obtain ⟨_, _, declared, ran1⟩ := bind_ok ran
      obtain ⟨_, _, reported, ran2⟩ := bind_ok ran1
      obtain ⟨rfl, rfl⟩ := declareFn_ok declared
      have first := LowerState.Onward.of_code tracked.orderly
        (.declare tracked.orderly.code (named ▸ links))
      have second := Silent.onward first.orderly reported
      have named' := (tracked.orderly.code.indexed.names_declare decl).later second.code.later
      have third := callOrInvoke_onward second.orderly links (named ▸ named') ran2
      obtain ⟨_, _, _, fits⟩ := tracked.fits
      rw [second.handlers, first.handlers, fits.context] at third
      exact ⟨_, .call, first.trans (second.trans third)⟩
  simpa using called.closing @fun v _ => rest v

/-! ## Foreign calls -/

theorem outAddress {target : Expr} (tidy : Expr.Tidy V.names ⟨.out target, ty, loc⟩) :
    Keeps V γ ∅ (fun _ => outAddress target) fun _ => True := by
  unfold Lower.outAddress
  split
  · rename_i name found
    have named : V.names name := by
      obtain ⟨_, _, _⟩ := target
      cases found
      exact tidy.binds (List.mem_singleton_self name)
    refine lookup? name (fun binding => ?_) ?_
    · cases binding with
      | slot => exact pure trivial
      | value => exact fault rfl
    · refine plain.bind fun _ => plain.bind fun _ => ?_
      refine .after (declare (.new rfl named)) ?_
      rintro _ _ _ ⟨rfl, rfl⟩
      exact pure trivial
  · exact plain
  · exact plain
  · exact fault rfl

section

variable (formal : Option Ty) (sound : γ.Sound V) (tidy : arg.Tidy V.names)

include formal sound tidy

theorem foreignValue :
    Goes V γ ∅ (fun _ => each [arg]) (fun inner => foreignValue inner arg formal)
      fun _ => True := by
  refine (lowerUsed sound tidy).closing fun _ => ?_
  split
  · exact plain
  · split <;> exact plain

theorem foreignArg :
    Goes V γ ∅ (fun _ => each [arg]) (fun inner => foreignArg inner arg formal)
      fun _ => True := by
  obtain ⟨_, _, _⟩ := arg
  unfold foreignArg
  split
  · rename_i target found
    cases found
    exact dropping ((outAddress tidy).bind fun _ => pure trivial) (.dropping _)
  · refine context.bind fun _ => .ite (fun _ => .throw rfl) fun _ => .ite (fun _ => ?_) fun _ => ?_
    · exact (discard (lowerUnused sound tidy)).closing fun _ => plain
    · exact (foreignValue formal sound tidy).closing fun _ => plain

end

/-- The arguments of a foreign call are lowered in order, as far as they are classified. -/
theorem foreignArgs {classes : List ArgClass} {rest : List Expr} (sound : γ.Sound V)
    (tidy : ∀ arg ∈ args, arg.Tidy V.names) :
    Goes V γ ∅ (fun _ => each (args ++ rest))
      (fun inner => foreignArgs inner args classes params) fun _ => True := by
  induction args generalizing classes params with
  | nil => exact (pure trivial).dropping (.dropping _)
  | cons arg args ih =>
    cases classes with
    | nil => exact (pure trivial).dropping (.dropping _)
    | cons cls classes =>
      rw [List.cons_append, each_cons]
      refine (foreignArg _ sound (tidy arg List.mem_cons_self)).bind fun _ => ?_
      refine plain.bind fun _ => ?_
      exact (ih (List.forall_mem_cons.mp tidy).2).closing fun _ =>
        pure trivial

theorem returnSlot (cls : ArgClass) :
    Keeps V γ u (fun _ => returnSlot cls) fun slot => cls.kind = .indirect → slot ≠ none :=
  .ite (fun _ => plain.bind fun _ => pure fun _ => Option.some_ne_none _)
    fun direct => pure fun indirect => absurd indirect direct

/-- The result of a foreign call is rebuilt from its storage if it is returned through memory. -/
theorem foreignReturn (result : ValueId) {cls : ArgClass} {slot : Option ValueId} (ret : Ty)
    (loc : Location) (slotted : cls.kind = .indirect → slot ≠ none) :
    Keeps V γ u (fun _ => foreignReturn result cls slot ret loc) fun _ => True := by
  unfold Lower.foreignReturn
  split
  · rename_i indirect
    exact (orFault fun missing => absurd missing (slotted indirect)).any
  · exact plain
  · split <;> exact plain

/-- A foreign call goes through its operands and calls the symbol of the foreign function. -/
theorem lowerForeign (sound : γ.Sound V) (tidy : call.Tidy V.names)
    (member : defn ∈ V.env.program.defs) (foreign : defn.isForeign = true) :
    Goes V γ ∅ (fun _ => each (call.operands defn) ++ [.perform defn call.block])
      (fun inner => lowerForeign inner call defn) fun _ => True := by
  have specified : defn.foreign ≠ none := Option.isSome_iff_ne_none.mp foreign
  simp only [Call.operands, each_append call.obj.toList, List.append_assoc]
  refine (orFault fun missing => absurd missing specified).bind @fun spec given => ?_
  refine (lowerIgnoredReceiver sound tidy.obj).bind fun _ => ?_
  refine .ite (fun _ => fault rfl) fun _ => ?_
  refine plain.bind fun _ => ?_
  refine (returnSlot _).bind fun slotted => ?_
  refine (foreignArgs sound tidy.args).bind fun _ => ?_
  have symbol : spec.symbol = defn.symbol := by rw [Definition.symbol, given]
  refine (callDeclared (.definition member (.inl foreign)) symbol fun _ => ?_).retask ?_
  · split
    · exact plain
    · exact (foreignReturn _ _ _ slotted).bind fun _ => pure trivial
  · intro rescues handed marks _ unfolds
    refine .performed ?_
    rw [Definition.blockTasks, foreign, Bool.not_true, Bool.and_false]
    exact unfolds

/-! ## Join points -/

theorem openJoin {next : Nat → Lowering α} (ty : Ty)
    (rest : Tracks V γ.withJoin u tasks (next (γ.base + γ.depth)) after) :
    Tracks V γ u tasks (fun inner => openJoin ty >>= fun i => next i inner) after := by
  refine .after (.silent (.openJoin ty)) ?_
  rintro _ _ _ ⟨rfl, rfl, rfl⟩
  exact rest

theorem addToJoin {i : Nat} (usable : i ∈ γ.usable) (value : ValueId) (ty : Ty) :
    Keeps V γ u (fun _ => addToJoin i value ty) fun _ => True :=
  of_tracks (.silent (.addToJoin usable value ty))

theorem closeJoinOrNil :
    Tracks V γ.withJoin u (fun _ => []) (fun _ => closeJoinOrNil (γ.base + γ.depth))
      fun _ γ' u' => γ' = γ ∧ u' = u := by
  refine .after (.silent .closeJoin) ?_
  rintro found _ _ ⟨rfl, rfl⟩
  cases found with
  | some => exact .silent (.pure ⟨rfl, rfl⟩)
  | none => exact Tracks.mono plain fun _ _ _ known => ⟨known.1, known.2.1⟩

/-- A body is lowered with `next` leading to a join point of its own. -/
theorem throughNext {last : Option ValueId → Lowering α} (sound : γ.Sound V) (free : ¬γ.held)
    (tidy : body.Tidy V.names)
    (rest : ∀ found context, Tracks V { γ with context := context } ∅ (fun _ => []) (last found) after) :
    Tracks V γ ∅ (fun _ => [.expr body]) (fun inner => do
      let next ← Lower.openJoin ty
      Lower.setContext fun context => { context with nextJoin := some next }
      let value ← inner body
      Lower.addToJoin next value ty
      let found ← Lower.closeJoin next
      last found inner) after := by
  refine openJoin ty (.after (.setContext _ free (fun _ => rfl) fun _ => rfl) ?_)
  rintro _ _ _ ⟨rfl, rfl⟩
  have covers : γ.context.Over γ.scopes γ.roots γ.withJoin.usable (Block.Tidy V.names) :=
    sound.mono subset_rfl subset_rfl γ.usable_withJoin fun _ => id
  change Tracks V (Standing.withJoin { γ with
    context := { γ.context with nextJoin := some (γ.base + γ.depth) } }) ∅ _ _ after
  refine (inner ?_ tidy).closing @fun value _ => (addToJoin (Standing.join_usable _) value ty).bind
    fun _ => .after (.silent .closeJoin) ?_
  · refine covers.alter covers.scope rfl covers.breakJoin (fun _ found => ?_) rfl
    exact Option.some.inj found ▸ γ.join_usable
  · rintro found _ _ ⟨rfl, rfl⟩
    exact rest found _

/-! ## Scopes and contexts -/

theorem newScope {next : ScopeId → Lowering α} {parent : Option ScopeId}
    (known : ∀ x ∈ parent, x ∈ γ.scopes)
    (rest : ∀ x, Tracks V (γ.withScope x parent) ∅ tasks (next x) after) :
    Tracks V γ u tasks (fun inner => newScope parent >>= fun x => next x inner) after := by
  refine .after (.silent (.newScope known)) ?_
  rintro x _ _ ⟨rfl, rfl⟩
  exact rest x

theorem freshContext {next : Context → Lowering α} (name : String)
    (rest : ∀ x, Tracks V (γ.withScope x none) ∅ tasks (next (.initial name V.env.program.file x))
      after) :
    Tracks V γ u tasks (fun inner => freshContext name >>= fun context => next context inner)
      after := by
  simp only [Lower.freshContext, bind_assoc, pure_bind]
  refine program.bind fun same => newScope (fun _ none => absurd none nofun) fun x => ?_
  rw [same]
  exact rest x

/-! ## Inlined calls -/

/-- An inlined callee works in a scope of its own and yields to the block in the context of the
call. -/
theorem calleeContext {receiver : Option (ValueId × Ty)} :
    Tracks V γ u (fun _ => []) (fun _ => calleeContext defn block receiver join)
      fun callee γ' u' => γ' = γ.withScope callee.scope none ∧ u' = ∅ ∧
        callee.functionScope = γ.context.functionScope ∧ callee.breakJoin = none ∧
        callee.nextJoin = none ∧ callee.yieldTarget = some (block, γ.context, join) ∧
        callee.handlers = γ.context.handlers := by
  refine context.bind fun here => freshContext _ fun _ => ?_
  subst here
  exact .silent (.pure ⟨rfl, rfl, rfl, rfl, rfl, rfl, rfl⟩)

theorem inlinedBody (sound : γ.Sound V) (own : γ.context.scope ∈ γ.fresh)
    (known : defn.Tidy V.names) (tidy : body.Tidy V.names) (usable : join ∈ γ.usable)
    (enough : defn.fixedParams.length + defn.specialVars.length ≤ values.length) :
    Goes V γ ∅ (fun _ => [.expr body])
      (fun inner => inlinedBody inner call defn body values join) fun _ => True :=
  (bindArguments own known (.inl enough)).bind fun _ => (inner sound tidy).closing fun _ =>
    addToJoin usable _ _

/-- The callee is gone through where it yields to the block. -/
theorem lowerInlined (sound : γ.Sound V) (tidy : call.Tidy V.names) (known : defn.Tidy V.names)
    (yields : defn.blockArg = false) :
    Goes V γ ∅ (fun handed => each (call.operands defn) ++ defn.performed handed call.block)
      (fun inner => lowerInlined inner call defn) fun _ => True := by
  unfold Lower.lowerInlined
  split
  · rename_i block body hasBlock hasBody
    have performed (handed : List Block) :
        defn.performed handed call.block = [.inside (block :: handed) [.expr body]] := by
      rw [Definition.performed, hasBlock, hasBody, yields]
      rfl
    simp only [performed]
    refine .ite (fun _ => fault rfl) fun _ => plain.bind fun _ => ?_
    refine (uniformArgs sound tidy known).bind @fun args built => openJoin _ ?_
    refine .after calleeContext ?_
    rintro callee _ _ ⟨rfl, rfl, functionScope, breakJoin, nextJoin, yieldTarget, handlers⟩
    have covers : γ.context.Over (insert callee.scope γ.scopes)
        (γ.withJoin.withScope callee.scope none).roots γ.withJoin.usable (Block.Tidy V.names) :=
      sound.mono (Set.subset_insert _ _) (fun _ => .inl) γ.usable_withJoin fun _ => id
    have root : callee.functionScope ∈ (γ.withJoin.withScope callee.scope none).roots :=
      functionScope ▸ covers.functionScope
    have inside : ((γ.withJoin.withScope callee.scope none).within callee).Sound V := by
      refine .intro (Set.mem_insert _ _) root ?_ ?_ ?_ ?_
      · exact fun i found => absurd (breakJoin.symm.trans found) nofun
      · exact fun _ found => absurd (nextJoin.symm.trans found) nofun
      · intro target found
        obtain rfl := Option.mem_unique yieldTarget found
        exact ⟨tidy.block block hasBlock, γ.join_usable⟩
      · intro target found
        obtain rfl := Option.mem_unique yieldTarget found
        exact covers
    have encloses : (γ.withJoin.withScope callee.scope none).Encloses V callee
        (fun _ => [.expr body]) fun handed => [.inside (block :: handed) [.expr body]] :=
      fun handed hands => ⟨block :: handed, yieldTarget ▸ .some hands, fun done =>
        .inside (handlers ▸ done)⟩
    refine (withContext (inlinedBody inside (Set.mem_insert _ _) known
      (known.body body hasBody) γ.join_usable ?_) encloses).closing fun _ => ?_
    · obtain ⟨_, rest, values, length⟩ := built
      rw [values]
      have enough : defn.fixedParams.length + defn.specialVars.length ≤ rest.length :=
        length ▸ Nat.le_add_right _ _
      cases args.receiver <;> exact enough
    · refine .forget (γ.withJoin.less_withScope _ _) (.after closeJoinOrNil ?_)
      rintro value _ _ ⟨rfl, rfl⟩
      exact plain
  · exact fault rfl

theorem bindYielded {params : List BlockParam} {args : List (ValueId × Ty)}
    (own : γ.context.scope ∈ γ.fresh) (named : ∀ param ∈ params, V.names param.name) :
    Keeps V γ ∅ (fun _ => Lower.bindYielded params args) fun _ => True := by
  induction params generalizing args with
  | nil => exact pure trivial
  | cons param params ih =>
    have rest : ∀ value ty, Keeps V γ ∅ (fun _ => do
        let value ← Lower.coerce value ty param.ty
        let slot ← Lower.spill value param.ty param.name
        Lower.declare param.name (.slot slot param.ty)
        Lower.bindYielded params args.tail) fun _ => True := fun _ _ =>
      plain.bind fun _ => plain.bind fun _ =>
        (declareOwn own (named param List.mem_cons_self)).bind fun _ =>
          ih (List.forall_mem_cons.mp named).2
    unfold Lower.bindYielded
    dsimp only
    split
    · exact rest _ _
    · exact plain.bind fun _ => rest _ _

section

variable (sound : γ.Sound V)

include sound

theorem yieldedBody {args : List (ValueId × Ty)} (own : γ.context.scope ∈ γ.fresh) (free : ¬γ.held)
    (tidy : block.Tidy V.names) :
    Tracks V γ ∅ (fun _ => [.expr block.body]) (fun inner => yieldedBody inner block args)
      fun _ γ' u' => ∃ context, γ' = { γ with context := context } ∧ u' = ∅ := by
  refine (bindYielded own tidy.params).bind fun _ => ?_
  refine throughNext sound free tidy.body fun found context => ?_
  cases found with
  | some => exact .silent (.pure ⟨context, rfl, rfl⟩)
  | none => exact plain.bind fun _ => .silent (.pure ⟨context, rfl, rfl⟩)

variable {scope : Option Expr}

theorem yieldScope (tidy : ∀ expr ∈ scope, expr.Tidy V.names) :
    Goes V γ ∅ (fun _ => each scope.toList) (fun inner => yieldScope inner scope)
      fun _ => True := by
  cases scope with
  | none => exact pure trivial
  | some expr => exact (lowerUsed sound (tidy expr rfl)).closing fun _ => pure trivial

/-- The block is gone through where the enclosing code yields, under the rescues of its callee. -/
theorem lowerYield (tidy : ∀ arg ∈ args, arg.Tidy V.names)
    (scopeTidy : ∀ expr ∈ scope, expr.Tidy V.names) :
    Goes V γ ∅ (fun _ => [.expr ⟨.yield args scope, ty, loc⟩])
      (fun inner => Lower.lowerYield inner args scope loc) fun _ => True := by
  refine context.bind fun here => (orFault fun _ => rfl).bind @fun target found => ?_
  obtain ⟨block, caller, _⟩ := target
  subst here
  obtain ⟨blockTidy, usable, callerOver⟩ := sound.handed found
  have given {handed : List Block} (hands : Hands γ.context.yieldTarget handed) :
      ∃ outer, handed = block :: outer ∧ Hands caller.yieldTarget outer := by
    rw [found] at hands
    obtain _ | ⟨outside⟩ := hands
    exact ⟨_, rfl, outside⟩
  have each : ∀ arg ∈ args, Goes V γ ∅ (fun _ => each [arg])
      (fun inner => return (← Lower.lowerUsed inner arg, arg.ty)) fun _ => True := fun arg member =>
    (lowerUsed sound (tidy arg member)).closing fun _ => pure trivial
  refine expands (?_ : Goes V γ ∅ (fun handed =>
    Task.each (args ++ scope.toList) ++ [.inside handed.tail [.expr block.body]]) _ _) fun hands => ?_
  · simp only [each_append, List.append_assoc, ← flatMap_each args]
    refine (mapM each).bind fun _ => ?_
    refine (yieldScope sound scopeTidy).bind fun _ => newScope ?_ fun x => ?_
    · exact fun _ same => Option.some.inj same ▸ callerOver.scope
    refine context.bind fun same => ?_
    have covers : caller.Over (insert x γ.scopes) (γ.withScope x (some caller.scope)).roots γ.usable
        (Block.Tidy V.names) :=
      callerOver.mono (Set.subset_insert _ _) (fun _ => .inl) subset_rfl fun _ => id
    refine recede (.withContext (yieldedBody ?_ (Set.mem_insert _ _) not_false blockTidy) ?_) ?_
    · refine covers.alter (Set.mem_insert _ _) rfl (fun _ same => ?_) covers.nextJoin rfl
      exact Option.some.inj same ▸ usable
    · intro handed hands
      obtain ⟨outer, rfl, outside⟩ := given hands
      exact ⟨outer, outside, fun done => .inside (same ▸ done)⟩
    · rintro a _ _ ⟨_, ⟨context, rfl, rfl⟩, rfl⟩
      exact ⟨γ, ∅, γ.less_withScope _ _, subset_rfl, rfl, rfl, trivial⟩
  · obtain ⟨_, rfl, _⟩ := given hands
    exact .yield rfl

theorem lowerJump {join : Option Nat} {value : Option Expr} {keyword : String}
    (usable : ∀ i ∈ join, i ∈ γ.usable) (tidy : ∀ expr ∈ value, expr.Tidy V.names) :
    Goes V γ ∅ (fun _ => each value.toList)
      (fun inner => lowerJump inner join value keyword loc) fun _ => True := by
  refine (orFault fun _ => rfl).bind @fun i found => ?_
  cases value <;> dsimp only
  case none => exact plain.bind fun _ => (addToJoin (usable i found) _ _).bind fun _ => plain
  case some =>
    exact (lowerUsed sound (tidy _ rfl)).closing fun _ => (addToJoin (usable i found) _ _).bind
      fun _ => plain

end

/-! ## Closures -/

theorem capture (loc : Location) (named : V.names name) :
    Keeps V γ ∅ (fun _ => Lower.capture loc name) fun capture => V.names capture.name := by
  refine lookup? name (fun binding => ?_) ?_
  · cases binding with
    | slot => exact pure named
    | value =>
      simp only [Lower.orFault, pure_bind]
      exact plain.bind fun _ => pure named
  · exact .throw rfl

theorem bindCaptures (index : Nat) (own : γ.context.scope ∈ γ.fresh)
    (named : ∀ capture ∈ captures, V.names capture.name) :
    Keeps V γ ∅ (fun _ => Lower.bindCaptures recordType data index captures) fun _ => True := by
  induction captures generalizing index with
  | nil => exact pure trivial
  | cons capture captures ih =>
    refine plain.bind fun _ => plain.bind fun _ => ?_
    refine (declareOwn own (named capture List.mem_cons_self)).bind fun _ => ?_
    exact ih (index + 1) (List.forall_mem_cons.mp named).2

theorem bindBlockParams {params : List BlockParam} (own : γ.context.scope ∈ γ.fresh)
    (named : ∀ param ∈ params, V.names param.name) :
    Keeps V γ ∅ (fun _ => bindBlockParams loc params values) fun _ => True := by
  induction params generalizing values with
  | nil => exact pure trivial
  | cons param params ih =>
    cases values with
    | nil => exact pure trivial
    | cons value values =>
      refine (bindParam _ _ _ _ own (named param List.mem_cons_self)).bind fun _ => ?_
      exact ih (List.forall_mem_cons.mp named).2

section

variable (sound : γ.Sound V) (free : ¬γ.held) (tidy : block.Tidy V.names)

include sound free tidy

theorem closureBody :
    Tracks V γ ∅ (fun _ => [.expr block.body]) (fun inner => closureBody inner block)
      fun _ γ' _ => ∃ context, γ' = { γ with context := context } := by
  refine throughNext sound free tidy.body fun found context => ?_
  cases found with
  | some => exact Tracks.mono plain fun _ _ _ known => ⟨context, known.1⟩
  | none => exact .silent (.pure ⟨context, rfl⟩)

/-- A block is lowered in a scope inside the one of its captures. -/
theorem closureScope : Tracks V γ ∅ (fun _ => [.expr block.body]) (fun inner => do
      let scope ← Lower.newScope (some (← Lower.context).scope)
      setContext fun context => { context with scope := scope }
      Lower.bindBlockParams block.body.loc block.params values
      Lower.closureBody inner block) fun _ γ' _ => ∃ context, γ' = { γ with context := context } := by
  refine context.bind fun here => ?_
  subst here
  refine newScope (fun _ same => Option.some.inj same ▸ sound.scope) fun x => ?_
  refine .after (.setContext _ free (fun _ => rfl) fun _ => rfl) ?_
  rintro _ _ _ ⟨rfl, rfl⟩
  refine (bindBlockParams (Set.mem_insert _ _) tidy.params).bind fun _ => ?_
  have covers : γ.context.Over (insert x γ.scopes) (γ.withScope x (some γ.context.scope)).roots
      γ.usable (Block.Tidy V.names) :=
    sound.mono (Set.subset_insert _ _) (fun _ => .inl) subset_rfl fun _ => id
  refine (closureBody ?_ ?_ tidy).recede ?_
  · exact covers.alter (Set.mem_insert _ _) rfl covers.breakJoin covers.nextJoin rfl
  · exact free
  · rintro _ _ _ ⟨context, rfl⟩
    exact ⟨{ γ with context := context }, ∅, Standing.less_withScope _ _ _, Set.empty_subset _,
      context, rfl⟩

end

theorem closureFunction (sound : γ.Sound V) (own : γ.context.scope ∈ γ.fresh) (free : ¬γ.held)
    (named : ∀ capture ∈ captures, V.names capture.name) (tidy : block.Tidy V.names) :
    Tracks V γ ∅ (fun _ => [.expr block.body])
      (fun inner => Lower.closureFunction inner name block recordType captures self values)
      fun _ γ' _ => ∃ context, γ' = { γ with context := context } := by
  cases values with
  | nil => exact .throw rfl
  | cons data values =>
    refine (bindCaptures 0 own named).bind fun _ => ?_
    cases self with
    | none => exact closureScope sound free tidy
    | some found =>
      simp only [Lower.bindSelf, bind_assoc]
      refine plain.bind fun _ => plain.bind fun _ => plain.bind fun _ => ?_
      refine .after (.setContext _ free (fun _ => rfl) fun _ => rfl) ?_
      rintro _ _ _ ⟨rfl, rfl⟩
      exact closureScope (sound.alter rfl rfl rfl rfl rfl) free tidy

/-- The context at the start of a function refers to what is known there. -/
theorem entry_sound (name : String) (x : ScopeId) (base : Nat) :
    (Standing.entry V.env name x base).Sound V :=
  .intro rfl rfl (fun _ none => absurd none nofun) (fun _ none => absurd none nofun)
    (fun _ none => absurd none nofun) fun _ none => absurd none nofun

/-- The function of a closure is declared and lowered, and the closure is made. -/
theorem closure (closes : IsClosureName decl.name)
    (named : ∀ capture ∈ captures, V.names capture.name) (tidy : block.Tidy V.names) :
    Goes V γ ∅ (fun _ => [.closure block]) (fun inner => do
      let func ← Lower.declareFn decl
      let resume ← Lower.cursor
      let values ← Lower.beginRoutine func
      let context ← Lower.freshContext name
      Lower.returningTo resume (Lower.withContext context
        (Lower.closureFunction inner name block recordType captures self values))
      Lower.report event
      Lower.emit (.makeClosure func data)) fun _ => True where
  moves := by
    refine (Stays.of_moves (.record (.declare decl))).bind @fun func _ => ?_
    have whole : ∀ (inner : Expr → Lower ValueId) (last : Lower ValueId), (do
          let resume ← Lower.cursor
          let values ← Lower.beginRoutine func
          let context ← Lower.freshContext name
          Lower.returningTo resume (Lower.withContext context
            (Lower.closureFunction inner name block recordType captures self values))
          last) = Lower.inFunction func name (fun values =>
            Lower.closureFunction inner name block recordType captures self values) >>=
              fun _ => last := by
      intro inner last
      simp [Lower.inFunction]
    simp only [whole]
    refine .bind (.inFunction fun _ x => ?_) ?_
    · exact (closureFunction (entry_sound _ x _) rfl not_false named tidy).moves
    · rintro _ _ _ ⟨rfl, rfl⟩
      exact Stays.bind plain.moves fun _ _ => Stays.of_moves (.record (.value rfl))
  leaves {inner handed s s' v} walks tracked ran := by
    have orderly := tracked.orderly
    obtain ⟨_, _, inside, fits⟩ := tracked.fits
    obtain ⟨_, _, declared, ran1⟩ := Lower.bind_ok ran
    obtain ⟨rfl, rfl⟩ := Lower.declareFn_ok declared
    obtain ⟨resume, _, here, ran2⟩ := Lower.bind_ok ran1
    cases here
    obtain ⟨params, _, began, ran3⟩ := Lower.bind_ok ran2
    obtain ⟨entry, begun, rfl⟩ := Lower.record_ok began
    obtain ⟨_, _, fresh, ran4⟩ := Lower.bind_ok ran3
    cases fresh
    obtain ⟨_, s3, returned, ran5⟩ := Lower.bind_ok ran4
    obtain ⟨_, _, reported, made⟩ := Lower.bind_ok ran5
    have started := (extends_declare decl).trans (frame_beginRoutine begun).later
    have steady : Emit.Steady s.code (s.code.declare decl).2 :=
      ⟨extends_declare decl, declare_cursor⟩
    have entered : (Standing.entry V.env name (s.scopes.add none).1 (γ.base + γ.depth)).Tracked V ∅
        [] (LowerState.entering { s with code := (s.code.declare decl).2 } V.env name entry) :=
      ⟨⟨_, _, rfl, (fits.recorded steady).entry begun⟩, .none,
        (orderly.code.declare (.inr closes)).beginRoutine begun, fun join member exit here =>
          (orderly.exits join member exit here).later started⟩
    -- the cursor goes back to where the closure is made
    obtain ⟨t, lowered, back⟩ : ∃ t, Lower.withContext (Context.initial name V.env.program.file
          ⟨s.scopes.all.size⟩) (Lower.closureFunction inner name block recordType captures self
            params) V.env { s with code := entry, scopes := (s.scopes.add none).2 } = .ok () t ∧
        (t.Orderly V.env.program → entry.Extends t.code → t.Onward V.env.program [] s3) := by
      cases resume : (s.code.declare decl).2.cursor with
      | none =>
        dsimp only at returned
        rw [resume] at returned
        exact ⟨s3, returned, fun kept _ => .of_same kept rfl rfl rfl rfl⟩
      | some b =>
        dsimp only at returned
        rw [resume] at returned
        obtain ⟨t, lowered, rfl⟩ := Lower.returningTo_ok returned
        rw [declare_cursor] at resume
        exact ⟨t, lowered, fun kept later => .of_code kept (.position kept.code
          ((orderly.code.placed b resume).later (started.trans later)))⟩
    obtain ⟨_, ran6, rfl⟩ := Lower.withContext_ok lowered
    obtain ⟨marks, unfolds, inside⟩ :=
      (closureFunction (entry_sound name _ _) rfl not_false named tidy).leaves walks entered ran6
    have resumed := back ⟨inside.orderly.code, inside.orderly.exits⟩ inside.code.later
    have noted := Lower.Silent.onward resumed.orderly reported
    have whole := inside.code.trans (resumed.code.trans noted.code)
    rw [List.append_nil, List.append_nil] at whole
    obtain ⟨b, here, _, result, rfl⟩ := Lower.emit_ok made
    cases result
    have has := noted.orderly.code.placed b here
    have closed := Recording.Onward.closure orderly.code.indexed data begun closes whole has
    exact ⟨marks, .closure unfolds, closed, fun join member exit here =>
      (noted.exits join member exit here).later (extends_written _ _),
      noted.handlers.trans resumed.handlers, noted.yieldTarget.trans resumed.yieldTarget⟩

/-- A block becomes a function of its own. -/
theorem materialize (tidy : block.Tidy V.names) :
    Goes V γ ∅ (fun _ => [.closure block]) (fun inner => Lower.materialize inner block)
      fun _ => True := by
  refine context.bind @fun context _ => plain.bind @fun number _ => ?_
  refine (Keeps.mapM fun name member => capture _ (tidy.captures name member)).bind
    fun captured => ?_
  refine plain.bind fun _ => plain.bind fun _ => plain.bind fun _ => ?_
  refine plain.bind fun _ => closure ⟨context.fnName, number, rfl⟩ (fun found member => ?_) tidy
  exact (exists_of_forall₂ captured found member).elim fun _ named => named

end Goes

end CallLowering
