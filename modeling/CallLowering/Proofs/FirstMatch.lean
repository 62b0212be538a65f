import CallLowering.Proofs.Trying

/-!
# The first candidate that fits

A function whose body is a call of several candidates evaluates the operands of the call once and
runs the first candidate that passes its tests (`Program.walk_firstMatch`).
-/

namespace CallLowering

open Definition Observed

variable {calls : List (List String)} {observed : Observed} {body : Expr} {self : Ty}

/-- A walk that gets to this place ends there. -/
def Recording.HaltsAt (code : Recording) (spot : Spot) (stop : TraceEnd) : Prop :=
  ∃ instruction, code.instructionAt? spot = some instruction ∧
    ∀ walk : Walk, walk.step code instruction = .ok (.halt stop, walk)

/-! ## Returning -/

/-- The code that was added ends the function for a walk that comes by. -/
structure Closes (code code' : Recording) (stop : TraceEnd) : Prop where
  later : code.Extends code'
  stretch : ∀ fin, code'.Extends fin → ∀ spot, code.OpenAt spot → ∀ walk : Walk,
    ∃ spot', Stretch fin spot walk [] spot' walk ∧ fin.HaltsAt spot' stop

namespace Closes

variable {code code1 code' : Recording} {stop : TraceEnd}

/-- No walk comes by where the function has ended before. -/
theorem dead (ended : code.isTerminated = true) : Closes code code stop := by
  refine ⟨.refl _, fun _ _ _ opened => ?_⟩
  exact absurd (ended.symm.trans opened.isTerminated) Bool.noConfusion

theorem behind (passes : ∀ walk, Passes code code1 [] [] walk walk)
    (closes : Closes code1 code' stop) : Closes code code' stop := by
  refine ⟨(passes ⟨[], [], #[], #[]⟩).later.trans closes.later, ?_⟩
  intro fin later spot opened walk
  obtain ⟨spot1, opened1, stretch1⟩ :=
    (passes walk).stretch fin (closes.later.trans later) spot opened
  obtain ⟨spot', stretch', halts⟩ := closes.stretch fin later spot1 opened1 walk
  exact ⟨spot', stretch1.trans stretch', halts⟩

end Closes

namespace Lower

variable {env : Env} {fin : Recording} {σ : Setting} {known : Known} {s s' : LowerState}
  {spot : Spot} {call : Call} {defn : Definition} {v w : ValueId} {u : Unit} {source ret : Ty}
  {walk : Walk} {op : Operation}

/-- A walk goes on behind an instruction that it learns nothing from. -/
theorem emit_silent (goesOn : op.isTerminator = false) (ran : emit op env s = .ok v s')
    (stepped : ∀ fin result, walk.step fin ⟨result, op⟩ = .ok (.fallThrough, walk)) :
    Passes s.code s'.code [] [] walk walk := by
  obtain ⟨_, atBlock, _, _, rfl⟩ := emit_ok ran
  refine ⟨.refl, Recording.extends_written _ _, fun fin later _ opened => ?_⟩
  obtain rfl := Option.mem_unique atBlock opened.cursor
  exact ⟨_, opened.written goesOn, .next (opened.found later) (stepped fin _) .refl⟩

theorem coerce_passes {dest : Ty} (ran : coerce v source dest env s = .ok w s') (walk : Walk) :
    Passes s.code s'.code [] [] walk walk := by
  unfold coerce at ran
  split at ran
  · cases ran
    exact .refl
  · obtain ⟨_, _, asked, ran1⟩ := bind_ok ran
    cases asked
    split at ran1
    · cases ran1
      exact .refl
    · split at ran1
      · cases ran1
        exact .refl
      · exact emit_silent rfl ran1 fun _ _ => rfl

/-- A walk ends at an instruction that ends the function. -/
theorem emitEffect_closes {stop : TraceEnd} (ran : emitEffect op env s = .ok u s')
    (stepped : ∀ fin result (walk : Walk), walk.step fin ⟨result, op⟩ = .ok (.halt stop, walk)) :
    Closes s.code s'.code stop := by
  obtain ⟨_, recorded, rfl⟩ := record_ok ran
  obtain ⟨_, atBlock, _, rfl⟩ := Emit.effect_ok recorded
  refine ⟨Recording.extends_written _ _, fun fin later spot opened _ => ⟨spot, .refl, ?_⟩⟩
  obtain rfl := Option.mem_unique atBlock opened.cursor
  exact ⟨_, opened.found later, stepped fin _⟩

/-- A function ends by returning, unless it does not return. -/
theorem emitReturn_closes (ran : emitReturn v source ret env s = .ok u s') :
    Closes s.code s'.code (if ret.isNoReturn then .unreachable else .returned) := by
  unfold emitReturn at ran
  obtain ⟨ended, _, asked, ran1⟩ := bind_ok ran
  cases asked
  split at ran1
  · rename_i ended
    cases ran1
    exact .dead ended
  · split at ran1
    · rename_i never
      rw [if_pos never]
      exact emitEffect_closes ran1 fun _ _ _ => rfl
    · rename_i returns
      rw [if_neg returns]
      obtain ⟨types, _, asked, ran2⟩ := bind_ok ran1
      cases asked
      split at ran2
      · exact emitEffect_closes ran2 fun _ _ _ => rfl
      · obtain ⟨_, _, converted, ran3⟩ := bind_ok ran2
        refine .behind (coerce_passes converted) ?_
        split at ran3
        · obtain ⟨_, _, asked, ran4⟩ := bind_ok ran3
          cases asked
          obtain ⟨_, _, read, ran5⟩ := bind_ok ran4
          refine .behind (fun _ => emit_silent rfl read fun _ _ => rfl) ?_
          exact emitEffect_closes ran5 fun _ _ _ => rfl
        · exact emitEffect_closes ran3 fun _ _ _ => rfl

/-! ## The body of a function -/

/-- An expression that is a call of several candidates is lowered as a dispatch. -/
theorem lowerExpr_dispatch {expr : Expr} (kind : expr.kind = .call call)
    (several : 2 ≤ call.targets.length) (running : s.code.isTerminated = false)
    (ran : lowerExpr expr env s = .ok v s') :
    ∃ depth outcome s1, lowerDispatch (lowerExprWithin depth) call env s = .ok outcome s1 ∧
      coerce outcome.value outcome.ty expr.ty env s1 = .ok v s' := by
  change lowerExprWithin (env.program.nestingBound expr) expr env s = _ at ran
  cases bound : env.program.nestingBound expr with
  | zero =>
    rw [bound] at ran
    cases ran
  | succ depth =>
    rw [bound, lowerExprWithin, lowerExprWith] at ran
    obtain ⟨_, _, asked, ran1⟩ := bind_ok ran
    cases asked
    rw [running, if_neg Bool.false_ne_true, kind] at ran1
    obtain ⟨outcome, s1, called, converted⟩ := bind_ok ran1
    refine ⟨depth, outcome, s1, ?_, converted⟩
    unfold lowerCallWith at called
    rcases targets : call.targets with _ | ⟨name, _ | ⟨name', names⟩⟩
    · rw [targets] at several
      exact absurd several (by decide)
    · rw [targets, List.length_singleton] at several
      exact absurd several (by decide)
    · rw [targets] at called
      exact called

/-- A walk through the body of a function that is a call of several candidates. -/
theorem functionBody_reaches {values : List ValueId} (outermost : Outermost σ)
    (entering : σ.entering = true) (ready : Ready (.ofOperands env True) σ known s)
    (scopeless : σ.context.withScope = none)
    (isSelf : ∀ binding ∈ σ.context.selfBinding, binding.ty = self) (kind : body.kind = .call call)
    (several : 2 ≤ call.targets.length) (blockless : call.block = none)
    (operands : List.Forall₂ env.program.Operand (call.obj.toList ++ call.args) calls)
    (suitable : ∀ defn ∈ env.program.candidates call, Suitable env.program call defn)
    (ran : functionBody defn body values env s = .ok u s') (proper : fin.Proper)
    (later : s'.code.Extends fin) (opened : s.code.OpenAt spot)
    (isObserved : observed = call.observed self (env.program.candidates call) walk.assumed) :
    s.code.Extends fin ∧ ∃ entered spot' walk',
      fin.HaltsAt spot' (observed.ending s.code.types defn.ret (env.program.candidates call)) ∧
      Stretch fin spot walk entered spot' walk' ∧ Walk.Since s.code
        (calls.flatten ++ (observed.decision s.code.types (env.program.candidates call)).calls)
        ((observed.tried s.code.types (env.program.candidates call)).flatMap
          (observed.tests s.code.types)) walk walk' ∧
      entered.length ≤ (env.program.candidates call).length + 1 := by
  unfold functionBody at ran
  obtain ⟨_, s1, bound, ran1⟩ := bind_ok ran
  obtain ⟨_, _, lowered, ran2⟩ := bind_ok ran1
  have avail : AllAvail (.ofOperands env True) σ known s values := fun _ _ strict => strict.elim
  have binds : Does (.ofOperands env True) σ 1 known s
      (bindArguments defn .specialNotInParameters defn.loc values) fun _ _ _ => True :=
    bindArguments_does entering avail
  have passes := binds.passes trivial trivial ready bound .of_some walk
  rw [Walk.calling_nil] at passes
  obtain ⟨_, lowers1, context1, _⟩ := binds ready _ s1 bound
  have ready₁ := (outermost.ready False (ready.after lowers1 context1)).settled
  obtain ⟨_, opened', _⟩ := passes.stretch s1.code (.refl _) spot opened
  obtain ⟨_, _, _, called, converted⟩ :=
    lowerExpr_dispatch kind several opened'.isTerminated lowered
  have closes := (emitReturn_closes ran2).behind (coerce_passes converted)
  have outermost1 : Outermost σ.settled := ⟨outermost.unhanded, outermost.unhandled⟩
  have dispatches : ∀ {spot1}, s1.code.OpenAt spot1 → _ := fun opened1 =>
    lowerDispatch_reaches outermost1 rfl ready₁ scopeless isSelf blockless operands suitable called
      proper (closes.later.trans later) opened1 isObserved
  have later1 := (dispatches opened').1.trans (closes.later.trans later)
  obtain ⟨_, opened1, stretch1⟩ := passes.stretch fin later1 spot opened
  have reaches := (dispatches opened1).2
  rw [passes.later.types] at reaches
  obtain @⟨spot3, walk3, entered, stops, stretch3, since, bound⟩ := reaches
  have since := passes.since.trans passes.later since
  refine ⟨passes.later.trans later1, ?_⟩
  unfold decision at stops
  unfold ending
  cases chosen : observed.chosen? s.code.types (env.program.candidates call) with
  | none =>
    rw [chosen] at stops
    obtain ⟨result, found⟩ := stops
    exact ⟨entered, spot3, walk3, ⟨_, found, fun _ => rfl⟩, stretch1.trans stretch3, since, bound⟩
  | some candidate =>
    rw [chosen] at stops
    dsimp only [Evaluation.exitOf] at stops ⊢
    cases never : candidate.ret.isNoReturn with
    | true =>
      rw [never] at stops
      obtain ⟨_, found⟩ := stops
      exact ⟨entered, spot3, walk3, ⟨_, found, fun _ => rfl⟩, stretch1.trans stretch3, since, bound⟩
    | false =>
      rw [never] at stops
      obtain ⟨spot', stretch', halts⟩ := closes.stretch fin later spot3 stops walk3
      refine ⟨entered ++ [], spot', walk3, halts, ?_, since, ?_⟩
      · exact stretch1.trans (stretch3.trans stretch')
      · rwa [List.append_nil]

end Lower

/-! ## Whole programs -/

namespace Program

variable {program : Program} {options : Options} {code : Recording}

/-- The code of a compiled program is in good shape and speaks of the types of the program. -/
theorem compile_types (compiled : (program.compile options).result = .ok code) :
    code.Proper ∧ code.types = program.types := by
  refine compile_induction .unpromised (motive := fun code => code.types = program.types) rfl ?_ compiled
  intro defn func code code' _ gains same
  exact gains.later.types.trans same

variable {call : Call} {defn : Definition}

theorem mem_of_candidates (present : defn ∈ program.candidates call) : defn ∈ program.defs := by
  obtain ⟨_, _, found⟩ := List.mem_filterMap.mp present
  exact target?_mem found

/-- A walk through the function of a definition whose body is a call of several candidates. -/
theorem walk_dispatch (compiled : (program.compile options).result = .ok code)
    (member : defn ∈ program.defs) (needed : defn.needsFunction = true)
    (bodied : defn.body = some body) (kind : body.kind = .call call)
    (several : 2 ≤ call.targets.length) (few : call.targets.length < 9000)
    (blockless : call.block = none)
    (operands : List.Forall₂ program.Operand (call.obj.toList ++ call.args) calls)
    (suitable : ∀ candidate ∈ program.candidates call, Lower.Suitable program call candidate)
    (assumed : List Ty)
    (isObserved : observed = call.observed defn.owner (program.candidates call) assumed) :
    ∃ func trace, code.funcNamed? defn.name = some func ∧ code.walk func assumed = .ok trace ∧
      trace.calls.toList = calls.flatten ++
        (observed.decision program.types (program.candidates call)).calls ∧
      trace.guards.toList = (observed.tried program.types (program.candidates call)).flatMap
        (observed.tests program.types) ∧
      trace.stop = observed.ending program.types defn.ret (program.candidates call) := by
  obtain ⟨proper, types⟩ := compile_types compiled
  obtain ⟨s, func, s', idle, lowered, later⟩ := compile_function compiled member needed
  let env : Env := ⟨program, options⟩
  have source : ∀ body ∈ defn.body, body ∈ (Scenario.unpromised env).sources := fun _ bodied =>
    body_parts_subset member bodied
  have gains : Gains (.unpromised env) defn func s.code s'.code :=
    (Lower.lowerFunction_gains source (declares_function member needed) idle lowered).2
  have named := later.funcNamed? (gains.later.indexed idle.proper.indexed) (gains.funcNamed? idle.proper.indexed)
  obtain ⟨_, params, entry, _, bodied', _, begun, ran, rfl⟩ := Lower.lowerFunction_ok lowered
  obtain rfl := Option.mem_unique bodied' bodied
  have ready : Ready (.ofOperands env True) (.function env defn func params s) ∅
      (s.atFunction env defn func params entry) := Lower.ready_atFunction idle begun
  have isSelf : ∀ binding ∈ defn.self? params, binding.ty = defn.owner := by
    intro binding bound
    unfold self? at bound
    split at bound
    · obtain ⟨_, _, rfl⟩ := Option.map_eq_some_iff.mp bound
      rfl
    · cases bound
  obtain ⟨_, here, present⟩ := (idle.proper.declare _).beginRoutine begun
  let start : Walk := ⟨[], assumed, #[], #[]⟩
  have isObserved : observed = call.observed defn.owner (program.candidates call) start.assumed :=
    isObserved
  obtain ⟨laterEntry, entered, _, walk, ⟨_, found, halts⟩, stretch, since, bound⟩ :=
    Lower.functionBody_reaches ⟨rfl, rfl⟩ rfl ready rfl isSelf kind several blockless operands
      suitable ran proper later (.of_empty here present) isObserved
  obtain ⟨_, blocks⟩ := laterEntry.blocksOf func
  have first : (s.atFunction env defn func params entry).code.blocksOf func = _ :=
    Recording.beginRoutine_blocksOf begun
  rw [first] at blocks
  have short : entered.length < Walk.stepLimit := by
    have : (program.candidates call).length ≤ call.targets.length := List.length_filterMap_le _ _
    have : Walk.stepLimit = 10000 := rfl
    change entered.length ≤ (program.candidates call).length + 1 at bound
    omega
  rw [← laterEntry.types, types] at since halts
  refine ⟨func, _, named, stretch.walk_eq blocks.symm found (halts walk) short, ?_, ?_, rfl⟩
  · exact since.calls
  · exact since.guards

/-- A function whose body is a call of several candidates evaluates the operands once and in order, and
runs the first candidate that passes its tests. The tests made are those of the candidates up to this
one, or of all candidates where none passes; then the function cannot get on. -/
theorem walk_firstMatch (compiled : (program.compile options).result = .ok code) {defn : Definition}
    (member : defn ∈ program.defs) (needed : defn.needsFunction = true) {body : Expr} {call : Call}
    (bodied : defn.body = some body) (kind : body.kind = .call call)
    (several : 2 ≤ call.targets.length) (few : call.targets.length < 9000)
    (blockless : call.block = none) {calls : List (List String)}
    (operands : List.Forall₂ program.Operand (call.obj.toList ++ call.args) calls)
    (called : ∀ candidate ∈ program.candidates call, candidate.isSubstituted = false)
    (defaults : ∀ candidate ∈ program.candidates call,
      ∀ value ∈ candidate.omitted call.args.length, value.kind.isSideEffectFree = true)
    (assumed : List Ty) :
    ∃ func trace, code.funcNamed? defn.name = some func ∧ code.walk func assumed = .ok trace ∧
      let candidates := program.candidates call
      let observed := call.observed defn.owner candidates assumed
      trace.calls.toList =
        calls.flatten ++ (observed.chosen? program.types candidates).toList.map symbol ∧
      trace.guards.toList =
        (observed.tried program.types candidates).flatMap (observed.tests program.types) ∧
      trace.stop = observed.ending program.types defn.ret candidates := by
  have suitable : ∀ candidate ∈ program.candidates call, Lower.Suitable program call candidate :=
    fun candidate present =>
      ⟨mem_of_candidates present, called candidate present, defaults candidate present⟩
  obtain ⟨func, trace, named, walked, traced, guards, stops⟩ := walk_dispatch compiled member needed
    bodied kind several few blockless operands suitable assumed rfl
  rw [decision_calls] at traced
  exact ⟨func, trace, named, walked, traced, guards, stops⟩

end Program

/-- The call of a method of an animal, with something that comes from outside. -/
def Call.greeting : Call :=
  ((Call.ofTargets "greet" ["Dog#greet", "Animal#count", "Animal#greet"]).withReceiver
    (.ofVar "pet" (.object "Animal"))).withArgs
    [.ofCall (.ofTargets "input" ["input"]) (.union [.int 32 true, .string])]

def Definition.greeting : Definition :=
  (ofSignature "main" .program [.required "pet" (.object "Animal")] .nil).withBody
    (.ofCall .greeting .nil)

/-- A program whose `main` greets an animal. -/
def Program.greeting : Program where
  file := "greeting"
  types := ((TypeTable.empty.addClass "Animal" none []).addClass "Dog" (some "Animal") []).addClass
    "Cat" (some "Animal") []
  defs := [
    (ofSignature "input" .program [] (.union [.int 32 true, .string])).withSymbol "getenv" .c,
    ofSignature "Dog#greet" (.object "Dog") [.required "name" .string] .nil,
    ofSignature "Animal#count" (.object "Animal") [.required "n" (.int 32 true)] .nil,
    ofSignature "Animal#greet" (.object "Animal") [.required "name" .string] .nil,
    .greeting]

theorem Program.walk_firstMatch_greeting :
    ∃ code func trace, (greeting.compile .default).result = .ok code ∧
      code.funcNamed? "main" = some func ∧
      code.walk func [.object "Cat", .string] = .ok trace ∧
      trace.calls.toList = ["getenv", "Animal#greet"] ∧
      trace.guards.toList = [(.object "Dog", false), (.string, true), (.object "Animal", true),
        (.int 32 true, false), (.object "Animal", true), (.string, true)] ∧
      trace.stop = .returned := by
  have operands : List.Forall₂ greeting.Operand
      (Call.greeting.obj.toList ++ Call.greeting.args) [[], ["getenv"]] := by
    have input : greeting.Operand
        (.ofCall (.ofTargets "input" ["input"]) (.union [.int 32 true, .string]))
        ([] ++ [(⟨"getenv", .c⟩ : ForeignSpec).symbol]) :=
      .foreign rfl rfl rfl rfl rfl (fun _ => rfl)
        (fun _ given => absurd given (Option.not_mem_none _)) rfl rfl
    exact .cons (.read rfl) (.cons input .nil)
  have suitable : ∀ candidate ∈ greeting.candidates .greeting, candidate.isSubstituted = false ∧
      ∀ value ∈ candidate.omitted 1, value.kind.isSideEffectFree = true := by decide +kernel
  obtain ⟨code, compiled, _⟩ : ∃ code, (greeting.compile .default).result = .ok code ∧ True :=
    exists_code (by decide +kernel) fun _ _ => trivial
  obtain ⟨func, trace, named, walked, calls, guards, stops⟩ := walk_firstMatch compiled
    (List.mem_of_getElem? (show greeting.defs[4]? = some .greeting from rfl)) rfl rfl rfl
    (by decide) (by decide) rfl operands (fun candidate present => (suitable candidate present).1)
    (fun candidate present => (suitable candidate present).2) [.object "Cat", .string]
  refine ⟨code, func, trace, compiled, named, walked, ?_, ?_, ?_⟩
  · rw [calls]
    decide +kernel
  · rw [guards]
    decide +kernel
  · rw [stops]
    decide +kernel

/-! ## Candidates that take no receiver -/

/-- A value that carries a tag is not of the type of the program. -/
theorem TypeTable.isSubtype_program {types : TypeTable} {concrete : Ty}
    (tagged : (types.tag? concrete).isSome = true) : types.isSubtype concrete .program = false := by
  cases concrete with
  | union | program | noReturn => cases tagged
  | _ => rfl

namespace Call

variable (types : TypeTable) (call : Call) (obj : Expr) (assumed : List Ty)

/-- Whether a candidate fits a call with an explicit receiver: the run-time type of the receiver is
one of the owner, also if the candidate takes no receiver, and those of the arguments are ones of the
parameters. The receiver is not looked at if the call goes to the parent or to the program. -/
def fits (candidate : Definition) : Bool :=
  (call.isSuper || !obj.ty.passedAsSelf || types.isSubtype (assumed.headD obj.ty) candidate.owner) &&
    (argTests types (ofArgs call.args
      (if obj.ty.passedAsSelf then assumed.tail else assumed)) candidate.params).all Prod.snd

variable {types call obj assumed}

theorem accepts_eq_fits {candidates : List Definition} (given : call.obj = some obj) :
    (call.observed self candidates assumed).accepts types = call.fits types obj assumed := by
  funext candidate
  rw [observed_eq, receiverTy?, given]
  unfold fits accepts tests
  dsimp only
  rw [Option.filter_some]
  cases call.isSuper <;> cases obj.ty.passedAsSelf <;>
    simp [test]

end Call

/-- A function whose body is a call of several candidates with an explicit receiver runs the first
candidate that fits, and cannot get on where none does. A candidate that belongs to the program is
not run if the receiver is looked at and carries a tag. -/
theorem Program.walk_explicitReceiver {program : Program} {options : Options} {code : Recording}
    (compiled : (program.compile options).result = .ok code) {defn : Definition}
    (member : defn ∈ program.defs) (needed : defn.needsFunction = true) {body obj : Expr} {call : Call}
    (bodied : defn.body = some body) (kind : body.kind = .call call) (given : call.obj = some obj)
    (several : 2 ≤ call.targets.length) (few : call.targets.length < 9000)
    (blockless : call.block = none) {calls : List (List String)}
    (operands : List.Forall₂ program.Operand (obj :: call.args) calls)
    (called : ∀ candidate ∈ program.candidates call, candidate.isSubstituted = false)
    (defaults : ∀ candidate ∈ program.candidates call,
      ∀ value ∈ candidate.omitted call.args.length, value.kind.isSideEffectFree = true)
    (assumed : List Ty) :
    ∃ func trace, code.funcNamed? defn.name = some func ∧ code.walk func assumed = .ok trace ∧
      let chosen := (program.candidates call).find? (call.fits program.types obj assumed)
      trace.calls.toList = calls.flatten ++ chosen.toList.map symbol ∧
      (chosen = none → trace.stop = .unreachable) ∧
      (call.isSuper = false → obj.ty.passedAsSelf = true →
        (program.types.tag? (assumed.headD obj.ty)).isSome = true →
        ∀ candidate ∈ chosen, candidate.owner ≠ .program) := by
  have suitable : ∀ candidate ∈ program.candidates call, Lower.Suitable program call candidate :=
    fun candidate present =>
      ⟨mem_of_candidates present, called candidate present, defaults candidate present⟩
  have operands : List.Forall₂ program.Operand (call.obj.toList ++ call.args) calls := by
    rw [given]
    exact operands
  obtain ⟨func, trace, named, walked, traced, _, stops⟩ := walk_dispatch compiled member needed
    bodied kind several few blockless operands suitable assumed rfl
  rw [decision_calls] at traced
  unfold ending at stops
  unfold chosen? at traced stops
  rw [Call.accepts_eq_fits given] at traced stops
  refine ⟨func, trace, named, walked, traced, fun none => ?_, ?_⟩
  · rw [stops, none]
  · intro ordinary looked tagged candidate chosen owned
    have fits := List.find?_some chosen
    rw [Call.fits, ordinary, looked, owned, TypeTable.isSubtype_program tagged] at fits
    cases fits

/-- A call with an explicit receiver of a method of animals and of a foreign function. -/
def Call.saying : Call :=
  (Call.ofTargets "say" ["speak", "puts"]).withReceiver
    (.ofVar "x" (.union [.object "Animal", .string]))

def Definition.saying : Definition :=
  (ofSignature "main" .program
    [.required "x" (.union [.object "Animal", .string])] .nil).withBody (.ofCall .saying .nil)

/-- A program whose `main` makes an animal or a text speak. -/
def Program.saying : Program where
  file := "saying"
  types := (TypeTable.empty.addClass "Animal" none []).addClass "Dog" (some "Animal") []
  defs := [
    ofSignature "speak" (.object "Animal") [] .nil,
    (ofSignature "puts" .program [] .nil).withSymbol "puts" .c,
    .saying]

theorem Program.walk_explicitReceiver_saying :
    ∃ code func trace, (saying.compile .default).result = .ok code ∧
      code.funcNamed? "main" = some func ∧ code.walk func [.object "Dog"] = .ok trace ∧
      trace.calls.toList = ["speak"] := by
  have operands : List.Forall₂ saying.Operand
      [.ofVar "x" (.union [.object "Animal", .string])] [[]] := .cons (.read rfl) .nil
  have suitable : ∀ candidate ∈ saying.candidates .saying, candidate.isSubstituted = false ∧
      ∀ value ∈ candidate.omitted 0, value.kind.isSideEffectFree = true := by decide +kernel
  obtain ⟨code, compiled, _⟩ : ∃ code, (saying.compile .default).result = .ok code ∧ True :=
    exists_code (by decide +kernel) fun _ _ => trivial
  obtain ⟨func, trace, named, walked, calls, _⟩ := walk_explicitReceiver compiled
    (List.mem_of_getElem? (show saying.defs[2]? = some .saying from rfl)) rfl rfl rfl rfl
    (by decide) (by decide) rfl operands (fun candidate present => (suitable candidate present).1)
    (fun candidate present => (suitable candidate present).2) [.object "Dog"]
  refine ⟨code, func, trace, compiled, named, walked, ?_⟩
  rw [calls]
  decide +kernel

/-- On a text, no candidate is run, although there is one that takes neither a receiver nor
arguments. -/
theorem Program.walk_stuck_saying :
    (∃ candidate ∈ saying.candidates .saying,
      candidate.takesReceiver = false ∧ candidate.params = []) ∧
    ∃ code func trace, (saying.compile .default).result = .ok code ∧
      code.funcNamed? "main" = some func ∧ code.walk func [.string] = .ok trace ∧
      trace.calls.toList = [] ∧ trace.stop = .unreachable := by
  refine ⟨⟨_, List.mem_of_getElem? (show (saying.candidates .saying)[1]? = some _ from rfl), rfl, rfl⟩,
    ?_⟩
  obtain ⟨code, compiled, stuck⟩ : ∃ code, (saying.compile .default).result = .ok code ∧
      ((code.funcNamed? "main").bind fun func => (code.walk func [.string]).toOption).map
        (fun trace => (trace.calls.toList, trace.stop)) = some ([], .unreachable) :=
    exists_code
  obtain ⟨trace, found, ends⟩ := Option.map_eq_some_iff.mp stuck
  obtain ⟨func, named, walked⟩ := Option.bind_eq_some_iff.mp found
  cases walk : code.walk func [.string] with
  | error =>
    rw [walk] at walked
    cases walked
  | ok trace' =>
    rw [walk] at walked
    cases walked
    exact ⟨code, func, trace, compiled, named, walk, congrArg Prod.fst ends, congrArg Prod.snd ends⟩

end CallLowering
