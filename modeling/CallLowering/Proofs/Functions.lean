import CallLowering.Proofs.Expressions

/-!
# Functions and programs

Between two functions nothing is left open (`LowerState.Idle`). Lowering a definition from there
adds the body of one function (`lowerFunction_gains`), built according to what is promised about the
program, and leaves nothing open either. What holds of the code of a compiled program is shown with
`Program.compile_induction`, function by function; a single function of it is found with
`Program.compile_function`.
-/

namespace CallLowering

open Recording Definition Lower

variable {motive : Recording → Prop} {values : List ValueId}

/-! ## Whole programs -/

/-- What is promised about a program has consequences for its lowering. -/
structure Rules.Granted (rules : Rules) (program : Program) : Prop where
  honest : rules.sealed → program.Honest
  returns : rules.sealed → program.SingleCandidate ∨ program.ProperReturns
  single : rules.traced → rules.sealed ∧ program.SingleCandidate
  hygienic : rules.strict → program.Hygienic
  layered : ¬rules.flat
  declares : ∀ decl, program.Declares decl → rules.declares decl

/-- Nothing but its prototypes is promised about a program. -/
theorem Rules.Granted.unpromised {program : Program} :
    Rules.Granted ⟨False, False, False, False, program.Declares⟩ program :=
  ⟨False.elim, False.elim, False.elim, False.elim, id, fun _ => id⟩

/-- A definition that does not return is called for what it does. -/
theorem Program.Honest.not_isSubstituted {program : Program} (honest : program.Honest)
    {defn : Definition} (member : defn ∈ program.defs) (never : defn.ret.isNoReturn = true) :
    defn.isSubstituted = false := by
  unfold isSubstituted
  obtain foreign | ⟨body, bodied, ty⟩ := honest.definitions defn member never
  · rw [foreign, Bool.not_true, Bool.false_and]
  · have leaves := honest.expressions body
      (body_parts_subset member bodied body.mem_parts_self) ty
    rw [Option.mem_def.mp bodied]
    obtain ⟨kind, _, _⟩ := body
    rw [Expr.leaves] at leaves
    cases kind with
    | call | seq | breakWith | nextWith =>
      simp [ExprKind.isLiteral, ExprKind.readsSelf]
    | _ => cases leaves

/-- The lowering of a whole program. -/
def Scenario.ofProgram (rules : Rules) (env : Env) (granted : rules.Granted env.program) :
    Scenario where
  toRules := rules
  env := env
  listed decl announced := granted.declares decl announced.declares
  sources := {expr | expr.parts ⊆ env.program.parts}
  child expr source inner member := fun part inside =>
    source (expr.kind_parts_subset (ExprKind.child_parts_subset member inside))
  default call defn candidate _ value omitted := by
    obtain ⟨_, name, _, found⟩ := candidate
    obtain ⟨param, member, defaulted⟩ := List.mem_filterMap.mp omitted
    refine default_parts_subset (Program.target?_mem found) (List.mem_of_mem_drop member) ?_
    unfold Param.defaultExpr? at defaulted
    split at defaulted
    · rename_i given
      rw [given, Option.some.inj defaulted]
    · cases defaulted
  body call defn candidate _ body bodied := by
    obtain ⟨_, name, _, found⟩ := candidate
    exact body_parts_subset (Program.target?_mem found) bodied
  leaves isSealed expr source := (granted.honest isSealed).expressions expr (source expr.mem_parts_self)
  noReturn isSealed call defn candidate never := by
    obtain ⟨⟨expr, source, kind⟩, name, target, found⟩ := candidate
    have honest := granted.honest isSealed
    refine ⟨honest.not_isSubstituted (Program.target?_mem found) never, ?_⟩
    cases block : call.block with
    | none => rfl
    | some given =>
      exact absurd never (honest.blocks expr (source expr.mem_parts_self) call kind
        (by rw [block]; rfl) name target defn found)
  proper isSealed call defn candidate several := by
    obtain ⟨⟨expr, source, kind⟩, name, target, found⟩ := candidate
    obtain single | proper := granted.returns isSealed
    · exact absurd (single expr (source expr.mem_parts_self) call kind) several
    · exact proper defn (Program.target?_mem found)
  single isTraced expr source := (granted.single isTraced).2 expr (source expr.mem_parts_self)
  hygienic strict expr source := granted.hygienic strict expr (source expr.mem_parts_self)
  simple flat := absurd flat granted.layered

/-! ## Between functions -/

/-- No function is being lowered, and what has been recorded is in good shape. -/
structure LowerState.Idle (s : LowerState) (env : Env) : Prop where
  proper : s.code.Proper
  ordered : s.scopes.Ordered
  memo : s.Remembers env
  target : s.code.target = env.options.target
  types : s.code.types = env.program.types
  joins : s.joins = #[]

theorem LowerState.Idle.initial (env : Env) : (LowerState.initial env).Idle env where
  proper := ⟨nofun, nofun, nofun, nofun, indexed_empty _ _⟩
  ordered := by
    have grown : Scopes.Grow (fun _ _ _ => False) Scopes.empty (Scopes.empty.add none).2 :=
      .add nofun
    exact grown.ordered nofun
  memo := ⟨rfl, List.forall_mem_nil _⟩
  target := rfl
  types := rfl
  joins := rfl

/-- What `self` is bound to in a function with the given parameters. -/
def Definition.self? (defn : Definition) (params : List ValueId) : Option Binding :=
  if defn.takesReceiver then params.head?.map fun value => .value value defn.owner else none

/-- The setting at the start of the function of a definition. -/
def Setting.function (env : Env) (defn : Definition) (func : FuncId) (params : List ValueId)
    (s : LowerState) : Setting :=
  .entry func defn.name env.program.file ⟨s.scopes.all.size⟩ defn.owner (defn.self? params)
    s.joins.size s.dispatches (env.program.types.returnType defn.ret)

/-- The state at the start of the function of a definition. -/
def LowerState.atFunction (s : LowerState) (env : Env) (defn : Definition) (func : FuncId)
    (params : List ValueId) (code : Recording) : LowerState :=
  { s with
    code := code
    scopes := (s.scopes.add none).2
    context := (Setting.function env defn func params s).context
    closures := 0
    events := s.events.push (.loweringFunction defn.name) }

namespace Lower

variable {env : Env} {defn : Definition} {func : FuncId} {s s' : LowerState}

theorem functionContext_run :
    functionContext defn values env s = .ok
      ({ Context.initial defn.name env.program.file ⟨s.scopes.all.size⟩ with
          selfTy := defn.owner, selfBinding := defn.self? values },
        if defn.takesReceiver then values.tail else values)
      { s with scopes := (s.scopes.add none).2 } := by
  unfold functionContext self?
  cases defn.takesReceiver <;> rfl

/-- A function that was lowered: it was declared, its body begun and lowered in a context of its
own. -/
theorem lowerFunction_ok (ran : lowerFunction defn env s = .ok func s') :
    ∃ body params code t, defn.body = some body ∧
      func = (s.code.declare (prototype env.program.types defn)).1 ∧
      Emit.beginRoutine func (s.code.declare (prototype env.program.types defn)).2 =
        .ok params code ∧
      functionBody defn body (if defn.takesReceiver then params.tail else params) env
        (s.atFunction env defn func params code) = .ok () t ∧
      s' = { t with context := s.context } := by
  unfold lowerFunction at ran
  obtain ⟨body, _, given, ran1⟩ := bind_ok ran
  obtain ⟨bodied, rfl⟩ := orFault_ok given
  obtain ⟨_, _, reported, ran2⟩ := bind_ok ran1
  cases reported
  obtain ⟨_, _, declared, ran3⟩ := bind_ok ran2
  cases declared
  obtain ⟨params, _, began, ran4⟩ := bind_ok ran3
  obtain ⟨code, recorded, rfl⟩ := record_ok began
  obtain ⟨_, _, context, ran5⟩ := bind_ok ran4
  rw [functionContext_run] at context
  cases context
  obtain ⟨_, _, reset, ran6⟩ := bind_ok ran5
  cases reset
  obtain ⟨_, _, lowered, ran7⟩ := bind_ok ran6
  cases ran7
  obtain ⟨t, body_ran, rfl⟩ := withContext_ok lowered
  exact ⟨body, params, code, t, bodied, rfl, recorded, body_ran, rfl⟩

end Lower

/-! ## One function -/

/-- The function of a definition is added to recorded code. -/
inductive Gains (Γ : Scenario) (defn : Definition) (func : FuncId) (code code' : Recording) :
    Prop where
  | intro {body : Expr} {decl : FnDecl} {params : List ValueId} {entry : Recording} {known : Known}
      (bodied : defn.body = some body) (prototype : decl = prototype Γ.env.program.types defn)
      (listed : Γ.declares decl) (declared : func = (code.declare decl).1)
      (begun : Emit.beginRoutine func (code.declare decl).2 = .ok params entry)
      (builds : Builds Γ.toRules ⟨func, [], 0, decl.ret⟩ (Γ.env.program.evaluate body * .halt) ∅
        ⟨entry, #[]⟩ known ⟨code', #[]⟩)
      (ended : code'.isTerminated = true)

namespace Lower

variable {Γ : Scenario} {σ : Setting} {known : Known} {defn : Definition} {func : FuncId}
  {s s' : LowerState}

/-- A function does what direct evaluation of its body does, and ends. -/
theorem functionBody_does {body : Expr} (entering : σ.entering = true) (source : body ∈ Γ.sources)
    (returns : σ.region.ret = Γ.env.program.types.returnType defn.ret)
    (avail : AllAvail Γ σ known s values) :
    Does Γ σ (Evaluation.within Γ.env.program (Γ.env.program.nestingBound body)
        σ.context.activation σ.frames body * .halt) known s (functionBody defn body values)
      fun _ s' _ => s'.code.isTerminated = true := by
  refine .silently (bindArguments_does entering avail) @fun known1 s1 _ _ _ => ?_
  have lowered := lowerExprWithin_handles Γ (Γ.env.program.nestingBound body) σ known1 s1 body
    (.inl source)
  exact .bind (.program_bind lowered) fun _ result => emitReturn_does result.1 returns

/-- Everything is ready at the start of a function. -/
theorem ready_atFunction {decl : FnDecl} {params : List ValueId} {code : Recording} (idle : s.Idle Γ.env)
    (begun : Emit.beginRoutine func (s.code.declare decl).2 = .ok params code) :
    Ready Γ (.function Γ.env defn func params s) ∅ (s.atFunction Γ.env defn func params code) := by
  let declared : LowerState :=
    { s with
      code := (s.code.declare decl).2
      closures := 0
      events := s.events.push (.loweringFunction defn.name) }
  have bound : ∀ binding ∈ defn.self? params, binding.ref ∈ params := by
    intro binding given
    unfold self? at given
    split at given
    · obtain ⟨_, first, rfl⟩ := Option.map_eq_some_iff.mp given
      exact List.mem_of_head? first
    · cases given
  have valid : Site.Valid ⟨func, [], s.joins.size, Γ.env.program.types.returnType defn.ret⟩
      ⟨code, s.joins⟩ := by
    rw [idle.joins]
    exact .entry idle.proper begun
  exact @Ready.entry Γ declared func params code defn.name Γ.env.program.file defn.owner
    (defn.self? params) s.dispatches _ valid idle.ordered idle.memo
    ((extends_declare decl).target.trans idle.target)
    ((extends_declare decl).types.trans idle.types) (Nat.le_refl _) begun bound

/-- Lowering a definition adds its function, and leaves nothing open. -/
theorem lowerFunction_gains (source : ∀ body ∈ defn.body, body ∈ Γ.sources)
    (listed : Γ.declares (prototype Γ.env.program.types defn)) (idle : s.Idle Γ.env)
    (ran : lowerFunction defn Γ.env s = .ok func s') :
    s'.Idle Γ.env ∧ Gains Γ defn func s.code s'.code := by
  obtain ⟨body, params, code, t, bodied, declared, begun, body_ran, rfl⟩ := lowerFunction_ok ran
  have ready : Ready Γ (.function Γ.env defn func params s) ∅
      (s.atFunction Γ.env defn func params code) := ready_atFunction idle begun
  have avail : AllAvail Γ (.function Γ.env defn func params s) ∅
      (s.atFunction Γ.env defn func params code)
      (if defn.takesReceiver then params.tail else params) := by
    intro v member _
    refine .inr (Ambient.of_params begun v ?_)
    split at member
    · exact List.mem_of_mem_tail member
    · exact member
  obtain ⟨known, lowers, _, ended⟩ :=
    functionBody_does rfl (source body bodied) rfl avail ready () t body_ran
  have builds : Builds Γ.toRules ⟨func, [], s.joins.size, Γ.env.program.types.returnType defn.ret⟩
      (Evaluation.within Γ.env.program (Γ.env.program.nestingBound body) .outermost s.joins.size
        body * .halt) ∅ ⟨code, s.joins⟩ known ⟨t.code, t.joins⟩ := lowers.builds
  have closed : t.joins = #[] :=
    (builds.advance (Nat.le_refl _)).joins.eq_of_base.trans idle.joins
  rw [idle.joins, closed] at builds
  have later := lowers.later ready.valid
  exact ⟨⟨(lowers.builds.valid ready.valid).proper, lowers.scopes.ordered ready.ordered,
    lowers.memo idle.memo, later.target.trans ready.target, later.types.trans ready.types, closed⟩,
    .intro bodied rfl listed declared begun builds ended⟩

end Lower

/-! ## All functions -/

namespace Gains

variable {Γ : Scenario} {defn : Definition} {func : FuncId} {code code' : Recording}
  (gains : Gains Γ defn func code code')

include gains

theorem later : code.Extends code' := by
  obtain ⟨_, _, _, _, begun, builds, _⟩ := gains
  exact (extends_declare _).trans ((frame_beginRoutine begun).later.trans
    (builds.advance (Nat.le_refl _)).code.later)

theorem funcNamed? (indexed : code.Indexed) : code'.funcNamed? defn.name = some func := by
  obtain ⟨_, rfl, _, rfl, begun, builds, _⟩ := gains
  exact ((frame_beginRoutine begun).later.trans
    (builds.advance (Nat.le_refl _)).code.later).funcNamed? indexed.declare (funcNamed?_declare _)

end Gains

namespace Program

variable {env : Env} {defn : Definition} {defns before rest : List Definition} {s s' : LowerState}

theorem lowerAll_cons (ran : lowerAll env (defn :: defns) s = (none, s')) :
    ∃ func s1, lowerFunction defn env s = .ok func s1 ∧
      lowerAll env defns s1 = (none, s') := by
  unfold lowerAll at ran
  split at ran
  · rename_i func s1 lowered
    exact ⟨func, s1, lowered, ran⟩
  · cases ran

theorem lowerAll_append (ran : lowerAll env (before ++ rest) s = (none, s')) :
    ∃ s1, lowerAll env before s = (none, s1) ∧ lowerAll env rest s1 = (none, s') := by
  induction before generalizing s with
  | nil => exact ⟨s, rfl, ran⟩
  | cons defn before ih =>
    obtain ⟨_, _, lowered, ran1⟩ := lowerAll_cons ran
    obtain ⟨s2, ran2, ran3⟩ := ih ran1
    refine ⟨s2, ?_, ran3⟩
    rw [lowerAll, lowered]
    exact ran2

/-- What every function leaves as it is holds in the end. -/
theorem lowerAll_induction (Γ : Scenario)
    (sources : ∀ defn ∈ defns, ∀ body ∈ defn.body, body ∈ Γ.sources)
    (listed : ∀ defn ∈ defns, Γ.declares (prototype Γ.env.program.types defn))
    (step : ∀ defn func code code', code.Proper → Gains Γ defn func code code' → motive code →
      motive code') (idle : s.Idle Γ.env) (start : motive s.code)
    (ran : lowerAll Γ.env defns s = (none, s')) : s'.Idle Γ.env ∧ motive s'.code := by
  induction defns generalizing s with
  | nil =>
    cases ran
    exact ⟨idle, start⟩
  | cons defn defns ih =>
    obtain ⟨func, _, lowered, ran1⟩ := lowerAll_cons ran
    obtain ⟨idle1, gains⟩ :=
      lowerFunction_gains (sources defn List.mem_cons_self) (listed defn List.mem_cons_self)
        idle lowered
    exact ih (List.forall_mem_cons.mp sources).2
      (List.forall_mem_cons.mp listed).2 idle1
      (step defn func _ _ idle.proper gains start) ran1

end Program

/-- The lowering of a program about which nothing is promised. -/
def Scenario.unpromised (env : Env) : Scenario :=
  .ofProgram _ env .unpromised

theorem Definition.domestic_of_needsFunction {defn : Definition}
    (needed : defn.needsFunction = true) : defn.foreign = none := by
  unfold needsFunction isForeign at needed
  cases foreign : defn.foreign with
  | none => rfl
  | some spec =>
    rw [foreign] at needed
    cases needed

/-- A program declares its functions with their prototypes. -/
theorem Program.declares_function {program : Program} {defn : Definition}
    (member : defn ∈ program.defs) (needed : defn.needsFunction = true) :
    program.Declares (prototype program.types defn) :=
  .definition member (domestic_of_needsFunction needed)

namespace Program

variable {program : Program} {options : Options} {code : Recording}

theorem compile_ok (compiled : (program.compile options).result = .ok code) :
    ∃ s, lowerAll ⟨program, options⟩ (program.defs.filter needsFunction)
      (LowerState.initial ⟨program, options⟩) = (none, s) ∧ code = s.code := by
  unfold compile at compiled
  dsimp only at compiled
  split at compiled
  · cases compiled
  · rename_i s ran
    cases compiled
    exact ⟨s, ran, rfl⟩

/-- What holds of no code and is kept by every function holds of a compiled program. -/
theorem compile_induction {rules : Rules} (granted : rules.Granted program)
    (start : motive (.empty options.target program.types))
    (step : ∀ defn func code code', code.Proper →
      Gains (.ofProgram rules ⟨program, options⟩ granted) defn func code code' → motive code →
      motive code') (compiled : (program.compile options).result = .ok code) :
    code.Proper ∧ motive code := by
  obtain ⟨_, ran, rfl⟩ := compile_ok compiled
  obtain ⟨idle, holds⟩ := lowerAll_induction (.ofProgram rules ⟨program, options⟩ granted)
    (fun defn member _ bodied =>
      body_parts_subset (List.mem_of_mem_filter member) bodied)
    (fun _ member => granted.declares _
      (declares_function (List.mem_of_mem_filter member) (List.of_mem_filter member)))
    step (.initial ⟨program, options⟩) start ran
  exact ⟨idle.proper, holds⟩

/-- The function of a definition was lowered when nothing else was open, and has not changed
since. -/
theorem compile_function {defn : Definition}
    (compiled : (program.compile options).result = .ok code) (member : defn ∈ program.defs)
    (needed : defn.needsFunction = true) :
    ∃ s func s', s.Idle ⟨program, options⟩ ∧ lowerFunction defn ⟨program, options⟩ s = .ok func s' ∧
      s'.code.Extends code := by
  obtain ⟨_, ran, rfl⟩ := compile_ok compiled
  obtain ⟨before, after, split⟩ :=
    List.append_of_mem (List.mem_filter.mpr ⟨member, needed⟩)
  rw [split] at ran
  obtain ⟨s, ran1, ran2⟩ := lowerAll_append ran
  obtain ⟨func, s', lowered, ran3⟩ := lowerAll_cons ran2
  let Γ := Scenario.unpromised ⟨program, options⟩
  have sources : ∀ other ∈ before ++ defn :: after, ∀ body ∈ other.body, body ∈ Γ.sources := by
    rw [← split]
    exact fun other member _ bodied =>
      body_parts_subset (List.mem_of_mem_filter member) bodied
  have listed : ∀ other ∈ before ++ defn :: after,
      program.Declares (prototype program.types other) := by
    rw [← split]
    exact fun other member =>
      declares_function (List.mem_of_mem_filter member) (List.of_mem_filter member)
  obtain ⟨idle, _⟩ := lowerAll_induction Γ (motive := fun _ => True)
    (List.forall_mem_append.mp sources).1
    (List.forall_mem_append.mp listed).1
    (fun _ _ _ _ _ _ _ => trivial) (.initial _) trivial ran1
  obtain ⟨idle', _⟩ := lowerFunction_gains
    (sources defn (List.mem_append_right _ List.mem_cons_self))
    (listed defn (List.mem_append_right _ List.mem_cons_self)) idle lowered
  obtain ⟨_, later⟩ := lowerAll_induction Γ (motive := fun code => s'.code.Extends code)
    (fun other member => sources other (List.mem_append_right _ (List.mem_cons_of_mem _ member)))
    (fun other member => listed other (List.mem_append_right _ (List.mem_cons_of_mem _ member)))
    (fun _ _ _ _ _ gains later => later.trans gains.later) idle' (.refl _) ran3
  exact ⟨s, func, s', idle, lowered, later⟩

end Program

/-- A compilation that succeeds has recorded code, and what holds of the code it may have recorded
holds of it. -/
theorem Program.exists_code {program : Program} {options : Options} {holds : Recording → Prop}
    (accepted : (program.compile options).result.isOk = true := by decide +kernel)
    (always : ∀ code ∈ (program.compile options).result.toOption, holds code := by decide +kernel) :
    ∃ code, (program.compile options).result = .ok code ∧ holds code := by
  cases compiled : (program.compile options).result with
  | error =>
    rw [compiled] at accepted
    cases accepted
  | ok code => exact ⟨code, rfl, always code (by rw [compiled]; rfl)⟩

end CallLowering
