import CallLowering.Proofs.Restoring

/-!
# Filling functions

Lowering a function fills it with the code that its body unfolds to, and compiling a program does so
for the definitions that get a function (`Program.compile_filled`).
-/

namespace CallLowering

/-- The functions of definitions get the code that their bodies unfold to. -/
structure Recording.Filled (program : Program) (code : Recording) (defns : List Definition)
    (code' : Recording) : Prop where
  later : code.Extends code'
  orderly : code'.Orderly program
  gained : ∃ funcs traces added,
    List.Forall₂ (fun defn func => code'.Names func defn.name) defns funcs ∧
    List.Forall₂ (fun defn marks => ∃ body, defn.body = some body ∧
      Unfolds program [] [] [.expr body] marks) defns traces ∧
    Gained program code funcs traces.flatten added code'

variable {defn : Definition} {func : FuncId}

theorem Recording.Filled.cons {program : Program} {code code1 code' : Recording}
    {defns : List Definition} (first : code.Filled program [defn] code1)
    (rest : code1.Filled program defns code') : code.Filled program (defn :: defns) code' := by
  obtain ⟨funcs, traces, added, named, unfolds, gained⟩ := first.gained
  obtain ⟨funcs', traces', added', named', unfolds', gained'⟩ := rest.gained
  refine ⟨first.later.trans rest.later, rest.orderly, funcs ++ funcs', traces ++ traces',
    added ++ added', ?_, List.rel_append unfolds unfolds', ?_⟩
  · exact List.rel_append (named.imp fun _ _ named => named.later rest.later) named'
  · rw [List.flatten_append]
    exact gained.trans gained' rest.later

/-- The body of a function is gone through from the start of the function. -/
theorem Lower.functionBody_leaves {env : Env} {s s' : LowerState} {body : Expr}
    {values : List ValueId} (stands : s.code.StandsIn func) (orderly : s.Orderly env.program)
    (nowhere : s.context.yieldTarget = none) (ran : functionBody defn body values env s = .ok () s') :
    s.Leaves env.program s.context.handlers [] [.expr body] s' := by
  have here : (s.standing True Set.univ).Fits (.any env) ⟨some func, 0, False⟩ ∅ s s := stands.fits
  have fits : Standing.Fits (.any env) ⟨some func, 0, False⟩
      { s.standing True Set.univ with fresh := Set.univ } ∅ s s :=
    { here with
      settled := fun f member => { here.settled f member with }
      housed := False.elim }
  have walks : Walks (.any env) lowerExpr :=
    ⟨fun expr => (lowerExprWithin_walks _).fitting expr, (lowerExprWithin_walks _).leaves⟩
  exact (Goes.functionBody (γ := { s.standing True Set.univ with fresh := Set.univ })
    LowerState.standing_any trivial (.any defn) (.any body)).leaves walks
    ⟨⟨_, _, rfl, fits⟩, nowhere ▸ .none, orderly⟩ ran

/-- Lowering a function leaves the marks that its body unfolds to. -/
theorem Lower.lowerFunction_filled {env : Env} {s s' : LowerState} (orderly : s.Orderly env.program)
    (links : env.program.Links defn.name) (ran : lowerFunction defn env s = .ok func s') :
    s.code.Filled env.program [defn] s'.code ∧ s'.Orderly env.program := by
  obtain ⟨body, params, entry, _, bodied, rfl, begun, lowered, rfl⟩ := lowerFunction_ok ran
  have begins := (Recording.frame_beginRoutine begun).later
  have started := (Recording.extends_declare _).trans begins
  have entered : (s.atFunction env defn (s.code.declare (prototype env.program.types defn)).1 params
      entry).Orderly env.program :=
    ⟨(orderly.code.declare (.inl links)).beginRoutine begun, fun join member exit here =>
      (orderly.exits join member exit here).later started⟩
  obtain ⟨marks, unfolds, onward⟩ :=
    functionBody_leaves (Recording.beginRoutine_standsIn begun) entered rfl lowered
  obtain ⟨added, gained⟩ := onward.code.gained
  refine ⟨⟨started.trans onward.code.later, onward.code.orderly,
    [(s.code.declare (prototype env.program.types defn)).1], [marks], added, .cons ?_ .nil,
    .cons ⟨body, bodied, unfolds⟩ .nil, ?_⟩, onward.code.orderly, onward.exits⟩
  · exact (orderly.code.indexed.names_declare _).later (begins.trans onward.code.later)
  · rw [List.flatten_singleton]
    exact (Recording.Gained.begun begun).trans gained onward.code.later

/-! ## Programs -/

namespace Program

variable {program : Program} {options : Options} {code : Recording} {env : Env} {s s' : LowerState}
  {defns : List Definition}

/-- A definition with a function of its own may be called by its name. -/
theorem links_function (member : defn ∈ program.defs) (needed : defn.needsFunction = true) :
    program.Links defn.name := by
  have domestic := Definition.domestic_of_needsFunction needed
  have same : defn.symbol = defn.name := by
    rw [Definition.symbol, domestic]
  rw [← same]
  refine .definition member (.inr ?_)
  unfold Definition.needsFunction at needed
  obtain ⟨_, inlined⟩ := (Bool.and_eq_true _ _).mp needed
  exact (Bool.not_eq_true' _).mp inlined

theorem lowerAll_filled (links : ∀ defn ∈ defns, env.program.Links defn.name)
    (orderly : s.Orderly env.program) (ran : lowerAll env defns s = (none, s')) :
    s.code.Filled env.program defns s'.code := by
  induction defns generalizing s with
  | nil =>
    cases ran
    obtain ⟨added, gained⟩ := (Recording.Onward.refl orderly.code).gained
    exact ⟨.refl _, orderly.code, [], [], added, .nil, .nil, gained⟩
  | cons defn defns ih =>
    obtain ⟨_, _, lowered, ran1⟩ := lowerAll_cons ran
    obtain ⟨first, orderly1⟩ :=
      Lower.lowerFunction_filled orderly (links defn List.mem_cons_self) lowered
    exact first.cons (ih (List.forall_mem_cons.mp links).2 orderly1 ran1)

theorem orderly_initial (env : Env) : (LowerState.initial env).Orderly env.program where
  code := by
    refine ⟨.empty _ _, nofun, Recording.indexed_empty _ _, ?_, nofun⟩
    rintro _ _ ⟨_, none, _⟩
    exact absurd none (Option.not_mem_none _)
  exits _ none := absurd none (Array.not_mem_empty _)

/-- Compiling a program lowers the functions of the definitions that need one, in order. -/
theorem compile_filled (compiled : (program.compile options).result = .ok code) :
    (Recording.empty options.target program.types).Filled program
      (program.defs.filter Definition.needsFunction) code := by
  obtain ⟨_, ran, rfl⟩ := compile_ok compiled
  exact lowerAll_filled (fun _ member => links_function (List.mem_of_mem_filter member)
    (List.of_mem_filter member)) (orderly_initial ⟨program, options⟩) ran

end Program

end CallLowering
