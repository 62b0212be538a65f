import CallLowering.Proofs.Consistency

/-!
# Bindings are never replaced

A binding that is found in a scope is still found there after anything was lowered: a name is bound in
a new scope, or where it was not bound, or it is the hidden name of a dispatch that has just been
numbered. In the states that the lowering of a program gets into (`LowerState.Visited`), the names of
later dispatches are not bound as long as the program itself does not use such names; hence
`LowerState.Visited.bindings_persist`.
-/

namespace CallLowering

open LowerState Lower LowerState

variable {V : Vocabulary} {name : String}

/-! ## Where expressions are lowered -/

namespace Lower

variable {α : Type} {env : Env} {s : LowerState}

theorem around_congr {enter leave : Context → Context} {act act' : Lower α}
    (same : act' env { s with context := enter s.context } =
      act env { s with context := enter s.context }) :
    around enter leave act' env s = around enter leave act env s := by
  unfold around
  rw [same]

theorem returningTo_congr {resume : Option BlockId} {act act' : Lower α}
    (same : act' env s = act env s) : returningTo resume act' env s = returningTo resume act env s := by
  unfold returningTo
  rw [same]

theorem inFunction_congr {func : FuncId} {body body' : List ValueId → Lower α}
    (same : ∀ values code, Emit.beginRoutine func s.code = .ok values code →
      body' values env (s.entering env name code) = body values env (s.entering env name code)) :
    inFunction func name body' env s = inFunction func name body env s := by
  have here : cursor env s = .ok s.code.cursor s := rfl
  unfold inFunction
  rw [bind_of_ok here, bind_of_ok here]
  have outcome : Outcome _ _ (beginRoutine func env s) := beginRoutine_outcome func
  cases ran : beginRoutine func env s with
  | error error s' => rw [bind_of_error ran, bind_of_error ran]
  | ok values s' =>
    rw [ran] at outcome
    obtain ⟨code, rfl, begun⟩ := outcome
    have entered : freshContext name env { s with code := code } =
        .ok (.initial name env.program.file (s.scopes.add none).1)
          { s with code := code, scopes := (s.scopes.add none).2 } := rfl
    rw [bind_of_ok ran, bind_of_ok ran, bind_of_ok entered, bind_of_ok entered]
    refine returningTo_congr ?_
    rw [withContext_run, withContext_run]
    exact around_congr (same values code begun)

end Lower

/-- A computation that keeps to the rules lowers expressions in states in which the context refers to
scopes that are there: what is done elsewhere makes no difference. -/
theorem Moves.agrees {α : Type} {γ : Standing} {u : Unbound} {act : Lowering α}
    {post : α → Standing → Unbound → Prop} (moves : Moves V γ u act post)
    {inner inner' : Expr → Lower ValueId}
    (fitting : ∀ expr : Expr, expr.Tidy V.names → Fitting V (inner expr))
    (same : ∀ expr : Expr, expr.Tidy V.names → ∀ t : LowerState, t.Placed V.names →
      inner' expr V.env t = inner expr V.env t) {w : Watch} {s0 s : LowerState}
    (fits : γ.Fits V w u s0 s) (placed : w.placed) : act inner' V.env s = act inner V.env s := by
  induction moves generalizing w s0 s with
  | @bind α β γ u mid post act next first _ ihFirst ihRest =>
    have outcome := first.fits fitting fits
    have start := ihFirst fits placed
    change (act inner' >>= fun a => next a inner') V.env s =
      (act inner >>= fun a => next a inner) V.env s
    cases ran : act inner V.env s with
    | ok a s1 =>
      rw [ran] at outcome start
      obtain ⟨γ1, u1, known, fits1, _⟩ := outcome
      rw [bind_of_ok start, bind_of_ok ran]
      exact ihRest a γ1 u1 known fits1 placed
    | error error s1 => rw [bind_of_error (start.trans ran), bind_of_error ran]
  | weaken less fewer _ _ ih => exact ih (fits.less less fewer) placed
  | inner sound tidy => exact same _ tidy s (fits.placed sound placed)
  | @around _ _ _ _ _ enter _ _ _ _ ih =>
    exact around_congr (ih (fits.under _ (congrArg enter fits.context)) placed)
  | inFunction _ ih =>
    exact inFunction_congr fun values _ begun => ih values _ (fits.entry begun) placed
  | _ => rfl

/-- A computation that keeps to the rules lowers expressions in states like the one it starts in. -/
theorem Lower.Consults.placed {α : Type} {act : Lowering α} {holds : α → Prop} {depth : Nat}
    {s t : LowerState} (stays : Stays V s.housing ∅ act holds) (placed : s.Placed V.names)
    (consults : Consults act (lowerExprWithin depth) V.env s t) : t.Placed V.names := by
  obtain ⟨_, elsewhere, differs⟩ := consults
  by_contra misplaced
  refine differs (Moves.agrees stays (lowerExprWithin_walks depth).fitting ?_ placed.fits trivial)
  exact fun expr _ u placed => elsewhere expr u fun same => misplaced (same ▸ placed)

/-! ## Programs with plain names -/

/-- The name does not start like the names of hidden variables. -/
def IsPlain (name : String) : Prop := name.toList.head? ≠ some '%'

instance (name : String) : Decidable (IsPlain name) := inferInstanceAs (Decidable (_ ≠ _))

theorem IsPlain.not_fresh (plain : IsPlain name) (seen : Nat) : ¬Fresh seen name :=
  fun fresh => plain fresh.isHidden.head

/-- A program without names of hidden variables. -/
def Vocabulary.plain (env : Env) (plain : ∀ name ∈ env.program.variables, IsPlain name) :
    Vocabulary where
  env := env
  names := IsPlain
  tidy _ member := Definition.tidy_of_variables fun name mentioned =>
    plain name (List.mem_flatMap.mpr ⟨_, member, mentioned⟩)

/-- The states that lowering gets into with steps that use plain names, whether they succeed or fail,
and the states in which it lowers the expressions inside. -/
inductive LowerState.Visited (env : Env) : LowerState → Prop where
  | start (code : Recording) (answers : List (Except String Classification)) :
      Visited env { initial env with code := code, scripted := answers }
  | after {s : LowerState} (step : Step) (plain : ∀ name ∈ step.variables, IsPlain name)
      (visited : Visited env s) : Visited env (final step.run env s)
  | inside {s t : LowerState} (step : Step) (plain : ∀ name ∈ step.variables, IsPlain name)
      (depth : Nat) (visited : Visited env s)
      (consults : Consults step.runWith (lowerExprWithin depth) env s t) : Visited env t

namespace LowerState.Visited

variable {env : Env} {s : LowerState}

/-- In a state that lowering gets into, the context refers to scopes that are there, and variables have
plain names or those of earlier dispatches. -/
theorem placed (plain : ∀ name ∈ env.program.variables, IsPlain name) (visited : s.Visited env) :
    s.Placed IsPlain := by
  induction visited with
  | start code answers => exact placed_initial env IsPlain code answers
  | @after s step named _ ih =>
    have placed : s.Placed (Vocabulary.plain env plain).names := ih
    exact Step.placed_final named placed
  | @inside s t step named depth _ consults ih =>
    have placed : s.Placed (Vocabulary.plain env plain).names := ih
    exact consults.placed (Step.keeps named placed.sound not_false rfl) placed

/-- Bindings are never replaced. In every state that the lowering of a program gets into, a name that
is bound in the current scope or around it is bound there in the same way after any expression was
lowered, whether that succeeded or failed. -/
theorem bindings_persist (plain : ∀ name ∈ env.program.variables, IsPlain name)
    (visited : s.Visited env) (expr : Expr) {name : String} {binding : Binding}
    (bound : s.scopes.lookup? s.context.scope name = some binding) :
    (final (lowerExpr expr) env s).scopes.lookup? s.context.scope name = some binding := by
  have placed := visited.placed plain
  have known : ¬Fresh s.dispatches name := by
    obtain ⟨y, here⟩ := Scopes.lookup?_lookupLocal? bound
    obtain plain | numbered := placed.named y name binding here
    · exact plain.not_fresh _
    · exact numbered.not_fresh
  -- The expression itself may use any names.
  have anyhow : s.Placed (Vocabulary.any env).names := {
    ordered := placed.ordered
    named := fun _ _ _ _ => .inl trivial
    context := placed.context.mono subset_rfl subset_rfl subset_rfl fun block _ => .any block }
  have outcome := Placed.tends
    (lowerExpr_fitting expr (.any expr) anyhow.sound anyhow.fits)
  have tends := Outcome.final (outcome.mono (fun _ _ ended => ended.1) fun _ _ failed => failed.2)
  exact tends.persists.found _ name binding placed.context.scope known bound

end LowerState.Visited

/-- A program with a definition that assigns to a variable of its own and yields it. -/
def Program.shadowing : Program where
  file := "shadowing"
  types := .empty
  defs := [(Definition.ofSignature "each" .program [] .nil).withBody (.ofKind (.seq [
    .ofKind (.assign "x" (.ofKind (.int 2) (.int 64 true))) (.int 64 true),
    .ofKind (.yield [.ofVar "x" (.int 64 true)] none) .nil]) .nil)]

/-- The state in which a function was begun and has assigned to a variable. -/
def LowerState.shadowed : LowerState :=
  final (Step.run (.expr (.ofKind (.assign "x" (.ofKind (.int 1) (.int 64 true)))
    (.int 64 true)))) ⟨.shadowing, .default⟩
    { initial ⟨.shadowing, .default⟩ with
      code := ((Recording.empty .x86_64 .empty).declare ⟨"main", [], .void, none, false⟩).2.begun ⟨0⟩ 0
      scripted := [] }

/-- A call with a block whose parameter has the same name once more. -/
def Expr.shadowing : Expr :=
  .ofCall ((Call.ofTargets "each" ["each"]).withBlock
    ⟨[⟨"x", .int 64 true⟩], .ofVar "x" (.int 64 true), none, []⟩) .nil

/-- The variable of the callee and the parameter of the block are bound in scopes of their own. -/
theorem LowerState.Visited.bindings_persist_shadowing :
    (∀ name ∈ Program.shadowing.variables, IsPlain name) ∧
      shadowed.Visited ⟨.shadowing, .default⟩ ∧
      shadowed.scopes.lookup? shadowed.context.scope "x" =
        some (.slot ⟨1⟩ (.int 64 true)) ∧
      [⟨1⟩, ⟨2⟩].map (fun scope => ((final (lowerExpr .shadowing) ⟨.shadowing, .default⟩
        shadowed).scopes.lookupLocal? scope "x").isSome) = [true, true] ∧
      (final (lowerExpr .shadowing) ⟨.shadowing, .default⟩
        shadowed).scopes.lookup? shadowed.context.scope "x" =
          some (.slot ⟨1⟩ (.int 64 true)) := by
  have plain : ∀ name ∈ Program.shadowing.variables, IsPlain name := by decide +kernel
  have visited : shadowed.Visited ⟨.shadowing, .default⟩ :=
    .after _ (by decide +kernel) (.start _ [])
  have bound : shadowed.scopes.lookup? shadowed.context.scope "x" =
      some (.slot ⟨1⟩ (.int 64 true)) := by decide +kernel
  exact ⟨plain, visited, bound, by decide +kernel, visited.bindings_persist plain .shadowing bound⟩

end CallLowering
