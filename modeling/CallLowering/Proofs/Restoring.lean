import CallLowering.Proofs.Traversal
import CallLowering.Proofs.Unneeded

/-!
# Lowering comes back

Lowering works under other contexts, moves the cursor between blocks and begins other functions for
the bodies of closures. Whether it succeeds or fails, at whatever depth, the context is the one it
started with and the cursor stands in a block of the function it started in
(`Lower.context_and_cursor_restored`).
-/

namespace CallLowering

open LowerState LowerState

namespace Lower

variable {V : Vocabulary}

theorem lowerExpr_fitting (expr : Expr) (tidy : expr.Tidy V.names) : Fitting V (lowerExpr expr) :=
  (lowerExprWithin_walks _).fitting expr tidy

theorem lowerCall_fitting (call : Call) (tidy : call.Tidy V.names) : Fitting V (lowerCall call) := by
  intro w γ u s0 s sound fits
  have goes : Goes V γ ∅ (fun _ => [.expr (.ofCall call .nil)])
      (fun inner => lowerCallWith inner call) fun _ => True := .lowerCallWith sound tidy
  rw [lowerCall_run]
  exact fits.run goes.moves (lowerExprWithin_walks _).fitting

end Lower

/-- Every context leads somewhere. -/
theorem Context.over_univ (context : Context) :
    context.Over Set.univ Set.univ Set.univ fun _ => True := by
  refine .intro trivial trivial (fun _ _ => trivial) (fun _ _ => trivial)
    (fun _ _ => ⟨trivial, trivial⟩) fun target found => ?_
  obtain ⟨_, caller, _⟩ := target
  exact caller.over_univ
termination_by sizeOf context
decreasing_by
  obtain ⟨⟩ := context
  subst found
  simp only [Context.mk.sizeOf_spec, Option.some.sizeOf_spec, Prod.mk.sizeOf_spec]
  omega

/-- What holds of a computation however it ends holds of the state that it ends in. -/
theorem Outcome.final {α : Type} {env : Env} {s : LowerState} {act : Lower α}
    {holds : LowerState → Prop}
    (outcome : Outcome (fun _ => holds) (fun _ => holds) (act env s)) :
    holds (Lower.final act env s) := by
  unfold Lower.final
  revert outcome
  cases act env s <;> exact id

section

variable {env : Env} {s : LowerState} {func : FuncId}

theorem LowerState.standing_any : (s.standing True Set.univ).Sound (.any env) :=
  standing_sound s.context.over_univ

theorem Recording.StandsIn.fits (stands : s.code.StandsIn func) :
    (s.standing True Set.univ).Fits (.any env) ⟨some func, 0, False⟩ ∅ s s where
  context := rfl
  size := rfl
  floor := Nat.zero_le _
  grown := Nat.le_refl _
  known i _ := Nat.zero_le i
  kept := .of_code (.refl _) rfl id
  settled := by
    rintro _ ⟨⟩
    refine ⟨trivial, stands, fun _ none => absurd none (Set.notMem_empty _),
      fun i _ above found => ?_⟩
    have absent : s.joins[i]? = none := Array.getElem?_eq_none above
    exact absurd (absent.symm.trans found) nofun
  housed := False.elim

end

namespace Lower

variable {env : Env} {α : Type}

/-- A computation that fits everywhere comes back. -/
theorem Fitting.final {act : Lower α} (fitting : Fitting (.any env) act) {func : FuncId}
    {s : LowerState} (stands : s.code.StandsIn func) :
    (final act env s).context = s.context ∧ (final act env s).code.StandsIn func := by
  have back : Outcome (fun _ s' => s'.context = s.context ∧ s'.code.StandsIn func)
      (fun _ s' => s'.context = s.context ∧ s'.code.StandsIn func) (act env s) :=
    (fitting standing_any stands.fits).mono
      (fun _ _ ended => ⟨ended.context, (ended.settled func rfl).stands⟩)
      fun _ _ failed => ⟨failed.context trivial, failed.stands func rfl⟩
  exact back.final

/-- Lowering an expression or a call comes back, whether it succeeds or fails: the context is the one
before, and the cursor stands in a block of the same function as before. -/
theorem context_and_cursor_restored {s : LowerState} {func : FuncId}
    (stands : s.code.StandsIn func) :
    (∀ expr, (final (lowerExpr expr) env s).context = s.context ∧
      (final (lowerExpr expr) env s).code.StandsIn func) ∧
    ∀ call, (final (lowerCall call) env s).context = s.context ∧
      (final (lowerCall call) env s).code.StandsIn func :=
  ⟨fun expr => Fitting.final (lowerExpr_fitting expr (.any expr)) stands,
    fun call => Fitting.final (lowerCall_fitting call (.any call)) stands⟩

end Lower

/-- A closure whose body reads a variable that is bound nowhere. -/
def Expr.reading : Expr :=
  .ofKind (.procLiteral ⟨[], .ofVar "unknown" (.int 64 true), none, []⟩) (.proc [] (.int 64 true))

/-- The body of the closure fails after its function was begun, with the cursor in a second block. -/
theorem Lower.context_and_cursor_restored_closure :
    fetching.code.StandsIn ⟨0⟩ ∧
      EStateM.run' (lowerExpr .reading ⟨.fetching, .default⟩) fetching = none ∧
      (final (lowerExpr .reading) ⟨.fetching, .default⟩ fetching).code.blocks.size = 2 ∧
      (final (lowerExpr .reading) ⟨.fetching, .default⟩ fetching).context =
        fetching.context ∧
      (final (lowerExpr .reading) ⟨.fetching, .default⟩ fetching).code.StandsIn ⟨0⟩ := by
  have stands : fetching.code.StandsIn ⟨0⟩ :=
    ⟨_, rfl, _, Recording.appendBlock_block?_new, rfl⟩
  exact ⟨stands, by decide +kernel, by decide +kernel, (context_and_cursor_restored stands).1 .reading⟩

end CallLowering
