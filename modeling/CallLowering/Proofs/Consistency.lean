import CallLowering.Proofs.Restoring

/-!
# Lowering does not lose track

Some errors report that lowering has lost track of its own bookkeeping: of the join points, of the
storage for a result, of the order of arguments (`LowerError.isInconsistency`). No program and no
classification leads to them.

A join point is named by its place in the stack, by contexts that outlive the expression it was opened
for and in states that earlier failures have left behind. The invariant is that every join point the
context leads to, through the callers of inlined bodies too, is in the stack (`LowerState.Placed`).
`Step.run_tends` shows that a step keeps to it; `Step.consistent` is the result for a sequence of steps
of which some may have failed.
-/

namespace CallLowering

open LowerState Lower Scopes

variable {α : Type} {env : Env} {s : LowerState} {act : Lower α}

/-- A request to lower something at the cursor or into a function of its own. -/
inductive Step where
  | expr (expr : Expr)
  | call (call : Call)
  | function (defn : Definition)

/-- What a step does. -/
def Step.run : Step → Lower Unit
  | .expr root => discard (lowerExpr root)
  | .call site => discard (lowerCall site)
  | .function defn => discard (lowerFunction defn)

/-- The state after some steps. A step goes on from the state that the step before has left behind,
whether that succeeded or failed. -/
def LowerState.after (s : LowerState) (env : Env) (steps : List Step) : LowerState :=
  steps.foldl (fun s step => final step.run env s) s

/-- What a step does, given how to lower the expressions inside. -/
def Step.runWith : Step → Lowering Unit
  | .expr root, inner => discard (lowerExprWith inner root)
  | .call site, inner => discard (lowerCallWith inner site)
  | .function defn, inner => discard (lowerFunctionWith inner defn)

/-- The variables that a step names. -/
def Step.variables : Step → List String
  | .expr root => root.variables
  | .call site => (Expr.ofCall site .nil).variables
  | .function defn => defn.variables

section Variables

variable {names : String → Prop}

theorem ExprKind.binds_subset (kind : ExprKind) : kind.binds ⊆ kind.mentions := by
  cases kind with
  | var => exact List.nil_subset _
  | _ => exact List.Subset.refl _

theorem Expr.tidy_of_variables {expr : Expr} (named : ∀ name ∈ expr.variables, names name) :
    expr.Tidy names := fun part inside name bound =>
  named name (List.mem_flatMap.mpr ⟨part, inside, part.kind.binds_subset bound⟩)

theorem Definition.tidy_of_variables {defn : Definition}
    (named : ∀ name ∈ defn.variables, names name) : defn.Tidy names := by
  have parts : ∀ expr : Expr, expr.parts ⊆ defn.parts → expr.Tidy names := fun _ inside =>
    Expr.tidy_of_variables fun name mentioned => by
      obtain ⟨part, member, mentions⟩ := List.mem_flatMap.mp mentioned
      exact named name (List.mem_append_right _ (List.mem_flatMap.mpr ⟨part, inside member, mentions⟩))
  refine ⟨fun param member => ?_, fun _ member => ?_, fun body found => parts body ?_,
    fun param member value found => parts value ?_⟩
  · exact named _ (List.mem_append_left _ (List.mem_append_left _ (List.mem_map_of_mem member)))
  · exact named _ (List.mem_append_left _ (List.mem_append_right _ (List.mem_map_of_mem member)))
  · intro part inside
    refine List.mem_append_left _ ?_
    rw [found]
    exact inside
  · intro part inside
    refine List.mem_append_right _ (List.mem_flatMap.mpr ⟨param, member, ?_⟩)
    rw [found]
    exact inside

end Variables

theorem Outcome.discard {done : LowerState → Prop} {failed : LowerError → LowerState → Prop}
    (outcome : Outcome (fun _ => done) failed (act env s)) :
    Outcome (fun _ => done) failed ((discard act : Lower Unit) env s) := by
  have same : Functor.discard act = act >>= fun _ => pure () :=
    (bind_pure_comp (fun _ => ()) act).symm
  rw [same]
  exact outcome.bind (fun _ _ ended => ended) fun _ _ => id

/-- Where a computation stands that starts in a state and may work in all scopes. -/
def LowerState.housing (s : LowerState) : Standing :=
  { s.standing False { i | i < s.joins.size } with
    scopes := { x | x.index < s.scopes.all.size }
    roots := { x | x.index < s.scopes.all.size ∧ s.scopes.parent? x = none } }

namespace LowerState.Placed

variable {V : Vocabulary} {s : LowerState}

theorem sound (placed : s.Placed V.names) : s.housing.Sound V :=
  placed.context.mono subset_rfl subset_rfl Set.subset_union_left fun _ => id

theorem fits (placed : s.Placed V.names) : s.housing.Fits V ⟨none, 0, True⟩ ∅ s s where
  context := rfl
  size := rfl
  floor := Nat.zero_le _
  grown := Nat.le_refl _
  known i _ := Nat.zero_le i
  kept := .of_code (.refl _) rfl id
  settled _ none := absurd none nofun
  housed _ := {
    opened := fun _ => id
    persists := .refl s
    well := placed.toWellScoped
    scopes := fun _ => id
    roots := fun _ => id
    fresh := fun _ none => absurd none (Set.notMem_empty _)
    numbers := fun _ none => absurd none (Set.notMem_empty _)
    unbound := fun _ none => absurd none (Set.notMem_empty _) }

/-- What a computation that fits does to the state it starts in. -/
theorem tends {act : Lower α}
    (outcome : Outcome (fun _ => s.housing.Fits V ⟨none, 0, True⟩ ∅ s)
      (s.housing.Aborts V ⟨none, 0, True⟩ s) (act V.env s)) :
    Outcome (fun _ s' => s.Tends V.names s' ∧ s'.joins.size = s.joins.size)
      (fun error s' => error.isInconsistency = false ∧ s.Tends V.names s') (act V.env s) := by
  refine outcome.mono (fun _ s' ended => ?_) fun _ _ failed => ?_
  · have housed := ended.housed trivial
    exact ⟨⟨ended.context, ended.size.ge, housed.persists, housed.well⟩, ended.size⟩
  · obtain ⟨harmless, size, persists, well⟩ := failed.housed trivial
    exact ⟨harmless, failed.context trivial, size, persists, well⟩

end LowerState.Placed

namespace Step

variable {V : Vocabulary} {step : Step} (tidy : ∀ name ∈ step.variables, V.names name)

include tidy

/-- A step keeps to the rules. -/
theorem keeps {γ : Standing} (sound : γ.Sound V) (free : ¬γ.anchored) (empty : γ.blocks = ∅) :
    Stays V γ ∅ step.runWith fun _ => True := by
  cases step with
  | expr root => exact .discard (Goes.lowerExprWith sound (Expr.tidy_of_variables tidy)).moves
  | call site =>
    have goes : Goes V γ ∅ (fun _ => [.expr (.ofCall site .nil)])
        (fun inner => lowerCallWith inner site) fun _ => True :=
      .lowerCallWith sound (Expr.tidy_of_variables tidy).call
    exact .discard goes.moves
  | function defn =>
    exact .discard (.lowerFunctionWith (Definition.tidy_of_variables tidy) free empty)

theorem run_tends (placed : s.Placed V.names) :
    Outcome (fun _ s' => s.Tends V.names s' ∧ s'.joins.size = s.joins.size)
      (fun error s' => error.isInconsistency = false ∧ s.Tends V.names s') (step.run V.env s) := by
  refine Placed.tends ?_
  cases step with
  | expr root =>
    have tidy := Expr.tidy_of_variables tidy
    exact (lowerExpr_fitting root tidy placed.sound placed.fits).discard
  | call site =>
    have tidy := (Expr.tidy_of_variables tidy).call
    exact (lowerCall_fitting site tidy placed.sound placed.fits).discard
  | function defn =>
    have tidy := Definition.tidy_of_variables tidy
    exact (placed.fits.run (.lowerFunctionWith tidy not_false rfl) lowerExpr_fitting).discard

theorem placed_final (placed : s.Placed V.names) : (final step.run V.env s).Placed V.names :=
  placed.later (Outcome.final ((run_tends tidy placed).mono (fun _ _ ended => ended.1)
    fun _ _ failed => failed.2))

end Step

theorem LowerState.placed_initial (env : Env) (names : String → Prop) (code : Recording)
    (answers : List (Except String Classification)) :
    Placed names { initial env with code := code, scripted := answers } where
  ordered x data parent present inside := by
    change (empty.add none).2.get? x = some data at present
    rw [get?, add, Array.getElem?_push] at present
    split at present
    · cases present
      cases inside
    · cases present
  named x name binding bound := by
    change (empty.add none).2.lookupLocal? x name = some binding at bound
    rw [lookupLocal?, get?, add, Array.getElem?_push] at bound
    split at bound <;> cases bound
  context := .intro Nat.one_pos ⟨Nat.one_pos, rfl⟩ (fun _ none => absurd none nofun)
    (fun _ none => absurd none nofun) (fun _ none => absurd none nofun)
    fun _ none => absurd none nofun

theorem LowerState.Placed.after (placed : s.Placed (Vocabulary.any env).names) (steps : List Step) :
    (s.after env steps).Placed (Vocabulary.any env).names := by
  induction steps generalizing s with
  | nil => exact placed
  | cons step steps ih => exact ih (Step.placed_final (fun _ _ => trivial) placed)

/-- No step ever loses track, whatever has been recorded before, whatever answers stand in for
classifications and whichever of the earlier steps have failed. A step that succeeds leaves as many
join points open as there were. -/
theorem Step.consistent (env : Env) (code : Recording)
    (answers : List (Except String Classification)) (earlier : List Step) (step : Step) :
    let s := after
      { initial env with code := code, scripted := answers } env earlier
    Outcome (fun _ s' => s'.joins.size = s.joins.size)
      (fun error _ => error.isInconsistency = false) (step.run env s) := by
  have placed := (placed_initial env (Vocabulary.any env).names code answers).after earlier
  exact (Step.run_tends (fun _ _ => trivial) placed).mono (fun _ _ ended => ended.2)
    fun _ _ failed => failed.1

end CallLowering
