import CallLowering.Proofs.Passing
import Mathlib.Data.List.Forall2

/-!
# Choosing a candidate

A call of several candidates evaluates its operands and runs the first candidate that fits them: the
run-time type of the receiver is one of its owner, and those of the arguments are ones of its
parameters. `Observed` holds these run-time types, `Observed.tests` the tests that a candidate is
put to, and `Observed.tried` the candidates whose tests are made.

The operands considered here are those of which direct evaluation is known at once
(`Program.Operand`).
-/

namespace CallLowering

variable {expr : Expr}

/-- The definitions that a call may run, in the order in which they are tried. -/
def Program.candidates (program : Program) (call : Call) : List Definition :=
  call.targets.filterMap program.target?

/-- The name under which a definition is called. -/
def Definition.symbol (defn : Definition) : String :=
  match defn.foreign with
  | some spec => spec.symbol
  | none => defn.name

/-! ## Run-time types -/

/-- The run-time types that decide between candidates: that of the receiver, if it is tested, and
those of the arguments that are tested. -/
structure Observed where
  receiver : Option Ty
  args : List (Option Ty)

/-- The run-time types of arguments, given those that successive tag reads find. Where these run
out, a tag read finds the static type. Number and symbol literals are not tested. -/
def Observed.ofArgs : List Expr → List Ty → List (Option Ty)
  | [], _ => []
  | arg :: args, assumed =>
    if arg.kind.supportsAutocast then none :: ofArgs args assumed
    else some (assumed.headD arg.ty) :: ofArgs args assumed.tail

/-- The static type of the receiver of a call: that of the expression it is sent to, or else that of
`self`, if a candidate takes a receiver. The program itself carries no tag. -/
def Call.receiverTy? (call : Call) (self : Ty) (candidates : List Definition) : Option Ty :=
  let ty := match call.obj with
    | some obj => some obj.ty
    | none => if candidates.any Definition.takesReceiver then some self else none
  ty.filter Ty.passedAsSelf

/-- The run-time types at a call, given those that successive tag reads find. The tag of the
receiver is read first; it is not tested if the call goes to the parent. -/
def Call.observed (call : Call) (self : Ty) (candidates : List Definition) (assumed : List Ty) :
    Observed :=
  match call.receiverTy? self candidates with
  | some ty =>
    ⟨if call.isSuper then none else some (assumed.headD ty),
      Observed.ofArgs call.args assumed.tail⟩
  | none => ⟨none, Observed.ofArgs call.args assumed⟩

theorem Call.observed_eq (call : Call) (self : Ty) (candidates : List Definition)
    (assumed : List Ty) :
    call.observed self candidates assumed =
      ⟨if call.isSuper then none else (call.receiverTy? self candidates).map assumed.headD,
        Observed.ofArgs call.args
          (if (call.receiverTy? self candidates).isSome then assumed.tail else assumed)⟩ := by
  unfold observed
  cases call.receiverTy? self candidates with
  | some ty => rfl
  | none => rw [Option.map_none, ite_self]; rfl

namespace Observed

variable (types : TypeTable) (observed : Observed)

/-- The test of a run-time type against the type that a candidate demands. -/
def test (demanded concrete : Ty) : Ty × Bool := (demanded, types.isSubtype concrete demanded)

/-- The tests of arguments against parameters. -/
def argTests (args : List (Option Ty)) (params : List Param) : List (Ty × Bool) :=
  (args.zip params).filterMap fun (concrete, param) => concrete.map (test types param.ty)

/-- The tests that a candidate is put to, with their outcomes. -/
def tests (candidate : Definition) : List (Ty × Bool) :=
  observed.receiver.toList.map (test types candidate.owner) ++
    argTests types observed.args candidate.params

/-- Whether a candidate passes all its tests. -/
def accepts (candidate : Definition) : Bool := (observed.tests types candidate).all Prod.snd

/-- The candidates that are tried: those up to the first one that passes its tests. -/
def tried : List Definition → List Definition
  | [] => []
  | candidate :: candidates =>
    if observed.accepts types candidate then [candidate] else candidate :: tried candidates

/-- The candidate that is run: the first one that passes its tests. -/
def chosen? (candidates : List Definition) : Option Definition :=
  candidates.find? (observed.accepts types)

/-- How a function ends that returns what the candidate returns. -/
def ending (ret : Ty) (candidates : List Definition) : TraceEnd :=
  match observed.chosen? types candidates with
  | some candidate =>
    if candidate.ret.isNoReturn || ret.isNoReturn then .unreachable else .returned
  | none => .unreachable

end Observed

/-! ## Operands -/

/-- Evaluating the expression makes the given foreign calls and nothing else. It is a variable, a
literal or the like, or a call of a foreign function that takes no arguments and returns. -/
inductive Program.Operand (program : Program) : Expr → List String → Prop where
  | read {expr : Expr} (free : expr.kind.isSideEffectFree = true) : Operand program expr []
  | foreign {expr site name defn spec calls} (kind : expr.kind = .call site) (target : site.targets = [name])
      (resolved : program.target? name = some defn) (isForeign : defn.foreign = some spec)
      (returns : defn.ret.isNoReturn = false) (receiverless : site.obj = none → calls = [])
      (receiver : ∀ obj, site.obj = some obj → Operand program obj calls)
      (argless : site.args = []) (blockless : site.block = none) :
      Operand program expr (calls ++ [spec.symbol])

/-- An expression that can be dropped makes no calls. -/
theorem Program.Operand.calls_of_free {program : Program} {calls : List String}
    (operand : program.Operand expr calls) (free : expr.kind.isSideEffectFree = true) :
    calls = [] := by
  cases operand with
  | read => rfl
  | foreign kind =>
    rw [kind] at free
    cases free

namespace Effect

/-- The evaluation is this run, if it comes to an end. -/
def AtMost (effect : Effect) (run : Run) : Prop := ∀ run', effect = some run' → run' = run

namespace AtMost

variable {effect effect' : Effect} {run : Run} {calls : List String}

theorem of_some : AtMost (some run) run := fun _ same => (Option.some.inj same).symm

theorem mul (first : effect.AtMost ⟨calls, .continues⟩) (second : effect'.AtMost run) :
    (effect * effect').AtMost ⟨calls ++ run.calls, run.exit⟩ := by
  intro run' both
  obtain ⟨run1, found1, rest⟩ := Option.bind_eq_some_iff.mp both
  obtain rfl := first run1 found1
  obtain ⟨run2, found2, rfl⟩ := Option.map_eq_some_iff.mp rest
  rw [second run2 found2]

/-- Nothing happens first. -/
theorem silently (first : effect.AtMost ⟨[], .continues⟩) (second : effect'.AtMost run) :
    (effect * effect').AtMost run :=
  first.mul second

end AtMost

end Effect

namespace Evaluation

variable {program : Program} {depth : Nat} {activation : Activation} {frames : Nat}

theorem within_of_free (free : expr.kind.isSideEffectFree = true) :
    (within program depth activation frames expr).AtMost ⟨[], .continues⟩ := by
  cases depth with
  | zero => exact nofun
  | succ depth =>
    obtain ⟨kind, ty, _⟩ := expr
    cases kind with
    | nop | nil | bool | char | string | int | float | symbol | var | selfRef => exact .of_some
    | const name initializer =>
      rw [ExprKind.isSideEffectFree, Bool.not_eq_true'] at free
      subst free
      cases ty <;> exact .of_some
    | _ => cases free

/-- An operand makes its foreign calls. -/
theorem within_of_operand {calls : List String} (operand : program.Operand expr calls) :
    (within program depth activation frames expr).AtMost ⟨calls, .continues⟩ := by
  induction operand generalizing depth with
  | read free => exact within_of_free free
  | @foreign expr site name defn spec calls kind target resolved isForeign returns receiverless
      given argless blockless ih =>
    cases depth with
    | zero => exact nofun
    | succ depth =>
      have ignored : defn.takesReceiver = false := by
        rw [Definition.takesReceiver, Definition.isForeign, isForeign]
        rfl
      have first : (receiver (within program depth) activation frames site defn).AtMost
          ⟨calls, .continues⟩ := by
        unfold receiver
        cases present : site.obj with
        | none =>
          rw [receiverless present]
          exact .of_some
        | some obj =>
          simp only [ignored, Bool.not_false, Bool.true_and]
          split
          · rename_i free
            rw [(given obj present).calls_of_free free]
            exact .of_some
          · exact ih obj present
      rw [within, kind, ofKind, ofCall, target]
      simp only [resolved, single, blockless, isForeign, argless, List.filter_nil, all, Effect.after,
        returns, Option.isSome_none, Bool.false_and, Bool.false_eq_true, ↓reduceIte, mul_one]
      exact first.mul .of_some

theorem all_of_free {exprs : List Expr} (free : ∀ expr ∈ exprs, expr.kind.isSideEffectFree = true) :
    (all (within program depth) activation frames exprs).AtMost ⟨[], .continues⟩ := by
  induction exprs with
  | nil => exact .of_some
  | cons expr exprs ih =>
    exact (within_of_free (free expr List.mem_cons_self)).silently
      (ih (List.forall_mem_cons.mp free).2)

/-- Where control is after a call of a definition. -/
def exitOf (defn : Definition) : Exit := if defn.ret.isNoReturn then .halts else .continues

theorem after_atMost (defn : Definition) : (Effect.after defn.ret).AtMost ⟨[], exitOf defn⟩ := by
  unfold Effect.after exitOf
  cases defn.ret.isNoReturn <;> exact .of_some

/-- A call whose operands make no calls is the call of its definition alone. -/
theorem single_of_free {call : Call} {defn : Definition} (blockless : call.block = none)
    (called : defn.isSubstituted = false)
    (receiverFree : ∀ obj ∈ call.obj, obj.kind.isSideEffectFree = true)
    (argsFree : ∀ arg ∈ call.args, arg.kind.isSideEffectFree = true)
    (defaultsFree : ∀ value ∈ defn.omitted call.args.length, value.kind.isSideEffectFree = true) :
    (single (within program depth) activation frames call defn).AtMost
      ⟨[defn.symbol], exitOf defn⟩ := by
  have first : (receiver (within program depth) activation frames call defn).AtMost
      ⟨[], .continues⟩ := by
    unfold receiver
    cases given : call.obj with
    | none => exact .of_some
    | some obj =>
      dsimp only
      split
      · exact .of_some
      · exact within_of_free (receiverFree obj given)
  have last : (Effect.call defn.symbol * Effect.after defn.ret).AtMost
      ⟨[defn.symbol], exitOf defn⟩ :=
    Effect.AtMost.mul .of_some (after_atMost defn)
  have passesNone : ¬(call.block.isSome && !defn.blockArg) = true := by
    rw [blockless]
    exact Bool.false_ne_true
  unfold Definition.symbol at last ⊢
  rw [single, if_neg passesNone]
  cases foreign : defn.foreign with
  | some spec =>
    rw [foreign] at last
    dsimp only at last ⊢
    rw [mul_assoc, mul_assoc]
    refine first.silently (Effect.AtMost.silently (all_of_free fun arg member => ?_) last)
    exact argsFree arg (List.mem_of_mem_filter member)
  | none =>
    rw [foreign] at last
    dsimp only at last ⊢
    rw [called, if_neg Bool.false_ne_true]
    refine Effect.AtMost.silently (first.silently (all_of_free fun expr member => ?_)) last
    exact (List.mem_append.mp member).elim (argsFree expr) (defaultsFree expr)

end Evaluation

end CallLowering
