import CallLowering.Lowering.SingleCall

/-!
# Calls of several candidates

A call with several candidates evaluates its receiver and its arguments once and binds them
to hidden variables. The candidates are then tried in the resolver's order: a guard compares
the run-time tags with the owner and the parameters of the candidate, and the first guard that
holds runs its candidate with the hidden variables as receiver and arguments.

Nested expressions are lowered by the argument `inner`.
-/

namespace CallLowering

/-- The receiver of a dispatch: its hidden variable, its type and its tag. -/
structure DispatchReceiver where
  name : String
  ty : Ty
  tag : Option ValueId

/-- An argument of a dispatch: the expression that reads it back, the type it was given at, and
its tag if its type is tested. -/
structure DispatchArg where
  expr : Expr
  ty : Ty
  tag : Option ValueId

namespace Lower

/-- A number for the next dispatch. -/
def nextDispatch : Lower Nat :=
  modifyGet fun state =>
    (state.dispatches + 1, { state with dispatches := state.dispatches + 1 })

/-- Binds the receiver of a dispatch to a hidden variable and reads its tag. -/
def hideReceiver (id : Nat) (value : ValueId) (ty : Ty) : Lower DispatchReceiver := do
  let name := "%self." ++ toString id
  declare name (.value value ty)
  if ty.passedAsSelf then return ⟨name, ty, some (← emit (.typeId value ty))⟩
  else return ⟨name, ty, none⟩

/-- The implicit receiver of a dispatch. -/
def dispatchSelf (call : Call) : Lower Binding := do
  let context ← context
  orFault (if call.usesWithScope then context.withScope else context.selfBinding)
    (.noReceiver call.name) call.loc

variable (inner : Expr → Lower ValueId)

/-- Evaluates the receiver of a dispatch, if the call names one or a candidate takes one. -/
def dispatchReceiver (call : Call) (defns : List Definition) (id : Nat) :
    Lower (Option DispatchReceiver) := do
  match call.obj with
  | some obj => return some (← hideReceiver id (← lowerUsed inner obj) obj.ty)
  | none =>
    if defns.any Definition.takesReceiver then
      let binding ← dispatchSelf call
      return some (← hideReceiver id (← readBinding binding) binding.ty)
    else return none

/-- Whether the callee evaluates an argument itself, so that it cannot be hidden or tested. -/
def isEvaluatedByCallee (arg : Expr) : Bool :=
  match arg.kind with
  | .out _ | .procLiteral _ => true
  | _ => false

/-- Evaluates an argument of a dispatch, binds it to a hidden variable and reads its tag. -/
def dispatchArg (id index : Nat) (arg : Expr) : Lower DispatchArg := do
  if isEvaluatedByCallee arg then return ⟨arg, arg.ty, none⟩
  else
    let value ← lowerUsed inner arg
    let name := "%arg" ++ toString id ++ "." ++ toString index
    declare name (.value value arg.ty)
    let read := (Expr.ofVar name arg.ty).placedAt arg.loc
    if arg.kind.supportsAutocast then return ⟨read, arg.ty, none⟩
    else return ⟨read, arg.ty, some (← emit (.typeId value arg.ty))⟩

/-- Evaluates the arguments of a dispatch from position `index` on. -/
def dispatchArgs (id : Nat) : (index : Nat) → List Expr → Lower (List DispatchArg)
  | _, [] => return []
  | index, arg :: args => do
    let hidden ← dispatchArg inner id index arg
    let rest ← dispatchArgs id (index + 1) args
    return hidden :: rest

/-- The test of the receiver against a candidate, unless the call goes to the parent. -/
def receiverTest (call : Call) (receiver : Option DispatchReceiver) (defn : Definition) :
    Lower (Option ValueId) := do
  match receiver with
  | some ⟨_, ty, some tag⟩ =>
    if call.isSuper then return none else return some (← emit (.matchTypeTag ty defn.owner tag))
  | _ => return none

/-- Adds the tests of the arguments from position `index` on to a condition. -/
def argTests (call : Call) (defn : Definition) : (index : Nat) → List DispatchArg →
    Option ValueId → Lower (Option ValueId)
  | _, [], cond => return cond
  | index, arg :: args, cond => do
    match arg.tag with
    | none => argTests call defn (index + 1) args cond
    | some tag =>
      let param ← orFault defn.params[index]? (.noParameter defn.name index) call.loc
      let test ← emit (.matchTypeTag arg.ty param.ty tag)
      let cond ← match cond with
        | some cond => emit (.and cond test)
        | none => pure test
      argTests call defn (index + 1) args (some cond)

/-- The guard of a candidate; it always holds when there is nothing to test. -/
def guardOf (call : Call) (receiver : Option DispatchReceiver) (args : List DispatchArg)
    (defn : Definition) : Lower ValueId := do
  let cond ← receiverTest call receiver defn
  match ← argTests call defn 0 args cond with
  | some cond => return cond
  | none => constant (.ofBool true)

/-- The receiver of a dispatch as the candidate reads it, at the type of its owner. -/
def rebindReceiver (call : Call) (receiver : DispatchReceiver) (defn : Definition) : Expr :=
  let ty := if defn.takesReceiver then defn.owner else receiver.ty
  (Expr.ofVar receiver.name ty).placedAt call.loc

/-- The arguments of a dispatch as the candidate reads them, tested ones at the types of its
parameters. -/
def rebindArgs : List DispatchArg → List Param → List Expr
  | [], _ => []
  | arg :: args, [] => arg.expr :: rebindArgs args []
  | arg :: args, param :: params =>
    (match arg.tag with
      | some _ => { arg.expr with ty := param.ty }
      | none => arg.expr) :: rebindArgs args params

/-- The call of one candidate over the hidden variables. -/
def candidateCall (call : Call) (receiver : Option DispatchReceiver) (args : List DispatchArg)
    (defn : Definition) : Call :=
  { call with
    obj := receiver.map fun receiver => rebindReceiver call receiver defn
    args := rebindArgs args defn.params
    targets := [defn.name]
    usesWithScope := false }

/-- Tries one candidate and leaves the cursor where the next one is tried. -/
def tryCandidate (call : Call) (receiver : Option DispatchReceiver) (args : List DispatchArg)
    (join : Nat) (defn : Definition) : Lower Unit := do
  let cond ← guardOf call receiver args defn
  let current ← newBlock "current_def"
  let next ← newBlock "next_def"
  emitEffect (.condBr cond current next)
  position current
  let outcome ← lowerSingle inner (candidateCall call receiver args defn) defn
  addToJoin join outcome.value outcome.ty
  position next

/-- The type of a dispatch: what the candidates return and what `break` hands out. -/
def dispatchTy (call : Call) (defns : List Definition) : Ty :=
  Ty.merge (defns.map (·.ret) ++ (call.block.bind (·.breakTy)).toList)

/-- Lowers a call of several candidates. -/
def lowerDispatch (call : Call) : Lower CallOutcome := do
  let defns ← call.targets.mapM fun name => definition name call.loc
  report (.dispatch call.name call.targets)
  let id ← nextDispatch
  let receiver ← dispatchReceiver inner call defns id
  let args ← dispatchArgs inner id 0 call.args
  let ty := dispatchTy call defns
  let join ← openJoin ty
  defns.forM (tryCandidate inner call receiver args join)
  emitEffect .unreachable
  return ⟨← closeJoinOrNil join, ty⟩

/-- Lowers a call. -/
def lowerCallWith (call : Call) : Lower CallOutcome := do
  match call.targets with
  | [] => fault (.unresolvedCall call.name) call.loc
  | [name] => lowerSingle inner call (← definition name call.loc)
  | _ => lowerDispatch inner call

end Lower

end CallLowering
