import CallLowering.Lowering.Invocation

/-!
# Calls with an inlined block

A definition that takes its block by `yield` is inlined at the call site. `yield` runs the
block in the context of the call site, under the handlers of the callee; `break` leaves the
call through its join point and `next` leaves the block through one of its own.

Nested expressions are lowered by the argument `inner`.
-/

namespace CallLowering

namespace Lower

variable (inner : Expr → Lower ValueId)

/-- The context of an inlined callee. -/
def calleeContext (defn : Definition) (block : Block) (receiver : Option (ValueId × Ty))
    (join : Nat) : Lower Context := do
  let caller ← context
  let fresh ← freshContext caller.fnName
  return { fresh with
    needsValue := caller.needsValue
    handlers := caller.handlers
    selfTy := defn.owner
    functionScope := caller.functionScope
    yieldTarget := some (block, caller, join)
    selfBinding := receiver.map fun found => .value found.1 found.2 }

/-- Lowers the body of an inlined callee and ends it in the join point of the call. -/
def inlinedBody (call : Call) (defn : Definition) (body : Expr) (values : List ValueId)
    (join : Nat) : Lower Unit := do
  bindArguments defn .specialNotInArguments call.loc values
  let value ← inner body
  addToJoin join value body.ty

/-- Lowers a call by inlining the callee with its block. -/
def lowerInlined (call : Call) (defn : Definition) : Lower CallOutcome := do
  match call.block, defn.body with
  | some block, some body =>
    if defn.isForeign then fault (.foreignWithBlock defn.name) call.loc
    else
      report (.inliningBlock defn.name)
      let args ← uniformArgs inner call defn
      let ty := Ty.merge (defn.ret :: block.breakTy.toList)
      let join ← openJoin ty
      let callee ← calleeContext defn block args.receiver join
      let values := match args.receiver with
        | some _ => args.values.tail
        | none => args.values
      withContext callee (inlinedBody inner call defn body values join)
      let value ← closeJoinOrNil join
      if ← isTerminated then return ⟨value, .noReturn⟩ else return ⟨value, ty⟩
  | _, _ => fault (.cannotInlineBlock defn.name) call.loc

/-- Binds the parameters of a block to new storage; `nil` stands for a missing argument. -/
def bindYielded : List BlockParam → List (ValueId × Ty) → Lower Unit
  | [], _ => return ()
  | param :: params, args => do
    let (value, ty) ← match args.head? with
      | some arg => pure arg
      | none => pure (← nilValue, Ty.nil)
    let value ← coerce value ty param.ty
    let slot ← spill value param.ty param.name
    declare param.name (.slot slot param.ty)
    bindYielded params args.tail

/-- Lowers the body of a block that was yielded to, with the arguments given. -/
def yieldedBody (block : Block) (args : List (ValueId × Ty)) : Lower CallOutcome := do
  bindYielded block.params args
  let next ← openJoin block.body.ty
  setContext fun context => { context with nextJoin := some next }
  let value ← inner block.body
  addToJoin next value block.body.ty
  match ← closeJoin next with
  | some value => return ⟨value, block.body.ty⟩
  | none => return ⟨← nilValue, .noReturn⟩

/-- The receiver of implicit calls inside the block, if the `yield` gives one. -/
def yieldScope (scope : Option Expr) : Lower (Option Binding) := do
  match scope with
  | some expr => return some (.value (← lowerUsed inner expr) expr.ty)
  | none => return none

/-- Runs the block of the innermost inlined call. -/
def lowerYield (args : List Expr) (scope : Option Expr) (loc : Location) :
    Lower CallOutcome := do
  let (block, caller, breakJoin) ←
    orFault (← context).yieldTarget .yieldOutsideBlockCall loc
  let args ← args.mapM fun arg => return (← lowerUsed inner arg, arg.ty)
  let withScope ← yieldScope inner scope
  let blockScope ← newScope (some caller.scope)
  let callee ← context
  withContext { caller with
      scope := blockScope
      handlers := callee.handlers
      needsValue := callee.needsValue
      breakJoin := some breakJoin
      withScope := withScope.or caller.withScope }
    (yieldedBody inner block args)

/-- Leaves through a join point, with a value or with `nil`. -/
def lowerJump (join : Option Nat) (value : Option Expr) (keyword : String) (loc : Location) :
    Lower ValueId := do
  let join ← orFault join (.jumpOutsideBlock keyword) loc
  match value with
  | some expr => addToJoin join (← lowerUsed inner expr) expr.ty
  | none => addToJoin join (← nilValue) .nil
  nilValue

end Lower

end CallLowering
