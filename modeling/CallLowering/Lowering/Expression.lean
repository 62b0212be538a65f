import CallLowering.Lowering.Dispatch

/-!
# Lowering expressions

`lowerExprWith` lowers one level of an expression over a function for the expressions inside
it, and `lowerExprWithin` closes the recursion at a given depth. `lowerExpr` takes a depth
that only endless inlining exceeds.

Once the block at the cursor has ended, the rest of an expression is dead and becomes `nil`.
-/

namespace CallLowering

namespace Lower

/-- Reads a local variable. -/
def lowerVar (name : String) (ty : Ty) (loc : Location) : Lower ValueId := do
  let binding ← orFault (← lookup? name) (.undefinedVariable name) loc
  coerce (← readBinding binding) binding.ty ty

/-- Reads a field of `self`. -/
def lowerField (name : String) (ty : Ty) (loc : Location) : Lower ValueId := do
  let (owner, self) ← selfInstance loc
  let (value, fieldTy) ← loadField owner self name loc
  coerce value fieldTy ty

/-- Calls the initializer of a constant. -/
def callInitializer (name : String) : Lower Unit := do
  let init ← declareFn ⟨"~" ++ name ++ ":init", [], .void, none, false⟩
  discard (emit (.call init [] none))

/-- Reads a namespace constant; a class is its tag. -/
def lowerConst (name : String) (initializer : Bool) (ty : Ty) (loc : Location) :
    Lower ValueId := do
  match ty with
  | .metaclass _ => tagConstant ty loc
  | _ =>
    if initializer then callInitializer name
    loadSlot (← record (Emit.global name)) ty

variable (inner : Expr → Lower ValueId)

/-- Assigns to the nearest binding of a name; a new name is bound in the current scope. -/
def lowerAssign (target : String) (value : Expr) : Lower ValueId := do
  let result ← lowerUsed inner value
  if ← isTerminated then return result
  else
    match ← lookup? target with
    | some (.slot ptr ty) =>
      let converted ← coerce result value.ty ty
      storeSlot converted ptr ty
      return result
    | some (.value _ _) => fault (.cannotAssign target) value.loc
    | none =>
      let slot ← spill result value.ty target
      declare target (.slot slot value.ty)
      return result

/-- Lowers a sequence; only the last value is used. -/
def lowerSeq : List Expr → Lower ValueId
  | [] => nilValue
  | [last] => inner last
  | expr :: exprs => do
    discard (lowerUnused inner expr)
    lowerSeq exprs

/-- Lowers a body whose raising calls go to a handler, and the handler. -/
def lowerRescue (body handler : Expr) (ty : Ty) : Lower ValueId := do
  let rescue ← newBlock "rescue"
  let join ← openJoin ty
  let value ← withHandler rescue (inner body)
  addToJoin join value body.ty
  position rescue
  discard (emit .landingPad)
  let value ← inner handler
  addToJoin join value handler.ty
  closeJoinOrNil join

/-- Lowers what an expression does, given its type and place. -/
def lowerKind (kind : ExprKind) (ty : Ty) (loc : Location) : Lower ValueId := do
  match kind with
  | .nop | .nil => nilValue
  | .bool value => constant (.ofBool value)
  | .char value => constant (.ofChar value)
  | .string value => constant (.str value)
  | .int value => intConstant ty value
  | .float value => floatConstant ty value
  | .symbol name => constant (.symbol name)
  | .var name => lowerVar name ty loc
  | .selfRef => readBinding (← orFault (← context).selfBinding .noSelf loc)
  | .field name => lowerField name ty loc
  | .assign target value => lowerAssign inner target value
  | .const name initializer => lowerConst name initializer ty loc
  | .call call =>
    let outcome ← lowerCallWith inner call
    coerce outcome.value outcome.ty ty
  | .yield args scope =>
    let outcome ← lowerYield inner args scope loc
    coerce outcome.value outcome.ty ty
  | .breakWith value => lowerJump inner (← context).breakJoin value "break" loc
  | .nextWith value => lowerJump inner (← context).nextJoin value "next" loc
  | .out _ | .discard => fault .outOutsideForeignCall loc
  | .procLiteral block => materialize inner block
  | .seq exprs => lowerSeq inner exprs
  | .rescue body handler => lowerRescue inner body handler ty

/-- Lowers an expression, given how to lower those inside it. -/
def lowerExprWith (expr : Expr) : Lower ValueId := do
  if ← isTerminated then nilValue else lowerKind inner expr.kind expr.ty expr.loc

/-- Lowers an expression that nests at most `depth` levels, inlined bodies included. -/
def lowerExprWithin : (depth : Nat) → Expr → Lower ValueId
  | 0, expr => fault .endlessInlining expr.loc
  | depth + 1, expr => lowerExprWith (lowerExprWithin depth) expr

/-- Lowers an expression at the cursor. -/
def lowerExpr (expr : Expr) : Lower ValueId := do
  lowerExprWithin ((← program).nestingBound expr) expr

/-- Lowers a call at the cursor. -/
def lowerCall (call : Call) : Lower CallOutcome := do
  let depth := (← program).nestingBound (Expr.ofCall call .nil)
  lowerCallWith (lowerExprWithin depth) call

end Lower

end CallLowering
