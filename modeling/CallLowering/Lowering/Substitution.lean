import CallLowering.Lowering.Arguments

/-!
# Substituting trivial bodies

A call of a definition whose body is a literal, `self` or a field read needs no call
instruction. The arguments have been built by then, so effects of the receiver happen either
way.
-/

namespace CallLowering

namespace Lower

/-- The value of a literal with the type of the literal itself; numbers have the type they are
annotated with. -/
def literalValue? (kind : ExprKind) (ty : Ty) : Option (Lower (ValueId × Ty)) :=
  match kind with
  | .nil => some do return (← nilValue, .nil)
  | .bool value => some do return (← constant (.ofBool value), .bool)
  | .char value => some do return (← constant (.ofChar value), .char)
  | .string value => some do return (← constant (.str value), .string)
  | .int value => some do return (← intConstant ty value, ty)
  | .float value => some do return (← floatConstant ty value, ty)
  | .symbol name => some do return (← constant (.symbol name), .symbol)
  | _ => none

/-- The value of a trivial body with its type and shape; nothing for any other body. -/
def trivialBody (ret : Ty) (body : Expr) (receiver : Option (ValueId × Ty)) :
    Lower (Option (ValueId × Ty × BodyShape)) := do
  if ret.isNil && body.kind.isLiteral then return some (← nilValue, .nil, .literal)
  else
    match literalValue? body.kind body.ty with
    | some literal =>
      let (value, ty) ← literal
      return some (value, ty, .literal)
    | none =>
      match body.kind, receiver with
      | .selfRef, some (value, owner) =>
        if owner.hasValue then return some (value, owner, .selfRead)
        else return some (← tagConstant owner body.loc, owner, .selfRead)
      | .field name, some (value, owner) =>
        let (value, ty) ← loadField owner value name body.loc
        return some (value, ty, .fieldRead)
      | _, _ => return none

/-- The value of the call if the body of the definition can be substituted for it. -/
def substitute? (defn : Definition) (args : CallArgs) : Lower (Option ValueId) := do
  if defn.isForeign then return none
  else
    match defn.body with
    | none => return none
    | some body =>
      match ← trivialBody defn.ret body args.receiver with
      | none => return none
      | some (value, ty, shape) =>
        report (.substituted defn.name shape)
        return some (← coerce value ty defn.ret)

end Lower

end CallLowering
