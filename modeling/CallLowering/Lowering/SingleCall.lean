import CallLowering.Lowering.BlockCall
import CallLowering.Lowering.Closure
import CallLowering.Lowering.Foreign
import CallLowering.Lowering.Substitution

/-!
# Calls of one definition

A call whose target is known is inlined with its block, made through the foreign convention,
replaced by the body of its target, or emitted as a call instruction.

Nested expressions are lowered by the argument `inner`.
-/

namespace CallLowering

namespace Lower

variable (inner : Expr → Lower ValueId)

/-- The callable passed to a definition that takes its block as a value. -/
def blockArgument (call : Call) (defn : Definition) : Lower (List ValueId) := do
  if defn.blockArg then
    match call.block with
    | some block => return [← materialize inner block]
    | none => return [← nilValue]
  else return []

/-- Lowers a call inside the program that passes no inlined block. -/
def lowerUniform (call : Call) (defn : Definition) : Lower CallOutcome := do
  let args ← uniformArgs inner call defn
  match ← substitute? defn args with
  | some value => return ⟨value, defn.ret⟩
  | none =>
    let values := args.values ++ (← blockArgument inner call defn)
    let func ← declareDefinition defn
    report (.call defn.name values.length)
    let result ← callOrInvoke func values defn none
    uniformReturn defn result

/-- Lowers a call of one definition. -/
def lowerSingle (call : Call) (defn : Definition) : Lower CallOutcome := do
  if call.block.isSome && !defn.blockArg then lowerInlined inner call defn
  else if defn.isForeign then lowerForeign inner call defn
  else if defn.isInlineOnly then fault (.yieldsWithoutBlock defn.name) call.loc
  else lowerUniform inner call defn

end Lower

end CallLowering
