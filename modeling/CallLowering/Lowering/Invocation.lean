import CallLowering.Lowering.Arguments

/-!
# Call instructions

The instruction that performs a call, and what becomes of its result. A callee that may raise
under an active handler is invoked, so that it can go on at the handler.
-/

namespace CallLowering

/-- The value of a lowered call and the type it has. -/
structure CallOutcome where
  value : ValueId
  ty : Ty

namespace Lower

/-- Calls a function, or invokes it if it may raise under a handler. -/
def callOrInvoke (func : FuncId) (args : List ValueId) (defn : Definition)
    (conv : Option CallConv) : Lower ValueId := do
  match (← context).handlers.head? with
  | some handler =>
    if defn.raises then
      let normal ← newBlock "invoke_out"
      let value ← emit (.invoke func args normal handler conv)
      position normal
      return value
    else emit (.call func args conv)
  | none => emit (.call func args conv)

/-- Ends the block after a call that does not return. -/
def neverReturns : Lower CallOutcome := do
  emitEffect .unreachable
  return ⟨← nilValue, .noReturn⟩

/-- The result of a call inside the program. An aggregate is put into storage if it is used. -/
def uniformReturn (defn : Definition) (result : ValueId) : Lower CallOutcome := do
  if defn.ret.isNoReturn then neverReturns
  else if defn.ret.passedByValue then
    if (← context).needsValue then
      let slot ← emit (.alloca ((← types).machineType defn.ret) "ret")
      emitEffect (.store result slot)
      return ⟨slot, defn.ret⟩
    else return ⟨← nilValue, defn.ret⟩
  else if defn.ret.isNil then return ⟨← nilValue, defn.ret⟩
  else return ⟨result, defn.ret⟩

end Lower

end CallLowering
