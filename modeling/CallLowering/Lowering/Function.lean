import CallLowering.Code.ControlFlow
import CallLowering.Lowering.Expression

/-!
# Lowering functions and programs

A definition with a body becomes a function: its parameters are bound to storage, and the
value of its body is returned. A program is compiled by lowering every definition that needs
a function of its own, in order.
-/

namespace CallLowering

namespace Lower

/-- The context at the start of the function of a definition, with the parameter values left
for the other parameters. -/
def functionContext (defn : Definition) (values : List ValueId) :
    Lower (Context × List ValueId) := do
  let fresh ← freshContext defn.name
  let context := { fresh with selfTy := defn.owner }
  if defn.takesReceiver then
    return ({ context with selfBinding := values.head?.map fun value => .value value defn.owner },
      values.tail)
  else return (context, values)

/-- Lowers the body of a function and returns its value. -/
def functionBody (defn : Definition) (body : Expr) (values : List ValueId) : Lower Unit := do
  bindArguments defn .specialNotInParameters defn.loc values
  let value ← lowerExpr body
  emitReturn value body.ty defn.ret

/-- Lowers a definition into a function of its own. -/
def lowerFunction (defn : Definition) : Lower FuncId := do
  let body ← orFault defn.body (.noBody defn.name) defn.loc
  report (.loweringFunction defn.name)
  let func ← declareDefinition defn
  let values ← beginRoutine func
  let (context, values) ← functionContext defn values
  modify fun state => { state with closures := 0 }
  withContext context (functionBody defn body values)
  return func

end Lower

/-- An error of a compilation with the definition it happened in. -/
structure CompileError where
  defn : String
  error : LowerError

/-- The wording of where the error happened. -/
def CompileError.context (error : CompileError) : String :=
  "while lowering `" ++ error.defn ++ "`"

/-- The outcome of a compilation: the code or an error, and what was reported. -/
structure Compilation where
  result : Except CompileError Recording
  events : Array Event

namespace Program

/-- Lowers definitions one after the other up to the first that fails. -/
def lowerAll (env : Env) : List Definition → LowerState → Option CompileError × LowerState
  | [], state => (none, state)
  | defn :: defns, state =>
    match Lower.lowerFunction defn env state with
    | .ok _ state => lowerAll env defns state
    | .error error state => (some ⟨defn.name, error⟩, state)

/-- Compiles a program: lowers every definition that needs a function of its own. -/
def compile (program : Program) (options : Options) : Compilation :=
  let env : Env := ⟨program, options⟩
  let defns := program.defs.filter Definition.needsFunction
  match lowerAll env defns (LowerState.initial env) with
  | (some error, state) => ⟨.error error, state.events⟩
  | (none, state) =>
    ⟨.ok state.code, state.events.push (.loweredProgram defns.length program.file)⟩

end Program

/-- What a compilation prints. -/
inductive EmitKind where
  | code
  | flow
  deriving DecidableEq

/-- The text of compiled code. -/
def EmitKind.display (kind : EmitKind) (code : Recording) : String :=
  match kind with
  | .code => code.display
  | .flow => code.displayFlow

end CallLowering
