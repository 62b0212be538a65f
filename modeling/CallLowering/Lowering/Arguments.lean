import CallLowering.Lowering.Values
import CallLowering.Text.ParentDir

/-!
# Arguments

Calls inside the program pass, in this order, the receiver, the parameters before the first
magic one, the addresses of the special variables, and the remaining parameters. This module
builds such an argument list at a call site (`uniformArgs`), declares the matching prototype
(`declareDefinition`), and binds the values inside the callee (`bindArguments`).

Nested expressions are lowered by the argument `inner`.
-/

namespace CallLowering

/-- The argument list of a call, with the value passed as `self` and its type. -/
structure CallArgs where
  values : List ValueId
  receiver : Option (ValueId × Ty)

namespace Lower

variable (inner : Expr → Lower ValueId)

/-- Lowers an expression whose value is used. -/
def lowerUsed (expr : Expr) : Lower ValueId := withNeedsValue true (inner expr)

/-- Lowers an expression for its effect. -/
def lowerUnused (expr : Expr) : Lower ValueId := withNeedsValue false (inner expr)

/-- Lowers a receiver that the callee does not take, unless dropping it loses no effect. -/
def lowerIgnoredReceiver (obj : Option Expr) : Lower Unit := do
  match obj with
  | some obj => if obj.kind.isSideEffectFree then return () else discard (lowerUnused inner obj)
  | none => return ()

/-- The receiver of a call that names none: the scope of the enclosing block, or `self`. -/
def implicitReceiver (call : Call) : Lower Binding := do
  if call.usesWithScope then orFault (← context).withScope .noWithScope call.loc
  else orFault (← context).selfBinding (.noReceiver call.name) call.loc

/-- The receiver of a call with its type. -/
def receiverValue (call : Call) : Lower (ValueId × Ty) := do
  match call.obj with
  | some obj => return (← lowerUsed inner obj, obj.ty)
  | none =>
    let binding ← implicitReceiver call
    return (← readBinding binding, binding.ty)

/-- The value passed as `self`, if the callee takes one. -/
def lowerReceiver (call : Call) (defn : Definition) : Lower (Option (ValueId × Ty)) := do
  if defn.takesReceiver then
    let (value, ty) ← receiverValue inner call
    if ty.isNil then return some (← nilValue, defn.owner)
    else
      match defn.owner with
      | .metaclass _ => return some (value, defn.owner)
      | owner => return some (← coerce value ty owner, owner)
  else
    lowerIgnoredReceiver inner call.obj
    return none

/-- The constant that an omitted magic argument stands for, taken from the call site. -/
def magicConstant (name : String) (call : Call) (ty : Ty) : Lower ValueId := do
  match name with
  | "__LINE__" => intConstant ty (Int64.ofNat call.loc.line.toNat)
  | "__END_LINE__" => intConstant ty (Int64.ofNat (call.endLoc.getD call.loc).line.toNat)
  | "__FILE__" => constant (.str (← program).file)
  | "__DIR__" => constant (.str (ParentDir.ofPath (← program).file))
  | other => fault (.unknownMagic other) call.loc

/-- Brings an argument to the type of its parameter. Aggregates are loaded, unless the callee
takes them in their storage. -/
def passArgument (defn : Definition) (param : Param) (value : ValueId) (ty : Ty) :
    Lower ValueId := do
  let value ← coerce value ty param.ty
  if param.ty.passedByValue && !defn.primitive then
    emit (.load ((← types).machineType param.ty) value)
  else return value

/-- The argument for a parameter: the one passed, or else the default. -/
def uniformArg (call : Call) (defn : Definition) (param : Param) (arg : Option Expr) :
    Lower ValueId := do
  match arg with
  | some arg => passArgument defn param (← lowerUsed inner arg) arg.ty
  | none =>
    match param.default? with
    | some (.expr value) => passArgument defn param (← lowerUsed inner value) value.ty
    | some (.magic name) => magicConstant name call param.ty
    | none => fault (.missingArgument param.name defn.name) call.loc

/-- The arguments for a row of parameters; those passed come first. -/
def uniformArgsFor (call : Call) (defn : Definition) : List Param → List Expr →
    Lower (List ValueId)
  | [], _ => return []
  | param :: params, args => do
    let value ← uniformArg inner call defn param args.head?
    let values ← uniformArgsFor call defn params args.tail
    return value :: values

/-- The address of a special variable of the caller. A variable that the caller never touched
gets storage in the outermost scope of the current function, which inlined bodies share. -/
def specialAddress (special : Param) (loc : Location) : Lower ValueId := do
  let functionScope := (← context).functionScope
  let found := (← lookup? special.name).or
    ((← get).scopes.lookupLocal? functionScope special.name)
  match found with
  | some (.slot ptr _) => return ptr
  | some (.value _ _) => fault (.specialNotAddressable special.name) loc
  | none =>
    let ptr ← emit (.alloca ((← types).machineType special.ty) special.name)
    declareIn functionScope special.name (.slot ptr special.ty)
    return ptr

/-- The argument list of a call. -/
def uniformArgs (call : Call) (defn : Definition) : Lower CallArgs := do
  let receiver ← lowerReceiver inner call defn
  if call.args.length > defn.params.length then
    fault (.argumentCount defn.name defn.params.length call.args.length) call.loc
  else
    let fixed ← uniformArgsFor inner call defn defn.fixedParams call.args
    let specials ← defn.specialVars.mapM fun special => specialAddress special call.loc
    let trailing ← uniformArgsFor inner call defn defn.trailingParams
      (call.args.drop defn.fixedArity)
    return {
      values := (receiver.map (·.1)).toList ++ fixed ++ specials ++ trailing
      receiver := receiver }

/-- The representation of a parameter. -/
def paramType (types : TypeTable) (defn : Definition) (ty : Ty) : MachineType :=
  if ty.passedByValue && defn.primitive then .ptr else types.machineType ty

/-- The prototype of a definition; its parameters stand in the order of the argument list, with
the block last. -/
def prototype (types : TypeTable) (defn : Definition) : FnDecl where
  name := defn.name
  params :=
    (if defn.takesReceiver then [types.flowType defn.owner] else []) ++
      defn.fixedParams.map (fun param => paramType types defn param.ty) ++
      defn.specialVars.map (fun _ => .ptr) ++
      defn.trailingParams.map (fun param => paramType types defn param.ty) ++
      (if defn.blockArg then [closureType] else [])
  ret := types.returnType defn.ret
  conv := none
  variadic := false

/-- Declares the function of a definition. -/
def declareDefinition (defn : Definition) : Lower FuncId := do
  declareFn (prototype (← types) defn)

/-- Binds a parameter to storage that holds its argument. -/
def bindParam (name : String) (ty : Ty) (value : Option ValueId) (primitive : Bool)
    (loc : Location) : Lower Unit := do
  let value ← orFault value (.noArgumentValue name) loc
  if ty.passedByValue && primitive then declare name (.value value ty)
  else
    let slot ← emit (.alloca ((← types).machineType ty) name)
    if ty.isNil then pure () else emitEffect (.store value slot)
    declare name (.slot slot ty)

/-- Binds a row of parameters and answers the arguments left over. -/
def bindParams (defn : Definition) (loc : Location) : List Param → List ValueId →
    Lower (List ValueId)
  | [], values => return values
  | param :: params, values => do
    bindParam param.name param.ty values.head? defn.primitive loc
    bindParams defn loc params values.tail

/-- Binds the special variables to the addresses passed and answers the arguments left over. -/
def bindSpecials (missing : Fault) (loc : Location) : List Param → List ValueId →
    Lower (List ValueId)
  | [], values => return values
  | special :: specials, values => do
    let ptr ← orFault values.head? missing loc
    declare special.name (.slot ptr special.ty)
    bindSpecials missing loc specials values.tail

/-- Binds the arguments of a definition inside its body, the receiver excepted. -/
def bindArguments (defn : Definition) (missing : Fault) (loc : Location)
    (values : List ValueId) : Lower Unit := do
  let values ← bindParams defn loc defn.fixedParams values
  let values ← bindSpecials missing loc defn.specialVars values
  discard (bindParams defn loc defn.trailingParams values)

end Lower

end CallLowering
