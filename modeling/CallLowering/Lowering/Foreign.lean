import CallLowering.Lowering.Invocation

/-!
# Calls into foreign code

A foreign call evaluates its arguments, adjusts each of them to its classification and
rebuilds the result. Arguments past the declared parameters are promoted as C promotes
variadic arguments. Aggregates travel by copy, and only the code pointer of a callable
crosses the boundary, so a callable has to carry no closure data.

Nested expressions are lowered by the argument `inner`.
-/

namespace CallLowering

/-- A widening of a variadic argument: the cast, the register type and the promoted type. -/
structure Promotion where
  kind : CastKind
  register : MachineType
  ty : Ty

/-- The widening that C applies to a variadic argument of a type. -/
def Ty.promotion? : Ty → Option Promotion
  | .float bits => if bits < 64 then some ⟨.fpext, .float 64, .float 64⟩ else none
  | .int bits signed =>
    if bits < 32 then some ⟨if signed then .sext else .zext, .int 32, .int 32 signed⟩ else none
  | .bool => some ⟨.zext, .int 32, .int 32 true⟩
  | _ => none

/-- The type of a variadic argument after promotion. -/
def Ty.promoted (ty : Ty) : Ty :=
  match ty.promotion? with
  | some promotion => promotion.ty
  | none => ty

namespace Lower

/-- Classifies a prototype afresh, or takes the next answer that stands in for it. -/
def classify (signature : Signature) : Lower Classification := do
  match (← get).scripted with
  | [] => return (← get).code.classify signature
  | answer :: rest =>
    modify fun state => { state with scripted := rest }
    match answer with
    | .ok classification => return classification
    | .error text => throw (.backend (.classifier text))

/-- Classifies a prototype for a foreign definition, and remembers the answer if asked to. -/
def classifyAfresh (defn : Definition) (signature : Signature) (loc : Location) :
    Lower Classification := do
  let classification ← classify signature
  if classification.args.length ≠ signature.params.length then
    fault (.notClassified defn.name classification.args.length signature.params.length) loc
  else
    if (← read).options.memoizeAbi then
      modify fun state =>
        { state with classified := (signature, classification) :: state.classified }
    return classification

/-- The classification of a foreign definition at a call site whose variadic arguments have the
given promoted types. -/
def classification (defn : Definition) (tail : List Ty) (loc : Location) :
    Lower Classification := do
  let signature : Signature := ⟨defn.params.map (·.ty) ++ tail, defn.ret⟩
  if (← read).options.memoizeAbi then
    match (← get).classified.lookup signature with
    | some known =>
      report (.memoHit defn.name)
      return known
    | none => classifyAfresh defn signature loc
  else classifyAfresh defn signature loc

/-- The address that an `out` argument hands over. A variable that is not bound yet gets
storage. -/
def outAddress (target : Expr) : Lower ValueId := do
  match target.kind with
  | .var name =>
    match ← lookup? name with
    | some (.slot ptr _) => return ptr
    | some (.value _ _) => fault (.outNotAddressable name) target.loc
    | none =>
      let ptr ← emit (.alloca ((← types).machineType target.ty) name)
      declare name (.slot ptr target.ty)
      return ptr
  | .field name =>
    let (owner, self) ← selfInstance target.loc
    let (address, _) ← fieldAddress owner self name target.loc
    return address
  | .discard => emit (.alloca ((← types).machineType target.ty) "discard")
  | _ => fault .outWithoutPlace target.loc

/-- Whether a binding of `self` is captured by every closure made under it. -/
def capturesSelf (selfBinding : Option Binding) : Bool :=
  match selfBinding with
  | some binding => binding.ty.hasValue
  | none => false

/-- Whether an argument is sure to carry no closure data: only a literal that captures
nothing, not even `self`, is. -/
def isContextFree (selfBinding : Option Binding) (arg : Expr) : Bool :=
  match arg.kind with
  | .procLiteral block => block.captures.isEmpty && !capturesSelf selfBinding
  | _ => false

variable (inner : Expr → Lower ValueId)

/-- A used argument at the type it is passed at: that of its parameter, or its promoted type. -/
def foreignValue (arg : Expr) (formal : Option Ty) : Lower (ValueId × Ty) := do
  let value ← lowerUsed inner arg
  match formal with
  | some formal => return (← coerce value arg.ty formal, formal)
  | none =>
    match arg.ty.promotion? with
    | some promotion => return (← emit (.cast promotion.kind value promotion.register), promotion.ty)
    | none => return (value, arg.ty)

/-- Evaluates an argument of a foreign call and answers the value with the type it is passed
at. -/
def foreignArg (arg : Expr) (formal : Option Ty) : Lower (ValueId × Ty) := do
  match arg.kind with
  | .out target => return (← outAddress target, .pointer target.ty)
  | _ =>
    let formalIsProc := match formal with
      | some ty => ty.isProc
      | none => false
    let formalIsPointer := match formal with
      | some ty => ty.isPointer
      | none => false
    if (arg.ty.isProc || formalIsProc) && !arg.ty.isNil &&
        !isContextFree (← context).selfBinding arg then
      throw (.closureToForeign arg.loc)
    else if arg.ty.isNil && (formalIsPointer || formalIsProc) then
      discard (lowerUnused inner arg)
      return (← constant .null, .pointer .nil)
    else
      let (value, ty) ← foreignValue inner arg formal
      if ty.isProc then
        let code ← emit (.extractValue ((← types).machineType ty) value 0)
        return (code, .pointer .nil)
      else return (value, ty)

/-- Writes a value into a buffer: a copy of its bytes if it lives in storage. -/
def fillBuffer (buffer value : ValueId) (ty : Ty) (cls : ArgClass) : Lower Unit :=
  if ty.passedByValue then emitEffect (.copy buffer value cls.size cls.align)
  else emitEffect (.store value buffer)

/-- Adjusts an argument to its classification; nothing is passed for an ignored one. -/
def passByClass (value : ValueId) (ty : Ty) (cls : ArgClass) : Lower (Option ValueId) := do
  match cls.kind with
  | .ignore => return none
  | .indirect =>
    let copy ← emit (.alloca cls.ty "byval")
    fillBuffer copy value ty cls
    return some copy
  | .direct =>
    match cls.cast with
    | some cast =>
      let buffer ← emit (.alloca cast "abi_cast")
      fillBuffer buffer value ty cls
      return some (← emit (.load cast buffer))
    | none =>
      if ty.passedByValue then return some (← emit (.load cls.ty value)) else return some value

/-- The values passed for a row of arguments; those past the declared parameters are
variadic. -/
def foreignArgs : List Expr → List ArgClass → List Param → Lower (List ValueId)
  | arg :: args, cls :: classes, params => do
    let (value, ty) ← foreignArg inner arg (params.head?.map (·.ty))
    let passed ← passByClass value ty cls
    let rest ← foreignArgs args classes params.tail
    return passed.toList ++ rest
  | _, _, _ => return []

/-- Rebuilds the result of a foreign call. -/
def foreignReturn (result : ValueId) (cls : ArgClass) (slot : Option ValueId) (ret : Ty)
    (loc : Location) : Lower ValueId := do
  match cls.kind with
  | .indirect => orFault slot .noReturnSlot loc
  | .ignore =>
    if ret.hasValue && !ret.isNil && (← types).sizeOf ret > 0 then fault (.unhandledReturn ret) loc
    else nilValue
  | .direct =>
    match cls.cast with
    | some cast =>
      let buffer ← emit (.alloca cast "abi_ret")
      emitEffect (.store result buffer)
      let value ← emit (.alloca cls.ty "ret")
      emitEffect (.copy value buffer cls.size cls.align)
      if ret.passedByValue then return value else emit (.load cls.ty value)
    | none =>
      if ret.passedByValue then
        let storage ← emit (.alloca cls.ty "ret")
        emitEffect (.store result storage)
        return storage
      else return result

/-- The prototype of a foreign function under a classification. -/
def foreignPrototype (defn : Definition) (spec : ForeignSpec)
    (classification : Classification) : FnDecl where
  name := spec.symbol
  params :=
    (if classification.ret.kind = .indirect then [.ptr] else []) ++
      ((classification.args.take defn.params.length).filter (·.kind ≠ .ignore)).map
        ArgClass.nativeType
  ret := if classification.ret.kind = .indirect then .void else classification.ret.nativeType
  conv := some spec.conv
  variadic := defn.variadic

/-- Storage for a result that is returned through memory. -/
def returnSlot (cls : ArgClass) : Lower (Option ValueId) := do
  if cls.kind = .indirect then return some (← emit (.alloca cls.ty "sret")) else return none

/-- Lowers a call of a foreign definition. -/
def lowerForeign (call : Call) (defn : Definition) : Lower CallOutcome := do
  let spec ← orFault defn.foreign (.notForeign defn.name) call.loc
  lowerIgnoredReceiver inner call.obj
  let declared := defn.params.length
  if call.args.length < declared || (call.args.length > declared && !defn.variadic) then
    fault (.argumentCount defn.name declared call.args.length) call.loc
  else
    let tail := (call.args.drop declared).map (·.ty.promoted)
    let classification ← classification defn tail call.loc
    let slot ← returnSlot classification.ret
    let passed ← foreignArgs inner call.args classification.args defn.params
    let args := slot.toList ++ passed
    let func ← declareFn (foreignPrototype defn spec classification)
    report (.foreignCall spec.symbol args.length spec.conv)
    let result ← callOrInvoke func args defn (some spec.conv)
    if defn.ret.isNoReturn then neverReturns
    else
      let value ← foreignReturn result classification.ret slot defn.ret call.loc
      return ⟨value, defn.ret⟩

end Lower

end CallLowering
