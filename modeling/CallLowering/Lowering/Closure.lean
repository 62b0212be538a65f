import CallLowering.Lowering.Arguments

/-!
# Closures

A block that becomes a value is compiled into a function of its own. It reads the enclosing
variables through a record that holds a pointer to the storage of each captured variable and,
last, `self`. The callable pairs the function with the address of that record, or with null
when there is nothing to capture.

Nested expressions are lowered by the argument `inner`.
-/

namespace CallLowering

/-- A variable that a closure captures: its name, the address of its storage and its type. -/
structure Capture where
  name : String
  ptr : ValueId
  ty : Ty

namespace Lower

/-- A number for the next closure of the current function. -/
def nextClosure : Lower Nat :=
  modifyGet fun state => (state.closures, { state with closures := state.closures + 1 })

/-- The storage of a captured variable. One that has none is spilled. -/
def capture (loc : Location) (name : String) : Lower Capture := do
  match ← orFault (← lookup? name) (.captureNotInScope name) loc with
  | .slot ptr ty => return ⟨name, ptr, ty⟩
  | .value value ty => return ⟨name, ← spill value ty name, ty⟩

/-- The value of `self` that a closure captures, if `self` has one. -/
def captureSelf : Lower (Option (ValueId × Ty)) := do
  match (← context).selfBinding with
  | some binding =>
    if binding.ty.hasValue then return some (← readBinding binding, binding.ty) else return none
  | none => return none

/-- The type of the record of captured variables. -/
def captureRecord (types : TypeTable) (captures : List Capture)
    (self : Option (ValueId × Ty)) : MachineType :=
  .struct (captures.map (fun _ => .ptr) ++ (self.map fun found => types.flowType found.2).toList)

/-- Writes the captured addresses into the record, from field `index` on. -/
def storeCaptures (recordType : MachineType) (record : ValueId) :
    (index : Nat) → List Capture → Lower Unit
  | _, [] => return ()
  | index, capture :: captures => do
    let field ← emit (.fieldPtr recordType record index)
    emitEffect (.store capture.ptr field)
    storeCaptures recordType record (index + 1) captures

/-- The data of a closure: the address of a filled record, or null. -/
def closureData (recordType : MachineType) (captures : List Capture)
    (self : Option (ValueId × Ty)) : Lower ValueId := do
  if captures.isEmpty && self.isNone then constant .null
  else
    let record ← emit (.alloca recordType "closure_data")
    storeCaptures recordType record 0 captures
    match self with
    | some (value, _) =>
      let field ← emit (.fieldPtr recordType record captures.length)
      emitEffect (.store value field)
    | none => pure ()
    return record

/-- Binds the captured variables inside the closure, from field `index` of the record on. -/
def bindCaptures (recordType : MachineType) (data : ValueId) :
    (index : Nat) → List Capture → Lower Unit
  | _, [] => return ()
  | index, capture :: captures => do
    let field ← emit (.fieldPtr recordType data index)
    let ptr ← emit (.load .ptr field)
    declare capture.name (.slot ptr capture.ty)
    bindCaptures recordType data (index + 1) captures

/-- Binds the captured `self` inside the closure. -/
def bindSelf (recordType : MachineType) (data : ValueId) (index : Nat) (ty : Ty) : Lower Unit := do
  let field ← emit (.fieldPtr recordType data index)
  let value ← emit (.load ((← types).flowType ty) field)
  setContext fun context =>
    { context with selfTy := ty, selfBinding := some (.value value ty) }

/-- Binds the parameters of a block that have an argument. -/
def bindBlockParams (loc : Location) : List BlockParam → List ValueId → Lower Unit
  | param :: params, value :: values => do
    bindParam param.name param.ty (some value) false loc
    bindBlockParams loc params values
  | _, _ => return ()

/-- The prototype of the function of a block: the closure data, then the parameters. -/
def blockPrototype (types : TypeTable) (name : String) (block : Block) : FnDecl where
  name := name
  params := .ptr :: block.params.map fun param => types.machineType param.ty
  ret := types.returnType block.body.ty
  conv := none
  variadic := false

variable (inner : Expr → Lower ValueId)

/-- Lowers the body of a closure and returns its value; `next` returns from the closure. -/
def closureBody (block : Block) : Lower Unit := do
  let next ← openJoin block.body.ty
  setContext fun context => { context with nextJoin := some next }
  let value ← inner block.body
  addToJoin next value block.body.ty
  match ← closeJoin next with
  | some value => emitReturn value block.body.ty block.body.ty
  | none => return ()

/-- Lowers the function of a closure, given its parameter values. -/
def closureFunction (name : String) (block : Block) (recordType : MachineType)
    (captures : List Capture) (self : Option (ValueId × Ty)) (values : List ValueId) :
    Lower Unit := do
  match values with
  | [] => throw (.backend (.noDataParameter name))
  | data :: values =>
    bindCaptures recordType data 0 captures
    match self with
    | some (_, ty) => bindSelf recordType data captures.length ty
    | none => pure ()
    let scope ← newScope (some (← context).scope)
    setContext fun context => { context with scope := scope }
    bindBlockParams block.body.loc block.params values
    closureBody inner block

/-- Runs a computation that moves the cursor and puts the cursor back after it. -/
def returningTo (resume : Option BlockId) (act : Lower α) : Lower α := fun env state =>
  match resume with
  | none => act env state
  | some block =>
    match act env state with
    | .ok result state => .ok result { state with code := state.code.position block }
    | .error error state => .error error { state with code := state.code.position block }

/-- Compiles a block into a function and answers the callable. -/
def materialize (block : Block) : Lower ValueId := do
  let name := (← context).fnName ++ "$block" ++ toString (← nextClosure)
  let captures ← block.captures.mapM (capture block.body.loc)
  let self ← captureSelf
  let recordType := captureRecord (← types) captures self
  let data ← closureData recordType captures self
  let func ← declareFn (blockPrototype (← types) name block)
  let resume ← cursor
  let values ← beginRoutine func
  let context ← freshContext name
  returningTo resume
    (withContext context (closureFunction inner name block recordType captures self values))
  report (.closureMade name)
  emit (.makeClosure func data)

end Lower

end CallLowering
