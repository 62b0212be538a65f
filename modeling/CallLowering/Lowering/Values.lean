import CallLowering.Lowering.Context

/-!
# Values in emitted code

How values are read from and written to storage and converted between types. Aggregates
live in storage and flow as pointers to it; `nil` is never stored.
-/

namespace CallLowering

namespace Lower

/-- An integer constant as wide as its type, or of 32 bits if the type is no integer. -/
def intConstant (ty : Ty) (value : Int64) : Lower ValueId :=
  match ty with
  | .int bits _ => constant (.int bits value)
  | _ => constant (.int 32 value)

/-- A float constant as wide as its type, or of 64 bits if the type is no float. -/
def floatConstant (ty : Ty) (value : Float) : Lower ValueId :=
  match ty with
  | .float bits => constant (.float bits value)
  | _ => constant (.float 64 value)

/-- The run-time tag of a type as a constant. -/
def tagConstant (ty : Ty) (loc : Location) : Lower ValueId := do
  let tag ← orFault ((← types).tag? ty) (.noRuntimeTag ty) loc
  constant (.typeTag tag)

/-- Converts a value from one type to another. Nothing happens where nothing has to change,
where the target has no value of its own, or where control has already left the block. -/
def coerce (value : ValueId) (source dest : Ty) : Lower ValueId := do
  if source == dest then return value
  else if ← isTerminated then return value
  else if source.isNoReturn || !dest.hasValue || dest.isNil then return value
  else emit (.convert value source dest)

/-- Reads storage of a type. -/
def loadSlot (ptr : ValueId) (ty : Ty) : Lower ValueId := do
  if ty.passedByValue then return ptr
  else if ty.isNil then nilValue
  else emit (.load ((← types).machineType ty) ptr)

/-- Writes storage of a type. -/
def storeSlot (value ptr : ValueId) (ty : Ty) : Lower Unit := do
  if ty.passedByValue then
    let machineType := (← types).machineType ty
    emitEffect (.copy ptr value machineType.size machineType.align)
  else if ty.isNil then return ()
  else emitEffect (.store value ptr)

/-- New storage that holds a value. -/
def spill (value : ValueId) (ty : Ty) (name : String) : Lower ValueId := do
  let slot ← emit (.alloca ((← types).machineType ty) name)
  storeSlot value slot ty
  return slot

/-- Reads a bound variable. -/
def readBinding : Binding → Lower ValueId
  | .value value _ => return value
  | .slot ptr ty => loadSlot ptr ty

/-- The address of a field of the instance at a pointer, with the type of the field. -/
def fieldAddress (owner : Ty) (ptr : ValueId) (name : String) (loc : Location) :
    Lower (ValueId × Ty) := do
  let types ← types
  let (index, field) ← orFault (types.fieldIndex? owner name) (.noField owner name) loc
  let address ← emit (.fieldPtr (types.instanceType owner) ptr (TypeTable.fieldSlot owner index))
  return (address, field.ty)

/-- The value of a field of the instance at a pointer, with its type. -/
def loadField (owner : Ty) (ptr : ValueId) (name : String) (loc : Location) :
    Lower (ValueId × Ty) := do
  let (address, ty) ← fieldAddress owner ptr name loc
  return (← loadSlot address ty, ty)

/-- The present `self` as a pointer to the instance, with its type. -/
def selfInstance (loc : Location) : Lower (Ty × ValueId) := do
  let binding ← orFault (← context).selfBinding .noSelf loc
  return (binding.ty, ← readBinding binding)

/-- Returns a value from the current function, whose declared result type is `ret`. -/
def emitReturn (value : ValueId) (source ret : Ty) : Lower Unit := do
  if ← isTerminated then return ()
  else if ret.isNoReturn then emitEffect .unreachable
  else if (← types).returnType ret == .void then emitEffect (.ret none)
  else
    let value ← coerce value source ret
    if ret.passedByValue then
      let loaded ← emit (.load ((← types).machineType ret) value)
      emitEffect (.ret (some loaded))
    else emitEffect (.ret (some value))

end Lower

end CallLowering
