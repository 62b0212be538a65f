import CallLowering.Code.Emit

/-!
# Join points

A join point gathers the control paths of one construct. Each path hands over its value,
which is converted to the type of the join point, and branches to a common exit block.
Closing the join point puts the cursor into that block and answers a phi over the values, or
the `nil` placeholder when nobody needs the value.
-/

namespace CallLowering

/-- The place where the paths of a construct meet. -/
structure JoinPoint where
  ty : Ty
  machineType : MachineType
  needsValue : Bool
  /-- The common exit block, once a path has reached it. -/
  exit : Option BlockId
  incoming : List (ValueId × BlockId)

namespace JoinPoint

/-- A join point that no path has reached. -/
def fresh (ty : Ty) (machineType : MachineType) (needsValue : Bool) : JoinPoint where
  ty := ty
  machineType := machineType
  needsValue := needsValue
  exit := none
  incoming := []

/-- Whether the values of the paths are kept. -/
def materializes (join : JoinPoint) : Bool :=
  join.needsValue && join.ty.hasValue && !join.ty.isNil

/-- Whether a path has reached the join point. -/
def isReached (join : JoinPoint) : Bool := join.exit.isSome

/-- Takes in the value of the path at the cursor, converted to the type of the join point. -/
def receive (join : JoinPoint) (value : ValueId) (ty : Ty) : Emit JoinPoint := do
  if join.materializes then
    let value ← if ty == join.ty then pure value else Emit.value (.convert value ty join.ty)
    match ← Emit.cursor with
    | none => throw .noInsertionPoint
    | some block => return { join with incoming := join.incoming ++ [(value, block)] }
  else return join

/-- The exit block, created when the first path arrives. -/
def openExit (join : JoinPoint) : Emit (BlockId × JoinPoint) := do
  match join.exit with
  | some exit => return (exit, join)
  | none =>
    let exit ← Emit.newBlock "merge"
    return (exit, { join with exit := some exit })

/-- Ends the path at the cursor in the join point. A path that has already left its block, or
never produces a value, contributes nothing. -/
def add (join : JoinPoint) (value : ValueId) (ty : Ty) : Emit JoinPoint := do
  if ← Emit.isTerminated then return join
  else if ty.isNoReturn then return join
  else
    let join ← join.receive value ty
    let (exit, join) ← join.openExit
    Emit.effect (.br exit)
    return join

/-- Closes the join point. When no path has reached it there is no value, and the block at
the cursor ends as unreachable. -/
def close (join : JoinPoint) : Emit (Option ValueId) := do
  match join.exit with
  | none =>
    if ← Emit.isTerminated then return none
    else
      Emit.effect .unreachable
      return none
  | some exit =>
    Emit.position exit
    if join.materializes then return some (← Emit.value (.phi join.machineType join.incoming))
    else return some (← Emit.constant .nil)

end JoinPoint

end CallLowering
