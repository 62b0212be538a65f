import CallLowering.Code.Recording

/-!
# Emitting code

`Emit` threads a recording through a sequence of operations. A refused operation stops the
sequence; what was recorded before it stays, whether by earlier operations or by itself.
-/

namespace CallLowering

/-- A computation that records code. -/
abbrev Emit := EStateM RecordError Recording

namespace Emit

/-- Runs an operation on the recording that cannot be refused. -/
def update (change : Recording → α × Recording) : Emit α := fun code =>
  match change code with
  | (result, code) => .ok result code

/-- A new value. -/
def mint (source : ValueSource) : Emit ValueId := update (·.addValue source)

/-- The block where an operation is to be recorded. -/
def insertionPoint (op : Operation) : Emit BlockId := do
  let code ← get
  match code.cursor with
  | none => throw .noInsertionPoint
  | some block =>
    match code.terminator? block with
    | some terminator => throw (.afterTerminator op terminator (code.label block))
    | none => return block

/-- Records an operation at the cursor. The value it produces, if it has a result, is new. -/
def push (op : Operation) : Emit (Option ValueId) := do
  let block ← insertionPoint op
  let result ← if op.hasResult then some <$> mint (.result block) else pure none
  modify (·.appendTo block ⟨result, op⟩)
  return result

/-- Records an operation that produces a value. -/
def value (op : Operation) : Emit ValueId := do
  let block ← insertionPoint op
  unless op.hasResult do throw .noResult
  let value ← mint (.result block)
  modify (·.appendTo block ⟨some value, op⟩)
  return value

/-- Records an operation for its effect. -/
def effect (op : Operation) : Emit Unit := discard (push op)

/-- A new value for a constant. -/
def constant (value : Constant) : Emit ValueId := mint (.const value)

/-- The address of a variable of the module. -/
def global (name : String) : Emit ValueId := update (·.addGlobal name)

/-- Declares a function. -/
def declare (decl : FnDecl) : Emit FuncId := update (·.declare decl)

/-- New values for the parameters of a function from `index` on, `count` of them. -/
def mintParams (func : FuncId) : (count index : Nat) → Emit (List ValueId)
  | 0, _ => return []
  | count + 1, index => do
    let value ← mint (.param func index)
    return value :: (← mintParams func count (index + 1))

/-- Gives a function its body: an entry block, with the cursor there, and a value for every
parameter. -/
def beginRoutine (func : FuncId) : Emit (List ValueId) := do
  match (← get).routine? func with
  | none => throw .noInsertionPoint
  | some routine =>
    if routine.isDefined then throw (.alreadyDefined routine.decl.name)
    let params ← mintParams func routine.decl.params.length 0
    modify (·.withParams func params)
    let entry ← update (·.appendBlock func "entry")
    modify (·.position entry)
    return params

/-- A new block of the function at the cursor. -/
def newBlock (label : String) : Emit BlockId := do
  let code ← get
  match code.cursor.bind code.block? with
  | none => throw .noInsertionPoint
  | some block => update (·.appendBlock block.func label)

/-- Moves the cursor to the end of a block. -/
def position (block : BlockId) : Emit Unit := update fun code => ((), code.position block)

/-- The block at the cursor. -/
def cursor : Emit (Option BlockId) := update fun code => (code.cursor, code)

/-- Whether the block at the cursor has ended. -/
def isTerminated : Emit Bool := update fun code => (code.isTerminated, code)

end Emit

end CallLowering
