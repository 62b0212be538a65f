import CallLowering.Code.Operation
import CallLowering.Machine.ArgClass

/-!
# Recorded code

A `Recording` holds everything that has been emitted: the functions with their blocks, the
instructions of each block, and where every value comes from. New instructions go to the end
of the block at the cursor, and nothing can follow a terminator. Functions and the variables of
the module are found by name in tables of their own.

Recordings only grow.
-/

namespace CallLowering

/-- An operation with the value it produces. -/
structure Instruction where
  result : Option ValueId
  op : Operation

/-- A block of a function. -/
structure BasicBlock where
  label : String
  func : FuncId
  instructions : Array Instruction

namespace BasicBlock

/-- The operation that ends the block, once there is one. -/
def terminator? (block : BasicBlock) : Option Operation :=
  match block.instructions.back? with
  | some instruction => if instruction.op.isTerminator then some instruction.op else none
  | none => none

end BasicBlock

/-- A declared function; it has a body once it has blocks. -/
structure Routine where
  decl : FnDecl
  blocks : Array BlockId
  params : List ValueId

/-- Whether the function has a body. -/
def Routine.isDefined (routine : Routine) : Bool := !routine.blocks.isEmpty

/-- Where a value comes from. -/
inductive ValueSource where
  | const (constant : Constant)
  | param (func : FuncId) (index : Nat)
  | global (name : String)
  | result (block : BlockId)

/-- Why recording an operation was refused. -/
inductive RecordError where
  | noInsertionPoint
  | afterTerminator (op terminator : Operation) (label : String)
  | alreadyDefined (name : String)
  | noResult

/-- All code emitted so far. -/
structure Recording where
  target : Target
  types : TypeTable
  routines : Array Routine
  /-- The functions by their names. -/
  byName : List (String × FuncId)
  blocks : Array BasicBlock
  values : Array ValueSource
  /-- The addresses of the variables of the module by their names. -/
  globals : List (String × ValueId)
  cursor : Option BlockId

namespace Recording

/-- The recording before anything is emitted. -/
def empty (target : Target) (types : TypeTable) : Recording where
  target := target
  types := types
  routines := #[]
  byName := []
  blocks := #[]
  values := #[]
  globals := []
  cursor := none

/-- The function with a number. -/
def routine? (code : Recording) (func : FuncId) : Option Routine := code.routines[func.index]?

/-- The block with a number. -/
def block? (code : Recording) (block : BlockId) : Option BasicBlock := code.blocks[block.index]?

/-- The source of the value with a number. -/
def value? (code : Recording) (value : ValueId) : Option ValueSource := code.values[value.index]?

/-- The numbers of all functions, in the order of declaration. -/
def funcIds (code : Recording) : List FuncId :=
  (List.range code.routines.size).map FuncId.mk

/-- The function declared under a name. -/
def funcNamed? (code : Recording) (name : String) : Option FuncId := code.byName.lookup name

/-- The address of the variable with a name, once it was asked for. -/
def globalNamed? (code : Recording) (name : String) : Option ValueId := code.globals.lookup name

/-- The name of a function. -/
def funcName (code : Recording) (func : FuncId) : String :=
  match code.routine? func with
  | some routine => routine.decl.name
  | none => ""

/-- The label of a block. -/
def label (code : Recording) (block : BlockId) : String :=
  match code.block? block with
  | some block => block.label
  | none => ""

/-- The blocks of a function, in the order of creation. -/
def blocksOf (code : Recording) (func : FuncId) : List BlockId :=
  match code.routine? func with
  | some routine => routine.blocks.toList
  | none => []

/-- The instructions of a block. -/
def instructionsOf (code : Recording) (block : BlockId) : List Instruction :=
  match code.block? block with
  | some block => block.instructions.toList
  | none => []

/-- The operation that ends a block, once there is one. -/
def terminator? (code : Recording) (block : BlockId) : Option Operation :=
  (code.block? block).bind BasicBlock.terminator?

/-- The constant that a value is. -/
def constant? (code : Recording) (value : ValueId) : Option Constant :=
  match code.value? value with
  | some (.const constant) => some constant
  | _ => none

/-- The operation that produced a value. -/
def definingOp? (code : Recording) (value : ValueId) : Option Operation :=
  match code.value? value with
  | some (.result block) =>
    ((code.instructionsOf block).find? (·.result == some value)).map (·.op)
  | _ => none

/-- All instructions of a function, block by block. -/
def instructionsIn (code : Recording) (func : FuncId) : List Instruction :=
  (code.blocksOf func).flatMap code.instructionsOf

/-- The names of the functions that a function calls, block by block. -/
def callees (code : Recording) (func : FuncId) : List String :=
  ((code.instructionsIn func).filterMap (·.op.callee?)).map code.funcName

/-- How often a function calls the function with a name. -/
def countCalls (code : Recording) (func : FuncId) (callee : String) : Nat :=
  (code.callees func).count callee

/-- Whether the block at the cursor has ended. -/
def isTerminated (code : Recording) : Bool :=
  match code.cursor with
  | some block => (code.terminator? block).isSome
  | none => false

/-- The classification of a foreign prototype for the target. -/
def classify (code : Recording) (signature : Signature) : Classification :=
  signature.classify code.target code.types

/-- A new value. -/
def addValue (code : Recording) (source : ValueSource) : ValueId × Recording :=
  (⟨code.values.size⟩, { code with values := code.values.push source })

/-- A new value for a constant. -/
def addConstant (code : Recording) (constant : Constant) : ValueId × Recording :=
  code.addValue (.const constant)

/-- The address of a variable of the module; the same one each time. -/
def addGlobal (code : Recording) (name : String) : ValueId × Recording :=
  match code.globalNamed? name with
  | some value => (value, code)
  | none =>
    let (value, code) := code.addValue (.global name)
    (value, { code with globals := (name, value) :: code.globals })

/-- Moves the cursor to the end of a block. -/
def position (code : Recording) (block : BlockId) : Recording :=
  { code with cursor := some block }

/-- Puts an instruction at the end of a block. -/
def appendTo (code : Recording) (block : BlockId) (instruction : Instruction) : Recording :=
  { code with
    blocks := code.blocks.modify block.index fun data =>
      { data with instructions := data.instructions.push instruction } }

/-- Declares a function, unless there is one with its name. -/
def declare (code : Recording) (decl : FnDecl) : FuncId × Recording :=
  match code.funcNamed? decl.name with
  | some func => (func, code)
  | none =>
    let func : FuncId := ⟨code.routines.size⟩
    (func,
      { code with
        routines := code.routines.push ⟨decl, #[], []⟩
        byName := (decl.name, func) :: code.byName })

/-- A new block at the end of a function. -/
def appendBlock (code : Recording) (func : FuncId) (label : String) : BlockId × Recording :=
  let block : BlockId := ⟨code.blocks.size⟩
  (block,
    { code with
      blocks := code.blocks.push ⟨label, func, #[]⟩
      routines := code.routines.modify func.index fun routine =>
        { routine with blocks := routine.blocks.push block } })

/-- Notes the values of the parameters of a function. -/
def withParams (code : Recording) (func : FuncId) (params : List ValueId) : Recording :=
  { code with
    routines := code.routines.modify func.index fun routine => { routine with params := params } }

end Recording

end CallLowering
