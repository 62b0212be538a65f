import CallLowering.Code.Recording
import CallLowering.Text.Decimal
import CallLowering.Text.Quoted

/-!
# Printed code

The text of recorded code: one function after another with an empty line between them, each
block under its label and number. Constants are written where they are used.
-/

namespace CallLowering

/-- Floats in printed code never have an exponent, and whole ones no fraction. -/
def Constant.floatStyle : Decimal.Style := ⟨false, false⟩

/-- The text of a constant where it is used. -/
def Constant.display : Constant → String
  | .int bits value => "i" ++ toString bits.toNat ++ " " ++ toString value.toInt
  | .float bits value =>
    "f" ++ toString bits.toNat ++ " " ++ Decimal.render Constant.floatStyle value
  | .str text => Quoted.quote text
  | .symbol name => ":" ++ name
  | .null => "null"
  | .nil => "nil"
  | .typeTag tag => "tag " ++ toString tag

/-- The keyword of a convention with a blank after it, if there is one. -/
def CallConv.keyword : Option CallConv → String
  | some conv => conv.display ++ " "
  | none => ""

namespace Recording

/-- The text of a value where it is used. -/
def displayValue (code : Recording) (value : ValueId) : String :=
  match code.value? value with
  | some (.const constant) => constant.display
  | some (.global name) => "@" ++ name
  | _ => "%" ++ toString value.index

/-- The text of an argument list. -/
def displayArgs (code : Recording) (args : List ValueId) : String :=
  ", ".intercalate (args.map code.displayValue)

/-- A block as its label and number. -/
def blockName (code : Recording) (block : BlockId) : String :=
  code.label block ++ "." ++ toString block.index

/-- The text of a block where it is used. -/
def displayBlock (code : Recording) (block : BlockId) : String := "%" ++ code.blockName block

/-- The text of an operation. -/
def displayOp (code : Recording) : Operation → String
  | .alloca ty name => "alloca " ++ ty.display ++ " ; " ++ name
  | .load ty ptr => "load " ++ ty.display ++ ", " ++ code.displayValue ptr
  | .store value ptr => "store " ++ code.displayValue value ++ ", " ++ code.displayValue ptr
  | .copy dst src size align =>
    "copy " ++ code.displayValue dst ++ ", " ++ code.displayValue src ++ ", size " ++
      toString size ++ ", align " ++ toString align
  | .fieldPtr ty ptr index =>
    "field_ptr " ++ ty.display ++ ", " ++ code.displayValue ptr ++ ", " ++ toString index
  | .extractValue ty value index =>
    "extractvalue " ++ ty.display ++ " " ++ code.displayValue value ++ ", " ++ toString index
  | .cast kind value dest =>
    kind.display ++ " " ++ code.displayValue value ++ " to " ++ dest.display
  | .convert value source dest =>
    "convert " ++ code.displayValue value ++ " from " ++ source.display ++ " to " ++ dest.display
  | .typeId value ty => "type_id " ++ code.displayValue value ++ " : " ++ ty.display
  | .matchTypeTag declared candidate tag =>
    "match_type_tag " ++ code.displayValue tag ++ " : " ++ declared.display ++ " is " ++
      candidate.display
  | .and lhs rhs => "and " ++ code.displayValue lhs ++ ", " ++ code.displayValue rhs
  | .phi ty incoming =>
    "phi " ++ ty.display ++ " " ++ ", ".intercalate (incoming.map fun arm =>
      "[" ++ code.displayValue arm.1 ++ ", " ++ code.displayBlock arm.2 ++ "]")
  | .call func args conv =>
    "call " ++ CallConv.keyword conv ++ "@" ++ code.funcName func ++ "(" ++
      code.displayArgs args ++ ")"
  | .invoke func args normal handler conv =>
    "invoke " ++ CallConv.keyword conv ++ "@" ++ code.funcName func ++ "(" ++
      code.displayArgs args ++ ") to " ++ code.displayBlock normal ++ " unwind " ++
      code.displayBlock handler
  | .landingPad => "landingpad catch-all"
  | .makeClosure func data =>
    "closure @" ++ code.funcName func ++ ", " ++ code.displayValue data
  | .br target => "br " ++ code.displayBlock target
  | .condBr cond yes no =>
    "br " ++ code.displayValue cond ++ ", " ++ code.displayBlock yes ++ ", " ++
      code.displayBlock no
  | .unreachable => "unreachable"
  | .ret (some value) => "ret " ++ code.displayValue value
  | .ret none => "ret void"

/-- The line of an instruction. -/
def displayInstruction (code : Recording) (instruction : Instruction) : String :=
  let op := code.displayOp instruction.op
  match instruction.result with
  | some result => "  %" ++ toString result.index ++ " = " ++ op ++ "\n"
  | none => "  " ++ op ++ "\n"

/-- The lines of a block. -/
def displayBasicBlock (code : Recording) (block : BlockId) : String :=
  code.blockName block ++ ":\n" ++
    String.join ((code.instructionsOf block).map code.displayInstruction)

/-- The text of a function. -/
def displayRoutine (code : Recording) (routine : Routine) : String :=
  let decl := routine.decl
  let head := (if routine.isDefined then "define " else "declare ") ++
    CallConv.keyword decl.conv ++ decl.ret.display ++ " @" ++ decl.name ++ "(" ++
    ", ".intercalate (decl.params.map MachineType.display) ++
    (if decl.variadic then ", ..." else "") ++ ")"
  if routine.isDefined then
    head ++ " \x7b\n" ++ String.join (routine.blocks.toList.map code.displayBasicBlock) ++
      "\x7d\n"
  else head ++ "\n"

/-- The text of the function with a number. -/
def displayFunc (code : Recording) (func : FuncId) : String :=
  match code.routine? func with
  | some routine => code.displayRoutine routine
  | none => ""

/-- The text of everything recorded. -/
def display (code : Recording) : String :=
  "\n".intercalate (code.routines.toList.map code.displayRoutine)

end Recording

end CallLowering
