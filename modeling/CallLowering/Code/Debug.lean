import CallLowering.Code.Operation
import CallLowering.Text.Decimal
import CallLowering.Text.Quoted

/-!
# Debug text

The full structure of types, constants and operations as text, for messages about the code
itself. A constructor is written with its arguments in parentheses or, where they have names,
in braces.
-/

namespace CallLowering

namespace Debug

/-- A constructor with unnamed arguments. -/
def tuple (name : String) (args : List String) : String :=
  name ++ "(" ++ ", ".intercalate args ++ ")"

/-- A constructor with named arguments. -/
def record (name : String) (fields : List (String × String)) : String :=
  name ++ " \x7b " ++ ", ".intercalate (fields.map fun field => field.1 ++ ": " ++ field.2) ++
    " \x7d"

/-- A list. -/
def list (items : List String) : String := "[" ++ ", ".intercalate items ++ "]"

/-- An optional value. -/
def option (text : α → String) : Option α → String
  | some value => tuple "Some" [text value]
  | none => "None"

/-- A truth value. -/
def bool (value : Bool) : String := if value then "true" else "false"

/-- Floats keep a fraction and have an exponent where they are very small or very large. -/
def floatStyle : Decimal.Style := ⟨true, true⟩

end Debug

/-- The debug text of a value number. -/
def ValueId.debug (value : ValueId) : String := Debug.tuple "ValueId" [toString value.index]

/-- The debug text of a block number. -/
def BlockId.debug (block : BlockId) : String := Debug.tuple "BlockId" [toString block.index]

/-- The debug text of a function number. -/
def FuncId.debug (func : FuncId) : String := Debug.tuple "FuncId" [toString func.index]

mutual

/-- The debug text of a type. -/
def Ty.debug : Ty → String
  | .nil => "Nil"
  | .bool => "Bool"
  | .char => "Char"
  | .symbol => "Symbol"
  | .string => "String"
  | .int bits signed =>
    Debug.record "Int" [("bits", toString bits.toNat), ("signed", Debug.bool signed)]
  | .float bits => Debug.record "Float" [("bits", toString bits.toNat)]
  | .pointer pointee => Debug.tuple "Pointer" [pointee.debug]
  | .proc params ret =>
    Debug.record "Proc" [("params", Debug.list (Ty.debugAll params)), ("ret", ret.debug)]
  | .struct name => Debug.tuple "Struct" [Quoted.quote name]
  | .object name => Debug.tuple "Class" [Quoted.quote name]
  | .metaclass name => Debug.tuple "Metaclass" [Quoted.quote name]
  | .union members => Debug.tuple "Union" [Debug.list (Ty.debugAll members)]
  | .program => "Program"
  | .noReturn => "NoReturn"

/-- The debug texts of several types. -/
def Ty.debugAll : List Ty → List String
  | [] => []
  | ty :: tys => ty.debug :: Ty.debugAll tys

end

mutual

/-- The debug text of a machine type. -/
def MachineType.debug : MachineType → String
  | .void => "Void"
  | .int bits => Debug.tuple "Int" [toString bits]
  | .float bits => Debug.tuple "Float" [toString bits]
  | .ptr => "Ptr"
  | .struct fields => Debug.tuple "Struct" [Debug.list (MachineType.debugAll fields)]
  | .array elem len => Debug.tuple "Array" [elem.debug, toString len]
  | .vector elem len => Debug.tuple "Vector" [elem.debug, toString len]

/-- The debug texts of several machine types. -/
def MachineType.debugAll : List MachineType → List String
  | [] => []
  | ty :: tys => ty.debug :: MachineType.debugAll tys

end

/-- The debug text of a convention. -/
def CallConv.debug : CallConv → String
  | .c => "C"
  | .fast => "Fast"
  | .stdCall => "StdCall"
  | .x86_64SysV => "X86_64SysV"
  | .win64 => "Win64"

/-- The debug text of a widening. -/
def CastKind.debug : CastKind → String
  | .sext => "SExt"
  | .zext => "ZExt"
  | .fpext => "FpExt"

/-- The debug text of a constant. -/
def Constant.debug : Constant → String
  | .int bits value =>
    Debug.record "Int" [("bits", toString bits.toNat), ("value", toString value.toInt)]
  | .float bits value =>
    Debug.record "Float"
      [("bits", toString bits.toNat), ("value", Decimal.render Debug.floatStyle value)]
  | .str text => Debug.tuple "Str" [Quoted.quote text]
  | .symbol name => Debug.tuple "Symbol" [Quoted.quote name]
  | .null => "Null"
  | .nil => "Nil"
  | .typeTag tag => Debug.tuple "TypeTag" [toString tag]

/-- The debug text of an operation. -/
def Operation.debug : Operation → String
  | .alloca ty name => Debug.record "Alloca" [("ty", ty.debug), ("name", Quoted.quote name)]
  | .load ty ptr => Debug.record "Load" [("ty", ty.debug), ("ptr", ptr.debug)]
  | .store value ptr => Debug.record "Store" [("value", value.debug), ("ptr", ptr.debug)]
  | .copy dst src size align =>
    Debug.record "Copy" [("dst", dst.debug), ("src", src.debug), ("size", toString size),
      ("align", toString align)]
  | .fieldPtr ty ptr index =>
    Debug.record "FieldPtr" [("ty", ty.debug), ("ptr", ptr.debug), ("index", toString index)]
  | .extractValue ty value index =>
    Debug.record "ExtractValue"
      [("ty", ty.debug), ("value", value.debug), ("index", toString index)]
  | .cast kind value dest =>
    Debug.record "Cast" [("kind", kind.debug), ("value", value.debug), ("to", dest.debug)]
  | .convert value source dest =>
    Debug.record "Convert" [("value", value.debug), ("from", source.debug), ("to", dest.debug)]
  | .typeId value ty => Debug.record "TypeId" [("value", value.debug), ("ty", ty.debug)]
  | .matchTypeTag declared candidate tag =>
    Debug.record "MatchTypeTag"
      [("declared", declared.debug), ("candidate", candidate.debug), ("tag", tag.debug)]
  | .and lhs rhs => Debug.record "And" [("lhs", lhs.debug), ("rhs", rhs.debug)]
  | .phi ty incoming =>
    Debug.record "Phi" [("ty", ty.debug),
      ("incoming", Debug.list (incoming.map fun arm =>
        Debug.tuple "" [arm.1.debug, arm.2.debug]))]
  | .call func args conv =>
    Debug.record "Call" [("func", func.debug), ("args", Debug.list (args.map ValueId.debug)),
      ("conv", Debug.option CallConv.debug conv)]
  | .invoke func args normal handler conv =>
    Debug.record "Invoke" [("func", func.debug), ("args", Debug.list (args.map ValueId.debug)),
      ("normal", normal.debug), ("handler", handler.debug),
      ("conv", Debug.option CallConv.debug conv)]
  | .landingPad => "LandingPad"
  | .makeClosure func data =>
    Debug.record "MakeClosure" [("func", func.debug), ("data", data.debug)]
  | .br target => Debug.tuple "Br" [target.debug]
  | .condBr cond yes no =>
    Debug.record "CondBr" [("cond", cond.debug), ("then", yes.debug), ("otherwise", no.debug)]
  | .unreachable => "Unreachable"
  | .ret value => Debug.tuple "Ret" [Debug.option ValueId.debug value]

end CallLowering
