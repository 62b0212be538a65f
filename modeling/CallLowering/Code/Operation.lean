import CallLowering.Language.Ty
import CallLowering.Machine.CallConv
import CallLowering.Machine.MachineType

/-!
# Operations of emitted code

The vocabulary of emitted code: numbered values, blocks and functions, constants, and the
operations that blocks are made of. A terminator ends a block and names the blocks that may
follow it.
-/

namespace CallLowering

/-- The number of a value. -/
structure ValueId where
  index : Nat
  deriving DecidableEq, Inhabited

/-- The number of a block. -/
structure BlockId where
  index : Nat
  deriving DecidableEq, Inhabited

/-- The number of a function. -/
structure FuncId where
  index : Nat
  deriving DecidableEq, Inhabited

/-- A value known at compile time. -/
inductive Constant where
  | int (bits : UInt32) (value : Int64)
  | float (bits : UInt32) (value : Float)
  | str (text : String)
  | symbol (name : String)
  | null
  /-- The placeholder for `nil` and for values that nobody reads. -/
  | nil
  | typeTag (tag : Nat)

namespace Constant

/-- A truth value as a one-bit integer. -/
def ofBool (value : Bool) : Constant := .int 1 (if value then 1 else 0)

/-- A character as its code point. -/
def ofChar (c : Char) : Constant := .int 32 (Int64.ofNat c.toNat)

end Constant

/-- A widening of a scalar. -/
inductive CastKind where
  | sext
  | zext
  | fpext
  deriving DecidableEq, Inhabited

/-- The keyword of a widening. -/
def CastKind.display : CastKind → String
  | sext => "sext"
  | zext => "zext"
  | fpext => "fpext"

/-- What an instruction does. -/
inductive Operation where
  /-- Reserves stack storage; the name is a comment. -/
  | alloca (ty : MachineType) (name : String)
  | load (ty : MachineType) (ptr : ValueId)
  | store (value ptr : ValueId)
  /-- Copies bytes between two addresses of the given alignment. -/
  | copy (dst src : ValueId) (size align : Nat)
  | fieldPtr (ty : MachineType) (ptr : ValueId) (index : Nat)
  | extractValue (ty : MachineType) (value : ValueId) (index : Nat)
  | cast (kind : CastKind) (value : ValueId) (dest : MachineType)
  /-- Changes the representation from one language type to another. -/
  | convert (value : ValueId) (source dest : Ty)
  /-- Reads the run-time tag of a value. -/
  | typeId (value : ValueId) (ty : Ty)
  /-- Tests whether a tag of a value declared as one type names a type that fits another. -/
  | matchTypeTag (declared candidate : Ty) (tag : ValueId)
  | and (lhs rhs : ValueId)
  | phi (ty : MachineType) (incoming : List (ValueId × BlockId))
  | call (func : FuncId) (args : List ValueId) (conv : Option CallConv)
  /-- Calls and goes on at `normal`, or at `handler` if the callee raises. -/
  | invoke (func : FuncId) (args : List ValueId) (normal handler : BlockId)
      (conv : Option CallConv)
  | landingPad
  | makeClosure (func : FuncId) (data : ValueId)
  | br (target : BlockId)
  | condBr (cond : ValueId) (yes no : BlockId)
  | unreachable
  | ret (value : Option ValueId)

namespace Operation

/-- Whether the operation ends its block. -/
def isTerminator : Operation → Bool
  | invoke .. | br _ | condBr .. | unreachable | ret _ => true
  | _ => false

/-- Whether the operation has a result. -/
def hasResult : Operation → Bool
  | store .. | copy .. | br _ | condBr .. | unreachable | ret _ => false
  | _ => true

/-- The blocks that may follow the operation. -/
def successors : Operation → List BlockId
  | invoke _ _ normal handler _ => [normal, handler]
  | br target => [target]
  | condBr _ yes no => [yes, no]
  | _ => []

/-- The function that the operation calls. -/
def callee? : Operation → Option FuncId
  | call func _ _ => some func
  | invoke func _ _ _ _ => some func
  | _ => none

end Operation

/-- The name and prototype of a function. -/
structure FnDecl where
  name : String
  params : List MachineType
  ret : MachineType
  conv : Option CallConv
  variadic : Bool
  deriving DecidableEq

end CallLowering
