/-!
# Resolved types

`Ty` is the type that the resolver leaves on every expression, parameter and definition
owner. `Ty.merge` joins the types that may come out of several control paths: unions are
flattened one level, repetitions are dropped and `noReturn` vanishes.

Equality of types is decided by `Ty.beq`, which `Ty.beq_iff` ties to propositional equality.
-/

namespace CallLowering

/-- The resolved static type of an expression, a parameter or the owner of a definition. -/
inductive Ty where
  | nil
  | bool
  | char
  | symbol
  | string
  | int (bits : UInt32) (signed : Bool)
  | float (bits : UInt32)
  | pointer (pointee : Ty)
  /-- A first-class callable: a code pointer with its closure data. -/
  | proc (params : List Ty) (ret : Ty)
  /-- A value type, passed by value. -/
  | struct (name : String)
  /-- A reference to an instance of the named class. -/
  | object (name : String)
  /-- The type of a class itself; it has a tag and no run-time value. -/
  | metaclass (name : String)
  /-- A mixed union, stored as a tag with a payload and passed by value. -/
  | union (members : List Ty)
  /-- The owner of top-level definitions; never a receiver. -/
  | program
  | noReturn
  deriving Inhabited

namespace Ty

mutual

/-- Structural equality of types. -/
def beq : Ty → Ty → Bool
  | nil, nil => true
  | bool, bool => true
  | char, char => true
  | symbol, symbol => true
  | string, string => true
  | int bits signed, int bits' signed' => bits == bits' && signed == signed'
  | float bits, float bits' => bits == bits'
  | pointer pointee, pointer pointee' => beq pointee pointee'
  | proc params ret, proc params' ret' => beqList params params' && beq ret ret'
  | struct name, struct name' => name == name'
  | object name, object name' => name == name'
  | metaclass name, metaclass name' => name == name'
  | union members, union members' => beqList members members'
  | program, program => true
  | noReturn, noReturn => true
  | _, _ => false

/-- Structural equality of lists of types. -/
def beqList : List Ty → List Ty → Bool
  | [], [] => true
  | ty :: tys, ty' :: tys' => beq ty ty' && beqList tys tys'
  | _, _ => false

end

mutual

theorem beq_iff (a b : Ty) : beq a b = true ↔ a = b := by
  cases a <;> cases b <;> simp [beq]
  case pointer.pointer a b => exact beq_iff a b
  case proc.proc params ret params' ret' => simp [beqList_iff params params', beq_iff ret ret']
  case union.union members members' => exact beqList_iff members members'

theorem beqList_iff (as bs : List Ty) : beqList as bs = true ↔ as = bs := by
  cases as <;> cases bs <;> simp [beqList]
  case cons.cons a as b bs => simp [beq_iff a b, beqList_iff as bs]

end

instance : DecidableEq Ty := fun a b => decidable_of_iff (beq a b = true) (beq_iff a b)

/-- Whether the type is `nil`. -/
def isNil : Ty → Bool
  | nil => true
  | _ => false

/-- Whether an expression of the type never hands control on. -/
def isNoReturn : Ty → Bool
  | noReturn => true
  | _ => false

/-- Whether the type is a union. -/
def isUnion : Ty → Bool
  | union _ => true
  | _ => false

/-- Whether the type is a raw pointer. -/
def isPointer : Ty → Bool
  | pointer _ => true
  | _ => false

/-- Whether the type is a callable. -/
def isProc : Ty → Bool
  | proc _ _ => true
  | _ => false

/-- Whether the type is the 32-bit float. -/
def isFloat32 : Ty → Bool
  | float bits => bits == 32
  | _ => false

/-- Aggregates live in stack storage and are loaded when they are passed. -/
def passedByValue : Ty → Bool
  | struct _ | union _ => true
  | _ => false

/-- Whether a definition owned by the type receives `self`. -/
def passedAsSelf : Ty → Bool
  | program => false
  | _ => true

/-- Whether values of the type exist at run time at all. -/
def hasValue : Ty → Bool
  | program | noReturn | metaclass _ => false
  | _ => true

/-- The alternatives of a type: the members of a union, and otherwise the type alone. -/
def members : Ty → List Ty
  | union members => members
  | ty => [ty]

/-- What a type contributes to a merge: nothing for `noReturn`, the members of a union. -/
def contribution : Ty → List Ty
  | noReturn => []
  | union members => members
  | ty => [ty]

/-- Adds a type at the end of a list unless it is already there. -/
def insertNew (tys : List Ty) (ty : Ty) : List Ty :=
  if ty ∈ tys then tys else tys ++ [ty]

/-- The type with the given alternatives: none of them, the only one, or their union. -/
def ofMembers : List Ty → Ty
  | [] => noReturn
  | [ty] => ty
  | tys => union tys

/-- Merges several types into one. Unions are flattened one level, the first occurrence of
an alternative keeps its place, and `noReturn` vanishes. -/
def merge (tys : List Ty) : Ty :=
  ofMembers ((tys.flatMap contribution).foldl insertNew [])

mutual

/-- The text of a type in messages and in printed code. -/
def display : Ty → String
  | nil => "Nil"
  | bool => "Bool"
  | char => "Char"
  | symbol => "Symbol"
  | string => "String"
  | int bits true => "Int" ++ toString bits.toNat
  | int bits false => "UInt" ++ toString bits.toNat
  | float bits => "Float" ++ toString bits.toNat
  | pointer pointee => "Pointer(" ++ display pointee ++ ")"
  | proc params ret => "Proc(" ++ String.join (displayParams params) ++ display ret ++ ")"
  | struct name => name
  | object name => name
  | metaclass name => name ++ ".class"
  | union members => " | ".intercalate (displayAll members)
  | program => "<Program>"
  | noReturn => "NoReturn"

/-- The texts of several types. -/
def displayAll : List Ty → List String
  | [] => []
  | ty :: tys => display ty :: displayAll tys

/-- The texts of the parameters of a callable, each with the separator after it. -/
def displayParams : List Ty → List String
  | [] => []
  | ty :: tys => (display ty ++ ", ") :: displayParams tys

end

end Ty

end CallLowering
