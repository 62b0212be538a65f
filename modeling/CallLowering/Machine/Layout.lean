import CallLowering.Language.TypeTable
import CallLowering.Machine.MachineType

/-!
# Representation of language types

How values of resolved types look in emitted code: `machineType` inside the program,
`instanceType` for the storage of a struct or class instance, `returnType` for results and
`foreignType` where a value crosses into foreign code. Both targets have eight-byte
pointers, so nothing here depends on the target.

Structs are laid out by expanding the structs inside them. A chain of nested structs never
holds more of them than the table declares, and expansion stops there.
-/

namespace CallLowering

/-- An instance of a class starts with its type tag. -/
def typeHeader : MachineType := .int 32

/-- A callable is a code pointer with a pointer to its closure data. -/
def closureType : MachineType := .struct [.ptr, .ptr]

mutual

/-- The representation of a type, given that of the named structs. -/
def Ty.represent (structType : String → MachineType) : Ty → MachineType
  | .nil => .struct []
  | .bool => .int 1
  | .char | .symbol | .metaclass _ => .int 32
  | .int bits _ => .int bits.toNat
  | .float bits => .float bits.toNat
  | .string | .object _ | .pointer _ => .ptr
  | .proc _ _ => closureType
  | .struct name => structType name
  | .union members =>
    .struct [.int 32, .array (.int 64) ((Ty.payloadSize structType members + 7) / 8)]
  | .program | .noReturn => .void

/-- The size of the largest representation among the members of a union. -/
def Ty.payloadSize (structType : String → MachineType) : List Ty → Nat
  | [] => 0
  | ty :: tys => max (ty.represent structType).size (Ty.payloadSize structType tys)

end

namespace TypeTable

/-- The storage of a struct, expanding at most `depth` nested ones. -/
def structTypeWithin (table : TypeTable) : (depth : Nat) → String → MachineType
  | 0, _ => .struct []
  | depth + 1, name =>
    .struct <| ((table.fieldsOf (.struct name)).getD []).map fun field =>
      field.ty.represent (table.structTypeWithin depth)

/-- The storage of a struct. -/
def structType (table : TypeTable) (name : String) : MachineType :=
  table.structTypeWithin table.structs.length name

/-- The representation of a type inside the program. -/
def machineType (table : TypeTable) (ty : Ty) : MachineType :=
  ty.represent table.structType

/-- The storage of a struct value or of a class instance. A class instance has its type tag
ahead of its fields. -/
def instanceType (table : TypeTable) (ty : Ty) : MachineType :=
  match ty with
  | .struct name => table.structType name
  | .object name =>
    .struct <| typeHeader :: ((table.fieldsOf (.object name)).getD []).map fun field =>
      table.machineType field.ty
  | _ => .struct []

/-- The position of the `index`th field inside the storage of an instance. -/
def fieldSlot (owner : Ty) (index : Nat) : Nat :=
  match owner with
  | .object _ => index + 1
  | _ => index

/-- The representation of a result; types without a value return nothing. -/
def returnType (table : TypeTable) : Ty → MachineType
  | .nil | .noReturn | .program => .void
  | ty => table.machineType ty

/-- The representation where a value crosses into foreign code: a callable is a bare code
pointer, and `nil` has none. -/
def foreignType (table : TypeTable) : Ty → MachineType
  | .proc _ _ => .ptr
  | .nil | .noReturn | .program => .void
  | ty => table.machineType ty

/-- The representation of a value as it flows through expressions; aggregates flow as
pointers to their storage. -/
def flowType (table : TypeTable) (ty : Ty) : MachineType :=
  if ty.passedByValue then .ptr else table.machineType ty

/-- The size of a value that crosses into foreign code. -/
def sizeOf (table : TypeTable) (ty : Ty) : Nat := (table.foreignType ty).size

/-- The alignment of a value that crosses into foreign code. -/
def alignOf (table : TypeTable) (ty : Ty) : Nat := (table.foreignType ty).align

/-- The scalars of a value that crosses into foreign code, with their byte offsets. -/
def leavesOf (table : TypeTable) (ty : Ty) : List (Nat × MachineType) :=
  (table.foreignType ty).leaves

end TypeTable

end CallLowering
