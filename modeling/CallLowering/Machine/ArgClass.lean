import CallLowering.Machine.CallConv
import CallLowering.Machine.Layout

/-!
# How values cross into foreign code

`classify` decides for a foreign prototype how each argument and the result travel, as a C
compiler does for the same prototype: scalars go as they are, small aggregates are coerced to
register types, large ones go through memory, and values without bytes vanish.

On x86-64 every eight bytes of a small aggregate are a float register if they hold floats
only, and an integer register otherwise. On AArch64 up to four equal floats go in float
registers whatever their size; any other small aggregate goes in one or two integer registers.
-/

namespace CallLowering

/-- How a value travels. -/
inductive PassKind where
  /-- As it is, or reinterpreted as a register type. -/
  | direct
  /-- Through memory of the caller. -/
  | indirect
  /-- Not at all. -/
  | ignore
  deriving DecidableEq, Inhabited

/-- The classification of one argument or result. -/
structure ArgClass where
  kind : PassKind
  /-- The representation of the value itself. -/
  ty : MachineType
  /-- The register type that the value is reinterpreted as. -/
  cast : Option MachineType
  size : Nat
  align : Nat
  deriving DecidableEq, Inhabited

/-- The type of the value in the foreign call instruction. -/
def ArgClass.nativeType (cls : ArgClass) : MachineType :=
  match cls.kind with
  | .indirect => .ptr
  | .ignore => .void
  | .direct => cls.cast.getD cls.ty

/-- The classification of a prototype. -/
structure Classification where
  args : List ArgClass
  ret : ArgClass
  deriving DecidableEq, Inhabited

/-- A foreign prototype at one call site: the declared parameters, then the promoted types of
the variadic arguments. -/
structure Signature where
  params : List Ty
  ret : Ty
  deriving DecidableEq, Inhabited

namespace ArgClass

/-- The register of the bytes from `start` to `stop` of an aggregate with the given scalars. -/
def eightbyte (leaves : List (Nat × MachineType)) (start stop : Nat) : MachineType :=
  let members := (leaves.filter fun leaf => start ≤ leaf.1 && leaf.1 < stop).map (·.2)
  match members with
  | [] => .int ((stop - start) * 8)
  | [.float 32] => .float 32
  | [.float 32, .float 32] => .vector (.float 32) 2
  | _ =>
    if members.all fun ty => match ty with | .float _ => true | _ => false then .float 64
    else .int ((stop - start) * 8)

/-- The registers of a small aggregate on x86-64. -/
def eightbytes (leaves : List (Nat × MachineType)) (size : Nat) : List MachineType :=
  (List.range ((size + 7) / 8)).map fun k => eightbyte leaves (8 * k) (min (8 * k + 8) size)

/-- The register type of a small aggregate on x86-64. -/
def sysvCast (leaves : List (Nat × MachineType)) (size : Nat) : MachineType :=
  match eightbytes leaves size with
  | [part] => part
  | parts => .struct parts

/-- The register type of up to four equal floats on AArch64. -/
def homogeneousFloats? : List (Nat × MachineType) → Option MachineType
  | (offset, .float bits) :: leaves =>
    let all := (offset, MachineType.float bits) :: leaves
    if all.length ≤ 4 && all.all (·.2 == .float bits) then
      some (.array (.float bits) all.length)
    else none
  | _ => none

/-- The register type of any other small aggregate on AArch64. -/
def aapcsCast (size : Nat) : MachineType :=
  if size ≤ 8 then .int 64 else .array (.int 64) 2

/-- How an aggregate with bytes travels. -/
def classifyAggregate (target : Target) (ty : MachineType) : PassKind × Option MachineType :=
  match target with
  | .aarch64 =>
    match homogeneousFloats? ty.leaves with
    | some registers => (.direct, some registers)
    | none => if ty.size > 16 then (.indirect, none) else (.direct, some (aapcsCast ty.size))
  | .x86_64 =>
    if ty.size > 16 then (.indirect, none) else (.direct, some (sysvCast ty.leaves ty.size))

/-- How a value of the given representation travels. -/
def classifyKind (target : Target) (ty : MachineType) : PassKind × Option MachineType :=
  if ty.size = 0 then (.ignore, none)
  else
    match ty with
    | .struct _ | .array _ _ => classifyAggregate target ty
    | _ => (.direct, none)

/-- The classification of a value of a language type. -/
def ofTy (target : Target) (table : TypeTable) (ty : Ty) : ArgClass :=
  let native := table.foreignType ty
  let (kind, cast) := classifyKind target native
  { kind := kind, ty := native, cast := cast, size := native.size, align := native.align }

end ArgClass

/-- The classification of a foreign prototype. -/
def Signature.classify (target : Target) (table : TypeTable) (signature : Signature) :
    Classification where
  args := signature.params.map (ArgClass.ofTy target table)
  ret := ArgClass.ofTy target table signature.ret

end CallLowering
