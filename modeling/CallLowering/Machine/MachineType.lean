/-!
# Machine types

`MachineType` is the type of a value in emitted code. Its size and alignment follow one
rule for both targets: a scalar is as large as its bits rounded up to a power of two bytes
and aligned to its size up to sixteen, a struct pads every field to its alignment, and
arrays and vectors repeat their element. `MachineType.leaves` lists the scalars of a type
with their byte offsets under that rule.
-/

namespace CallLowering

/-- The type of a value in emitted code. -/
inductive MachineType where
  | void
  | int (bits : Nat)
  | float (bits : Nat)
  | ptr
  | struct (fields : List MachineType)
  | array (elem : MachineType) (len : Nat)
  /-- A vector register, used where two floats share eight bytes. -/
  | vector (elem : MachineType) (len : Nat)
  deriving Inhabited

namespace MachineType

mutual

/-- Structural equality of machine types. -/
def beq : MachineType → MachineType → Bool
  | void, void => true
  | int bits, int bits' => bits == bits'
  | float bits, float bits' => bits == bits'
  | ptr, ptr => true
  | struct fields, struct fields' => beqList fields fields'
  | array elem len, array elem' len' => beq elem elem' && len == len'
  | vector elem len, vector elem' len' => beq elem elem' && len == len'
  | _, _ => false

/-- Structural equality of lists of machine types. -/
def beqList : List MachineType → List MachineType → Bool
  | [], [] => true
  | ty :: tys, ty' :: tys' => beq ty ty' && beqList tys tys'
  | _, _ => false

end

mutual

theorem beq_iff (a b : MachineType) : beq a b = true ↔ a = b := by
  cases a <;> cases b <;> simp [beq]
  case struct.struct fields fields' => exact beqList_iff fields fields'
  case array.array elem len elem' len' => simp [beq_iff elem elem']
  case vector.vector elem len elem' len' => simp [beq_iff elem elem']

theorem beqList_iff (as bs : List MachineType) : beqList as bs = true ↔ as = bs := by
  cases as <;> cases bs <;> simp [beqList]
  case cons.cons a as b bs => simp [beq_iff a b, beqList_iff as bs]

end

instance : DecidableEq MachineType := fun a b =>
  decidable_of_iff (beq a b = true) (beq_iff a b)

mutual

/-- The text of a machine type in printed code. Every float that is not 32 bits wide is
written as a double. -/
def display : MachineType → String
  | void => "void"
  | int bits => "i" ++ toString bits
  | float bits => if bits = 32 then "float" else "double"
  | ptr => "ptr"
  | struct fields => "\x7b" ++ ",".intercalate (displayFields fields) ++ " \x7d"
  | array elem len => "[" ++ toString len ++ " x " ++ display elem ++ "]"
  | vector elem len => "<" ++ toString len ++ " x " ++ display elem ++ ">"

/-- The texts of the fields of a struct, each after a blank. -/
def displayFields : List MachineType → List String
  | [] => []
  | ty :: tys => (" " ++ display ty) :: displayFields tys

end

/-- The size of a pointer. -/
def pointerSize : Nat := 8

/-- The least power of two that is at least `n`. -/
def roundUpToPowerOfTwo (n : Nat) : Nat :=
  if n ≤ 1 then 1 else Nat.pow 2 (Nat.log2 (n - 1) + 1)

/-- The least multiple of `align` that is at least `offset`. -/
def alignTo (offset align : Nat) : Nat :=
  (offset + align - 1) / align * align

/-- The alignment of a scalar or vector of the given size. -/
def naturalAlign (size : Nat) : Nat := min (max size 1) 16

mutual

/-- The size of a machine type in bytes. -/
def size : MachineType → Nat
  | void => 0
  | int bits => roundUpToPowerOfTwo ((bits + 7) / 8)
  | float bits => bits / 8
  | ptr => pointerSize
  | struct fields => alignTo (fieldsEnd 0 fields) (fieldsAlign fields)
  | array elem len => size elem * len
  | vector elem len => size elem * len

/-- The alignment of a machine type in bytes. -/
def align : MachineType → Nat
  | void => 1
  | int bits => naturalAlign (roundUpToPowerOfTwo ((bits + 7) / 8))
  | float bits => naturalAlign (bits / 8)
  | ptr => naturalAlign pointerSize
  | struct fields => fieldsAlign fields
  | array elem _ => align elem
  | vector elem len => naturalAlign (size elem * len)

/-- Where the last of the fields ends when the first is placed at `offset` or later. -/
def fieldsEnd (offset : Nat) : List MachineType → Nat
  | [] => offset
  | ty :: tys => fieldsEnd (alignTo offset (align ty) + size ty) tys

/-- The largest alignment among the fields; one if there are none. -/
def fieldsAlign : List MachineType → Nat
  | [] => 1
  | ty :: tys => max (align ty) (fieldsAlign tys)

end

mutual

/-- The scalars of a value stored at `base`, with their byte offsets. -/
def leavesAt (base : Nat) : MachineType → List (Nat × MachineType)
  | void => []
  | struct fields => fieldLeavesAt base 0 fields
  | array elem len => (List.range len).flatMap fun i => leavesAt (base + i * size elem) elem
  | vector elem len => (List.range len).flatMap fun i => leavesAt (base + i * size elem) elem
  | scalar => [(base, scalar)]

/-- The scalars of the fields of a struct stored at `base`, the first of them placed at
`offset` or later. -/
def fieldLeavesAt (base offset : Nat) : List MachineType → List (Nat × MachineType)
  | [] => []
  | ty :: tys =>
    leavesAt (base + alignTo offset (align ty)) ty ++
      fieldLeavesAt base (alignTo offset (align ty) + size ty) tys

end

/-- The scalars of a type with their byte offsets. -/
def leaves (ty : MachineType) : List (Nat × MachineType) := leavesAt 0 ty

end MachineType

end CallLowering
