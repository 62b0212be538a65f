import CallLowering.Machine.Layout
import Mathlib.Data.List.Pairwise
import Mathlib.Tactic.IntervalCases

/-!
# Where scalars lie

The scalars of a value follow one another without overlap, each at a multiple of its alignment, and
never leave more room between them than alignment asks for. These facts hold of the types that
values of the language are represented by (`MachineType.Storable`), the alignment facts under the
condition that the size of every scalar is a power of two (`MachineType.EvenSize`).
-/

namespace CallLowering

namespace MachineType

section AlignTo

variable (offset : Nat) {align limit : Nat}

theorem le_alignTo (positive : 0 < align) : offset ≤ alignTo offset align := by
  have above := Nat.lt_div_mul_add (a := offset + align - 1) positive
  unfold alignTo
  omega

theorem alignTo_lt (positive : 0 < align) : alignTo offset align < offset + align := by
  have below := Nat.div_mul_le_self (offset + align - 1) align
  unfold alignTo
  omega

theorem dvd_alignTo : align ∣ alignTo offset align := Nat.dvd_mul_left _ _

variable {offset}

/-- No smaller multiple of the alignment will do. -/
theorem alignTo_le (positive : 0 < align) (below : offset ≤ limit) (divides : align ∣ limit) :
    alignTo offset align ≤ limit := by
  obtain ⟨count, rfl⟩ := divides
  have close : alignTo offset align < align * (count + 1) := by
    have near := alignTo_lt offset positive
    rw [Nat.mul_succ]
    omega
  obtain ⟨steps, reached⟩ : align ∣ alignTo offset align := dvd_alignTo offset
  rw [reached] at close ⊢
  exact Nat.mul_le_mul_left _ (Nat.lt_succ_iff.mp (Nat.lt_of_mul_lt_mul_left close))

theorem alignTo_of_dvd (positive : 0 < align) (divides : align ∣ offset) :
    alignTo offset align = offset :=
  Nat.le_antisymm (alignTo_le positive le_rfl divides) (le_alignTo offset positive)

theorem alignTo_zero (positive : 0 < align) : alignTo 0 align = 0 :=
  alignTo_of_dvd positive (Nat.dvd_zero _)

theorem alignTo_one : alignTo offset 1 = offset := alignTo_of_dvd Nat.one_pos (Nat.one_dvd _)

end AlignTo

/-! ## Types of values -/

/-- Whether a type has no parts. -/
def isScalar : MachineType → Bool
  | int _ | float _ | ptr => true
  | _ => false

/-- The types that values of the language are represented by, with a condition on their scalars.
Arrays occur in unions only, behind the tag. -/
inductive Storable (allowed : MachineType → Prop) : MachineType → Prop where
  | void : Storable allowed void
  | scalar {ty : MachineType} (isScalar : ty.isScalar = true) (ok : allowed ty) : Storable allowed ty
  | struct {fields : List MachineType} (each : ∀ field ∈ fields, Storable allowed field) :
      Storable allowed (struct fields)
  | union (words : Nat) (tag : allowed (int 32)) (payload : 0 < words → allowed (int 64)) :
      Storable allowed (.struct [int 32, array (int 64) words])

variable {ty field : MachineType} {fields : List MachineType}

theorem leaves_of_isScalar (isScalar : ty.isScalar = true) : ty.leaves = [(0, ty)] := by
  cases ty with
  | int | float | ptr => rfl
  | void | struct | array | vector => cases isScalar

theorem align_of_isScalar (isScalar : ty.isScalar = true) : ty.align = naturalAlign ty.size := by
  cases ty with
  | int | float | ptr => rfl
  | void | struct | array | vector => cases isScalar

theorem naturalAlign_pos (size : Nat) : 0 < naturalAlign size := by
  unfold naturalAlign
  omega

theorem fieldsAlign_pos : 0 < fieldsAlign fields := by
  induction fields with
  | nil => exact Nat.one_pos
  | cons ty fields ih => exact Nat.lt_of_lt_of_le ih (Nat.le_max_right _ _)

theorem align_pos : (ty : MachineType) → 0 < ty.align
  | void => Nat.one_pos
  | int _ | float _ | ptr | vector _ _ => naturalAlign_pos _
  | struct _ => fieldsAlign_pos
  | array elem _ => align_pos elem

/-! ## Scalars of fields -/

mutual

/-- Storing a value elsewhere moves all its scalars alike. -/
theorem leavesAt_eq (base : Nat) : (ty : MachineType) →
    leavesAt base ty = ty.leaves.map fun leaf => (base + leaf.1, leaf.2)
  | void => rfl
  | int _ | float _ | ptr => rfl
  | struct fields => fieldLeavesAt_eq base 0 fields
  | array elem len | vector elem len => by
    simp only [leaves, leavesAt, List.map_flatMap]
    congr 1
    funext i
    rw [leavesAt_eq (base + i * elem.size) elem, leavesAt_eq (0 + i * elem.size) elem, List.map_map]
    simp [Function.comp_def, Nat.add_assoc]

theorem fieldLeavesAt_eq (base offset : Nat) : (fields : List MachineType) →
    fieldLeavesAt base offset fields =
      (fieldLeavesAt 0 offset fields).map fun leaf => (base + leaf.1, leaf.2)
  | [] => rfl
  | ty :: fields => by
    rw [fieldLeavesAt, fieldLeavesAt, List.map_append, leavesAt_eq _ ty, leavesAt_eq (0 + _) ty,
      fieldLeavesAt_eq base _ fields, List.map_map]
    simp [Function.comp_def, Nat.add_assoc]

end

theorem fieldLeavesAt_cons : fieldLeavesAt 0 offset (ty :: fields) =
      (ty.leaves.map fun leaf => (alignTo offset ty.align + leaf.1, leaf.2)) ++
        fieldLeavesAt 0 (alignTo offset ty.align + ty.size) fields := by
  rw [fieldLeavesAt, leavesAt_eq, Nat.zero_add]

/-- A scalar of some fields belongs to the first of them or to a later one. -/
theorem mem_fieldLeavesAt_cons : leaf ∈ fieldLeavesAt 0 offset (ty :: fields) ↔
      (∃ inner ∈ ty.leaves, (alignTo offset ty.align + inner.1, inner.2) = leaf) ∨
        leaf ∈ fieldLeavesAt 0 (alignTo offset ty.align + ty.size) fields := by
  rw [fieldLeavesAt_cons, List.mem_append, List.mem_map]

theorem leaves_struct : (struct fields).leaves = fieldLeavesAt 0 0 fields := rfl

/-- The payload of a union starts at its second word. -/
theorem alignTo_payload (words : Nat) :
    alignTo (alignTo 0 (int 32).align + (int 32).size) (array (int 64) words).align = 8 := by
  change alignTo (alignTo 0 4 + 4) 8 = 8
  decide

/-- The scalars of a union are its tag and the words of its payload. -/
theorem leaves_union (words : Nat) : (struct [int 32, array (int 64) words]).leaves =
      (0, int 32) :: (List.range words).map fun i => (8 + i * 8, int 64) := by
  have word : (int 64).size = 8 := rfl
  have cell : ∀ base, leavesAt base (int 64) = [(base, int 64)] := fun _ => rfl
  rw [leaves_struct, fieldLeavesAt_cons, fieldLeavesAt_cons, alignTo_payload, leaves_of_isScalar rfl,
    leaves, leavesAt, fieldLeavesAt, List.append_nil, alignTo_zero (align_pos _), word]
  simp only [cell, List.map_cons, List.map_nil, ← List.map_eq_flatMap, List.map_map, Nat.zero_add]
  rfl

theorem size_union (words : Nat) : (struct [int 32, array (int 64) words]).size = 8 + 8 * words := by
  have word : (int 64).size = 8 := rfl
  have align : fieldsAlign [int 32, array (int 64) words] = 8 := rfl
  rw [size, fieldsEnd, fieldsEnd, fieldsEnd, alignTo_payload, align, size, word]
  exact alignTo_of_dvd (by decide) (by omega)

theorem mem_leaves_union {words : Nat} : leaf ∈ (struct [int 32, array (int 64) words]).leaves ↔
      leaf = (0, int 32) ∨ ∃ i < words, (8 + i * 8, int 64) = leaf := by
  rw [leaves_union, List.mem_cons, List.mem_map]
  simp

theorem mem_leaves_struct {inner : Nat × MachineType} (member : field ∈ fields)
    (part : inner ∈ field.leaves) : ∃ place, (place, inner.2) ∈ fieldLeavesAt 0 offset fields := by
  induction fields generalizing offset with
  | nil => cases member
  | cons ty fields ih =>
    rcases List.mem_cons.mp member with rfl | member
    · exact ⟨_, mem_fieldLeavesAt_cons.mpr (.inl ⟨inner, part, rfl⟩)⟩
    · obtain ⟨place, found⟩ := ih member
      exact ⟨place, mem_fieldLeavesAt_cons.mpr (.inr found)⟩

theorem exists_field_of_mem (part : leaf ∈ fieldLeavesAt 0 offset fields) :
    ∃ field ∈ fields, ∃ inner ∈ field.leaves, inner.2 = leaf.2 := by
  induction fields generalizing offset with
  | nil => cases part
  | cons ty fields ih =>
    rcases mem_fieldLeavesAt_cons.mp part with ⟨inner, inside, rfl⟩ | part
    · exact ⟨ty, List.mem_cons_self, inner, inside, rfl⟩
    · obtain ⟨field, member, found⟩ := ih part
      exact ⟨field, List.mem_cons_of_mem _ member, found⟩

theorem le_fieldsEnd : offset ≤ fieldsEnd offset fields := by
  induction fields generalizing offset with
  | nil => exact le_rfl
  | cons ty fields ih =>
    calc
      offset ≤ alignTo offset ty.align := le_alignTo offset (align_pos ty)
      _ ≤ alignTo offset ty.align + ty.size := Nat.le_add_right _ _
      _ ≤ fieldsEnd offset (ty :: fields) := ih

/-- The scalars of fields lie between the place of the first field and the end of the last one. -/
theorem fieldLeaves_bounds
    (each : ∀ field ∈ fields, ∀ leaf ∈ field.leaves, leaf.1 + leaf.2.size ≤ field.size)
    (part : leaf ∈ fieldLeavesAt 0 offset fields) :
    offset ≤ leaf.1 ∧ leaf.1 + leaf.2.size ≤ fieldsEnd offset fields := by
  induction fields generalizing offset with
  | nil => cases part
  | cons ty fields ih =>
    have start := le_alignTo offset (align_pos ty)
    have stop : alignTo offset ty.align + ty.size ≤ fieldsEnd offset (ty :: fields) := le_fieldsEnd
    rcases mem_fieldLeavesAt_cons.mp part with ⟨inner, inside, rfl⟩ | part
    · have room := each ty List.mem_cons_self inner inside
      dsimp only
      omega
    · have later := ih (List.forall_mem_cons.mp each).2 part
      rw [fieldsEnd] at stop ⊢
      omega

section

variable (storable : ty.Storable allowed)

include storable

/-- A condition that all scalars meet can take the place of the one given. -/
theorem Storable.of_leaves (ok : ∀ leaf ∈ ty.leaves, other leaf.2) : ty.Storable other := by
  induction storable with
  | void => exact .void
  | scalar isScalar _ => exact .scalar isScalar (ok (0, _) (by rw [leaves_of_isScalar isScalar]; simp))
  | struct _ ih =>
    refine .struct fun field member => ih field member fun inner part => ?_
    obtain ⟨place, found⟩ := mem_leaves_struct member part
    exact ok (place, inner.2) found
  | union words _ _ =>
    refine .union words (ok (0, int 32) (mem_leaves_union.mpr (.inl rfl))) fun some => ?_
    exact ok (8 + 0 * 8, int 64) (mem_leaves_union.mpr (.inr ⟨0, some, rfl⟩))

theorem Storable.leaf_allowed (part : leaf ∈ ty.leaves) :
    leaf.2.isScalar = true ∧ allowed leaf.2 := by
  induction storable generalizing leaf with
  | void => cases part
  | scalar isScalar ok =>
    rw [leaves_of_isScalar isScalar, List.mem_singleton] at part
    subst part
    exact ⟨isScalar, ok⟩
  | struct _ ih =>
    obtain ⟨field, member, _, inside, same⟩ := exists_field_of_mem part
    rw [← same]
    exact ih field member inside
  | union _ tag payload =>
    rcases mem_leaves_union.mp part with rfl | ⟨i, bound, rfl⟩
    · exact ⟨rfl, tag⟩
    · exact ⟨rfl, payload (by omega)⟩

/-! ## Room and order -/

/-- A value has room for its scalars. -/
theorem Storable.leaf_bounds (part : leaf ∈ ty.leaves) : leaf.1 + leaf.2.size ≤ ty.size := by
  induction storable generalizing leaf with
  | void => cases part
  | scalar isScalar _ =>
    rw [leaves_of_isScalar isScalar, List.mem_singleton] at part
    subst part
    exact (Nat.zero_add _).le
  | struct _ ih =>
    have within := (fieldLeaves_bounds (fun field member _ => ih field member) part).2
    exact within.trans (le_alignTo _ fieldsAlign_pos)
  | union words _ _ =>
    rw [size_union]
    rcases mem_leaves_union.mp part with rfl | ⟨i, bound, rfl⟩
    · change 0 + 4 ≤ _
      omega
    · change 8 + i * 8 + 8 ≤ _
      omega

end

section

variable (each : ∀ field ∈ fields, field.Storable allowed)

include each

/-- The scalars of fields lie behind the place of the first field. -/
theorem Storable.le_of_mem_fields (part : leaf ∈ fieldLeavesAt 0 offset fields) : offset ≤ leaf.1 :=
  (fieldLeaves_bounds (fun field member _ => (each field member).leaf_bounds) part).1

theorem Storable.fieldLeaves_pairwise
    (ordered : ∀ field ∈ fields, field.leaves.Pairwise fun a b => a.1 + a.2.size ≤ b.1) :
    (fieldLeavesAt 0 offset fields).Pairwise fun a b => a.1 + a.2.size ≤ b.1 := by
  induction fields generalizing offset with
  | nil => exact .nil
  | cons ty fields ih =>
    obtain ⟨first, each⟩ := List.forall_mem_cons.mp each
    obtain ⟨firstOrdered, ordered⟩ := List.forall_mem_cons.mp ordered
    rw [fieldLeavesAt_cons, List.pairwise_append]
    refine ⟨List.pairwise_map.mpr ?_, ih each ordered, ?_⟩
    · refine firstOrdered.imp fun _ => ?_
      dsimp only
      omega
    · intro a inFirst b inLater
      obtain ⟨_, inside, rfl⟩ := List.mem_map.mp inFirst
      have room := first.leaf_bounds inside
      have later := le_of_mem_fields each inLater
      dsimp only
      omega

end

/-- Every scalar of a value ends before the next one starts. -/
theorem Storable.leaves_pairwise (storable : ty.Storable allowed) :
    ty.leaves.Pairwise fun a b => a.1 + a.2.size ≤ b.1 := by
  induction storable with
  | void => exact .nil
  | scalar isScalar _ =>
    rw [leaves_of_isScalar isScalar]
    exact List.pairwise_singleton _ _
  | struct each ih => exact fieldLeaves_pairwise each ih
  | union words _ _ =>
    rw [leaves_union, List.pairwise_cons, List.pairwise_map]
    constructor
    · intro leaf later
      obtain ⟨i, _, rfl⟩ := List.mem_map.mp later
      change 0 + 4 ≤ 8 + i * 8
      omega
    · refine List.pairwise_lt_range.imp fun _ => ?_
      change 8 + _ * 8 + 8 ≤ 8 + _ * 8
      omega

/-- Two scalars have no byte in common. -/
def Apart (a b : Nat × MachineType) : Prop := a.1 + a.2.size ≤ b.1 ∨ b.1 + b.2.size ≤ a.1

instance : Std.Symm Apart := ⟨fun _ _ => Or.symm⟩

theorem Storable.apart (storable : ty.Storable allowed) {a b : Nat × MachineType}
    (left : a ∈ ty.leaves) (right : b ∈ ty.leaves) (distinct : a ≠ b) : Apart a b := by
  have apart : ty.leaves.Pairwise Apart := storable.leaves_pairwise.imp .inl
  exact apart.forall left right distinct

/-! ## Where the first scalar lies -/

/-- The type has no scalars, takes no room and asks for no alignment. -/
structure Hollow (ty : MachineType) : Prop where
  leaves : ty.leaves = []
  size : ty.size = 0
  align : ty.align = 1

namespace Hollow

variable (hollow : ty.Hollow)

include hollow

theorem fieldLeavesAt_cons :
    fieldLeavesAt 0 offset (ty :: fields) = fieldLeavesAt 0 offset fields := by
  rw [MachineType.fieldLeavesAt_cons, hollow.leaves, hollow.size, hollow.align, alignTo_one]
  rfl

theorem fieldsEnd_cons : fieldsEnd offset (ty :: fields) = fieldsEnd offset fields := by
  rw [fieldsEnd, hollow.size, hollow.align, alignTo_one, Nat.add_zero]

theorem fieldsAlign_cons : fieldsAlign (ty :: fields) = fieldsAlign fields := by
  rw [fieldsAlign, hollow.align]
  exact Nat.max_eq_right fieldsAlign_pos

end Hollow

/-- The first field lies at the start. -/
theorem fieldLeavesAt_zero_cons :
    fieldLeavesAt 0 0 (ty :: fields) = ty.leaves ++ fieldLeavesAt 0 ty.size fields := by
  rw [fieldLeavesAt_cons, alignTo_zero (align_pos ty), Nat.zero_add]
  simp

theorem fieldsEnd_zero_cons : fieldsEnd 0 (ty :: fields) = fieldsEnd ty.size fields := by
  rw [fieldsEnd, alignTo_zero (align_pos ty), Nat.zero_add]

/-- There is a scalar at the very start. -/
def Starts (leaves : List (Nat × MachineType)) : Prop := ∃ scalar, (0, scalar) ∈ leaves

theorem fields_hollow_or_starts (each : ∀ field ∈ fields, field.Hollow ∨ Starts field.leaves) :
    (struct fields).Hollow ∨ Starts (fieldLeavesAt 0 0 fields) := by
  induction fields with
  | nil => exact .inl ⟨rfl, rfl, rfl⟩
  | cons ty fields ih =>
    obtain ⟨first, each⟩ := List.forall_mem_cons.mp each
    rcases first with hollow | ⟨scalar, first⟩
    · rw [hollow.fieldLeavesAt_cons]
      refine (ih each).imp_left fun rest => ⟨?_, ?_, ?_⟩
      · rw [leaves_struct, hollow.fieldLeavesAt_cons]
        exact rest.leaves
      · rw [size, hollow.fieldsEnd_cons, hollow.fieldsAlign_cons]
        exact rest.size
      · rw [align, hollow.fieldsAlign_cons]
        exact rest.align
    · rw [fieldLeavesAt_zero_cons]
      exact .inr ⟨scalar, List.mem_append_left _ first⟩

/-- A value with scalars has one at its very start. -/
theorem Storable.hollow_or_starts (storable : ty.Storable allowed) :
    ty.Hollow ∨ Starts ty.leaves := by
  induction storable with
  | void => exact .inl ⟨rfl, rfl, rfl⟩
  | @scalar ty isScalar _ => exact .inr ⟨ty, by rw [leaves_of_isScalar isScalar]; simp⟩
  | struct _ ih => exact fields_hollow_or_starts ih
  | union words _ _ => exact .inr ⟨int 32, mem_leaves_union.mpr (.inl rfl)⟩

/-! ## Values of floats -/

variable {byte most a start : Nat}

theorem fieldsAlign_le (positive : 1 ≤ most) (each : ∀ field ∈ fields, field.align ≤ most) :
    fieldsAlign fields ≤ most := by
  induction fields with
  | nil => exact positive
  | cons ty fields ih =>
    obtain ⟨first, each⟩ := List.forall_mem_cons.mp each
    exact Nat.max_le.mpr ⟨first, ih each⟩

/-- A value of nothing but floats is aligned as they are. -/
theorem Storable.align_le_of_floats (positive : 1 ≤ most)
    (floats : ty.Storable fun scalar => ∃ bits, scalar = float bits ∧ scalar.align ≤ most) :
    ty.align ≤ most := by
  induction floats with
  | void => exact positive
  | scalar _ ok =>
    obtain ⟨_, _, aligned⟩ := ok
    exact aligned
  | struct _ ih => exact fieldsAlign_le positive ih
  | union _ tag _ =>
    obtain ⟨_, isFloat, _⟩ := tag
    cases isFloat

section

variable (each : ∀ field ∈ fields, field.Storable allowed)

include each

/-- Fields behind four bytes start in the same eight bytes or are aligned to eight bytes. -/
theorem Storable.fields_after_four (far : ∀ leaf ∈ fieldLeavesAt 0 4 fields, 8 ≤ leaf.1) :
    (fieldsEnd 4 fields = 4 ∧ fieldsAlign fields = 1) ∨ 8 ≤ fieldsAlign fields := by
  induction fields with
  | nil => exact .inl ⟨rfl, rfl⟩
  | cons ty fields ih =>
    obtain ⟨first, each⟩ := List.forall_mem_cons.mp each
    rcases first.hollow_or_starts with hollow | ⟨scalar, start⟩
    · rw [hollow.fieldLeavesAt_cons] at far
      rw [hollow.fieldsEnd_cons, hollow.fieldsAlign_cons]
      exact ih each far
    · have distant : 8 ≤ alignTo 4 ty.align :=
        far _ (mem_fieldLeavesAt_cons.mpr (.inl ⟨_, start, rfl⟩))
      have near := alignTo_lt 4 (align_pos ty)
      have wide : 4 ≤ ty.align := by omega
      have least : alignTo 4 ty.align ≤ ty.align := alignTo_le (align_pos ty) wide dvd_rfl
      exact .inr ((distant.trans least).trans (Nat.le_max_left _ _))

theorem Storable.fields_lone_float
    (inner : ∀ field ∈ fields, Starts field.leaves → (∀ leaf ∈ field.leaves, leaf.1 < 8 → leaf = (0, float 32)) → (field.size = 4 ∧ field.align = 4) ∨ 8 ≤ field.align)
    (starts : Starts (fieldLeavesAt 0 0 fields))
    (lone : ∀ leaf ∈ fieldLeavesAt 0 0 fields, leaf.1 < 8 → leaf = (0, float 32)) :
    (fieldsEnd 0 fields = 4 ∧ fieldsAlign fields = 4) ∨ 8 ≤ fieldsAlign fields := by
  induction fields with
  | nil => exact absurd starts.choose_spec List.not_mem_nil
  | cons ty fields ih =>
    obtain ⟨first, each⟩ := List.forall_mem_cons.mp each
    obtain ⟨firstInner, inner⟩ := List.forall_mem_cons.mp inner
    rcases first.hollow_or_starts with hollow | start
    · rw [hollow.fieldLeavesAt_cons] at lone starts
      rw [hollow.fieldsEnd_cons, hollow.fieldsAlign_cons]
      exact ih each inner starts lone
    · rw [fieldLeavesAt_zero_cons, List.forall_mem_append] at lone
      obtain ⟨alone, lone⟩ := lone
      rw [fieldsEnd_zero_cons, fieldsAlign]
      rcases firstInner start alone with ⟨size, align⟩ | wide
      · rw [size] at lone
        have far : ∀ leaf ∈ fieldLeavesAt 0 4 fields, 8 ≤ leaf.1 := by
          intro leaf part
          have behind := le_of_mem_fields each part
          by_contra near
          rw [lone leaf part (by omega)] at behind
          cases behind
        rw [size, align]
        rcases fields_after_four each far with ⟨stop, plain⟩ | wide
        · exact .inl ⟨stop, by rw [plain]; rfl⟩
        · exact .inr (wide.trans (Nat.le_max_right _ _))
      · exact .inr (wide.trans (Nat.le_max_left _ _))

end

/-- If a float of four bytes is alone in the first eight bytes of a value, then it is the whole value
or what follows it is aligned to eight bytes. -/
theorem Storable.lone_float (storable : ty.Storable allowed) (starts : Starts ty.leaves)
    (lone : ∀ leaf ∈ ty.leaves, leaf.1 < 8 → leaf = (0, float 32)) :
    (ty.size = 4 ∧ ty.align = 4) ∨ 8 ≤ ty.align := by
  induction storable with
  | void => exact absurd starts.choose_spec List.not_mem_nil
  | scalar isScalar _ =>
    rw [leaves_of_isScalar isScalar] at lone
    cases lone _ (List.mem_singleton_self _) (Nat.zero_lt_succ _)
    exact .inl ⟨rfl, rfl⟩
  | struct each ih =>
    refine (fields_lone_float each ih starts lone).imp_left fun ⟨stop, align⟩ => ⟨?_, align⟩
    rw [size, stop, align]
    rfl
  | union words _ _ => cases lone _ (mem_leaves_union.mpr (.inl rfl)) (Nat.zero_lt_succ _)

/-! ## Alignment -/

/-- The size of the type is a power of two. -/
def EvenSize (ty : MachineType) : Prop := ∃ exponent, ty.size = 2 ^ exponent

theorem naturalAlign_two_pow (exponent : Nat) : naturalAlign (2 ^ exponent) = 2 ^ min exponent 4 := by
  have positive := Nat.two_pow_pos exponent
  unfold naturalAlign
  rcases Nat.le_total exponent 4 with small | large
  · have low : 2 ^ exponent ≤ 2 ^ 4 := Nat.pow_le_pow_right (by decide) small
    rw [Nat.min_eq_left small]
    omega
  · have high : 2 ^ 4 ≤ 2 ^ exponent := Nat.pow_le_pow_right (by decide) large
    rw [Nat.min_eq_right large]
    omega

theorem fieldsAlign_dvd (each : ∀ field ∈ fields, field.align ∣ 16) : fieldsAlign fields ∣ 16 := by
  induction fields with
  | nil => exact Nat.one_dvd _
  | cons ty fields ih =>
    obtain ⟨_, each⟩ := List.forall_mem_cons.mp each
    rcases max_choice ty.align (fieldsAlign fields) with widest | widest
    · rwa [fieldsAlign, widest]
    · rw [fieldsAlign, widest]
      exact ih each

namespace Storable

theorem align_dvd_sixteen (even : ty.Storable EvenSize) : ty.align ∣ 16 := by
  induction even with
  | void => exact Nat.one_dvd _
  | scalar isScalar ok =>
    obtain ⟨_, size⟩ := ok
    rw [align_of_isScalar isScalar, size, naturalAlign_two_pow]
    exact Nat.pow_dvd_pow 2 (Nat.min_le_right _ _)
  | struct _ ih => exact fieldsAlign_dvd ih
  | union words _ _ => exact ⟨2, rfl⟩

/-- The alignments that occur are ordered by divisibility. -/
theorem dvd_of_le {b : Nat} (low : a ∣ 16) (high : b ∣ 16) (le : a ≤ b) : a ∣ b := by
  have bound := Nat.le_of_dvd (by decide) high
  interval_cases b <;> interval_cases a <;> revert low high <;> decide

theorem align_dvd_size (even : ty.Storable EvenSize) : ty.align ∣ ty.size := by
  cases even with
  | void => exact Nat.dvd_zero _
  | scalar isScalar ok =>
    obtain ⟨_, size⟩ := ok
    rw [align_of_isScalar isScalar, size, naturalAlign_two_pow]
    exact Nat.pow_dvd_pow 2 (Nat.min_le_left _ _)
  | struct => exact dvd_alignTo _
  | union => exact dvd_alignTo _

theorem field_align_dvd (each : ∀ field ∈ fields, field.Storable EvenSize) (member : field ∈ fields) :
    field.align ∣ fieldsAlign fields := by
  have every := fun field member => (each field member).align_dvd_sixteen
  refine dvd_of_le (every field member) (fieldsAlign_dvd every) ?_
  clear every each
  induction fields with
  | nil => cases member
  | cons ty fields ih =>
    rcases List.mem_cons.mp member with rfl | member
    · exact Nat.le_max_left _ _
    · exact (ih member).trans (Nat.le_max_right _ _)

theorem fields_leaf_aligned (inner : ∀ field ∈ fields, ∀ leaf ∈ field.leaves,
      leaf.2.align ∣ leaf.1 ∧ leaf.2.align ∣ field.align)
    (part : leaf ∈ fieldLeavesAt 0 offset fields) :
    leaf.2.align ∣ leaf.1 ∧ ∃ field ∈ fields, leaf.2.align ∣ field.align := by
  induction fields generalizing offset with
  | nil => cases part
  | cons ty fields ih =>
    obtain ⟨first, inner⟩ := List.forall_mem_cons.mp inner
    rcases mem_fieldLeavesAt_cons.mp part with ⟨own, inside, rfl⟩ | part
    · obtain ⟨placed, divides⟩ := first own inside
      have start : ty.align ∣ alignTo offset ty.align := dvd_alignTo offset
      exact ⟨(Nat.dvd_add_iff_left placed).mp (divides.trans start), ty, List.mem_cons_self, divides⟩
    · obtain ⟨placed, field, member, divides⟩ := ih inner part
      exact ⟨placed, field, List.mem_cons_of_mem _ member, divides⟩

/-- Every scalar of a value lies at a multiple of its alignment, which divides that of the value. -/
theorem leaf_aligned (even : ty.Storable EvenSize) (part : leaf ∈ ty.leaves) :
    leaf.2.align ∣ leaf.1 ∧ leaf.2.align ∣ ty.align := by
  induction even generalizing leaf with
  | void => cases part
  | scalar isScalar _ =>
    rw [leaves_of_isScalar isScalar, List.mem_singleton] at part
    subst part
    exact ⟨Nat.dvd_zero _, dvd_rfl⟩
  | struct each ih =>
    obtain ⟨placed, field, member, divides⟩ :=
      fields_leaf_aligned (fun field member _ => ih field member) part
    exact ⟨placed, divides.trans (field_align_dvd each member)⟩
  | union words _ _ =>
    rcases mem_leaves_union.mp part with rfl | ⟨i, bound, rfl⟩
    · exact ⟨Nat.dvd_zero _, ⟨2, rfl⟩⟩
    · exact ⟨⟨1 + i, by change 8 + i * 8 = 8 * (1 + i); omega⟩, dvd_rfl⟩

end Storable

/-! ## Padding -/

/-- One of the scalars holds the byte. -/
def Covers (leaves : List (Nat × MachineType)) (byte : Nat) : Prop :=
  ∃ leaf ∈ leaves, leaf.1 ≤ byte ∧ byte < leaf.1 + leaf.2.size

theorem Covers.mono {few many : List (Nat × MachineType)} (covers : Covers few byte)
    (subset : ∀ leaf ∈ few, leaf ∈ many) : Covers many byte := by
  obtain ⟨leaf, part, holds⟩ := covers
  exact ⟨leaf, subset leaf part, holds⟩

theorem Covers.first (covers : Covers ty.leaves byte) :
    Covers (fieldLeavesAt 0 offset (ty :: fields)) (alignTo offset ty.align + byte) := by
  obtain ⟨leaf, part, _, _⟩ := covers
  refine ⟨_, mem_fieldLeavesAt_cons.mpr (.inl ⟨leaf, part, rfl⟩), ?_, ?_⟩ <;> dsimp only <;> omega

theorem Covers.later
    (covers : Covers (fieldLeavesAt 0 (alignTo offset ty.align + ty.size) fields) byte) :
    Covers (fieldLeavesAt 0 offset (ty :: fields)) byte :=
  covers.mono fun _ part => mem_fieldLeavesAt_cons.mpr (.inr part)

namespace Storable

variable {place : Nat}

theorem fields_dense {word : Nat} (positive : 0 < word)
    (divides : ∀ field ∈ fields, field.align ∣ word)
    (inner : ∀ field ∈ fields, ∀ place, field.align ∣ place → place < field.size → ∃ byte, place ≤ byte ∧ byte < place + field.align ∧ Covers field.leaves byte)
    (aligned : word ∣ place) (start : offset ≤ place) (inside : place < fieldsEnd offset fields) :
    ∃ byte, place ≤ byte ∧ byte < place + word ∧ Covers (fieldLeavesAt 0 offset fields) byte := by
  induction fields generalizing offset with
  | nil => exact absurd inside (Nat.not_lt.mpr start)
  | cons ty fields ih =>
    obtain ⟨firstDivides, divides⟩ := List.forall_mem_cons.mp divides
    obtain ⟨firstInner, inner⟩ := List.forall_mem_cons.mp inner
    by_cases within : place < alignTo offset ty.align + ty.size
    · -- A word that is not over before the first field does not start in the padding before it.
      have begins : alignTo offset ty.align ≤ place :=
        alignTo_le (align_pos ty) start (firstDivides.trans aligned)
      obtain ⟨byte, low, high, covers⟩ := firstInner (place - alignTo offset ty.align)
        (Nat.dvd_sub (firstDivides.trans aligned) (dvd_alignTo offset)) (by omega)
      have narrow := Nat.le_of_dvd positive firstDivides
      exact ⟨_, by omega, by omega, covers.first⟩
    · obtain ⟨byte, low, high, covers⟩ := ih divides inner (by omega) inside
      exact ⟨byte, low, high, covers.later⟩

/-- Padding never fills a whole aligned word of a value. -/
theorem dense (even : ty.Storable EvenSize) (aligned : ty.align ∣ place) (inside : place < ty.size) :
    ∃ byte, place ≤ byte ∧ byte < place + ty.align ∧ Covers ty.leaves byte := by
  induction even generalizing place with
  | void => cases inside
  | @scalar ty isScalar _ =>
    refine ⟨place, le_rfl, Nat.lt_add_of_pos_right (align_pos ty), (0, ty), ?_, Nat.zero_le _, ?_⟩
    · rw [leaves_of_isScalar isScalar]
      exact List.mem_singleton_self _
    · rwa [Nat.zero_add]
  | @struct fields each ih =>
    have close : (MachineType.struct fields).size < fieldsEnd 0 fields + fieldsAlign fields :=
      alignTo_lt _ fieldsAlign_pos
    have whole : fieldsAlign fields ≤ (MachineType.struct fields).size - place :=
      Nat.le_of_dvd (Nat.sub_pos_of_lt inside) (Nat.dvd_sub (dvd_alignTo _) aligned)
    exact fields_dense fieldsAlign_pos (fun field member => field_align_dvd each member)
      (fun field member place => ih field member) aligned (Nat.zero_le _) (by omega)
  | union words _ _ =>
    rw [size_union] at inside
    obtain ⟨index, rfl⟩ : 8 ∣ place := aligned
    cases index with
    | zero =>
      exact ⟨0, le_rfl, Nat.lt_add_left _ (align_pos _), (0, int 32), mem_leaves_union.mpr (.inl rfl),
        by decide⟩
    | succ index =>
      refine ⟨8 * (index + 1), le_rfl, Nat.lt_add_of_pos_right (align_pos _), (8 + index * 8, int 64),
        mem_leaves_union.mpr (.inr ⟨index, by omega, rfl⟩), ?_, ?_⟩
      · dsimp only
        omega
      · change _ < 8 + index * 8 + 8
        omega

theorem cases_of_dvd_sixteen (divides : a ∣ 16) : a = 1 ∨ a = 2 ∨ a = 4 ∨ a = 8 ∨ a = 16 := by
  have bound := Nat.le_of_dvd (by decide) divides
  interval_cases a <;> revert divides <;> decide

section

variable (even : ty.Storable EvenSize)

include even

theorem leaf_size_pos (part : leaf ∈ ty.leaves) : 0 < leaf.2.size := by
  obtain ⟨_, exponent, size⟩ := even.leaf_allowed part
  rw [size]
  exact Nat.two_pow_pos exponent

/-- A value with scalars ends with at most its alignment of padding. -/
theorem covers_end (starts : Starts ty.leaves) :
    ∃ byte, ty.size ≤ byte + ty.align ∧ byte < ty.size ∧ Covers ty.leaves byte := by
  obtain ⟨_, first⟩ := starts
  have room := even.leaf_bounds first
  have filled := even.leaf_size_pos first
  dsimp only at room filled
  have fits := Nat.le_of_dvd (by omega) even.align_dvd_size
  obtain ⟨byte, _, _, covers⟩ :=
    even.dense (Nat.dvd_sub even.align_dvd_size dvd_rfl) (Nat.sub_lt_of_pos_le (align_pos ty) fits)
  exact ⟨byte, by omega, by omega, covers⟩

/-- A word of four bytes in the middle of eight is not preceded by padding only, if it belongs to a
field that does not start there. -/
theorem word_before_inside (part : leaf ∈ ty.leaves) (aligned : ty.align ∣ start)
    (odd : (start + leaf.1) % 8 = 4) (inside : 0 < leaf.1)
    (inner : leaf.1 % 8 = 4 → ∃ byte, leaf.1 ≤ byte + 4 ∧ byte < leaf.1 ∧ Covers ty.leaves byte) :
    ∃ byte, leaf.1 ≤ byte + 4 ∧ byte < leaf.1 ∧ Covers ty.leaves byte := by
  by_cases whole : start % 8 = 0
  · exact inner (by omega)
  · by_cases near : leaf.1 < 4
    · rcases even.hollow_or_starts with hollow | ⟨scalar, first⟩
      · rw [hollow.leaves] at part
        cases part
      · have filled := even.leaf_size_pos first
        exact ⟨0, by omega, inside, _, first, Nat.zero_le _, by omega⟩
    · have room := even.leaf_bounds part
      have filled := even.leaf_size_pos part
      have word : ty.align ∣ leaf.1 - 4 ∧ ty.align ≤ 4 := by
        rcases cases_of_dvd_sixteen even.align_dvd_sixteen with align | align | align | align | align <;>
          rw [align] at aligned ⊢ <;> omega
      obtain ⟨byte, _, _, covers⟩ := even.dense word.1 (by omega)
      exact ⟨byte, by omega, by omega, covers⟩

end

/-- Padding that ends in the middle of eight bytes is at most four bytes behind what it follows, be
it filled up to one alignment and then to another. -/
theorem close_of_padded {before after stop : Nat} (narrowBefore : before ∣ 16)
    (narrowAfter : after ∣ 16) (whole : before ∣ stop) (aligned : after ∣ start)
    (near : stop ≤ start) (tight : start < stop + after) (close : stop ≤ byte + before)
    (odd : start % 8 = 4) : start ≤ byte + 4 := by
  rcases cases_of_dvd_sixteen narrowBefore with rfl | rfl | rfl | rfl | rfl <;>
    rcases cases_of_dvd_sixteen narrowAfter with rfl | rfl | rfl | rfl | rfl <;> omega

theorem fields_word_before {total : List (Nat × MachineType)}
    (each : ∀ field ∈ fields, field.Storable EvenSize)
    (inner : ∀ field ∈ fields, ∀ leaf ∈ field.leaves, leaf.1 % 8 = 4 →
      ∃ byte, leaf.1 ≤ byte + 4 ∧ byte < leaf.1 ∧ Covers field.leaves byte)
    (subset : ∀ leaf ∈ fieldLeavesAt 0 offset fields, leaf ∈ total)
    (behind : offset = 0 ∨ ∃ align byte, align ∣ 16 ∧ align ∣ offset ∧ offset ≤ byte + align ∧
      byte < offset ∧ Covers total byte)
    (part : leaf ∈ fieldLeavesAt 0 offset fields) (odd : leaf.1 % 8 = 4) :
    ∃ byte, leaf.1 ≤ byte + 4 ∧ byte < leaf.1 ∧ Covers total byte := by
  induction fields generalizing offset with
  | nil => cases part
  | cons ty fields ih =>
    obtain ⟨first, each⟩ := List.forall_mem_cons.mp each
    obtain ⟨firstInner, inner⟩ := List.forall_mem_cons.mp inner
    have aligned : ty.align ∣ alignTo offset ty.align := dvd_alignTo offset
    rcases first.hollow_or_starts with hollow | starts
    · rw [hollow.fieldLeavesAt_cons] at subset part
      exact ih each inner subset behind part
    · rcases mem_fieldLeavesAt_cons.mp part with ⟨own, inside, rfl⟩ | part
      · dsimp only at odd ⊢
        by_cases start : own.1 = 0
        · rcases behind with rfl | ⟨align, byte, narrow, whole, close, before, covers⟩
          · rw [alignTo_zero (align_pos ty), start] at odd
            cases odd
          · have near := le_alignTo offset (align_pos ty)
            have tight := alignTo_lt offset (align_pos ty)
            rw [start, Nat.add_zero] at odd ⊢
            exact ⟨byte, close_of_padded narrow first.align_dvd_sixteen whole aligned near tight close odd,
              by omega, covers⟩
        · obtain ⟨byte, low, high, covers⟩ :=
            first.word_before_inside inside aligned odd (by omega) (firstInner own inside)
          exact ⟨_, by omega, by omega, covers.first.mono subset⟩
      · refine ih each inner (fun leaf part => subset leaf (mem_fieldLeavesAt_cons.mpr (.inr part)))
          (.inr ?_) part
        obtain ⟨_, _, _, covers⟩ := first.covers_end starts
        exact ⟨ty.align, _, first.align_dvd_sixteen, Nat.dvd_add aligned first.align_dvd_size,
          by omega, by omega, covers.first.mono subset⟩

/-- A scalar in the middle of eight bytes is not preceded by four bytes of padding. -/
theorem word_before (even : ty.Storable EvenSize) (part : leaf ∈ ty.leaves) (odd : leaf.1 % 8 = 4) :
    ∃ byte, leaf.1 ≤ byte + 4 ∧ byte < leaf.1 ∧ Covers ty.leaves byte := by
  induction even generalizing leaf with
  | void => cases part
  | scalar isScalar _ =>
    rw [leaves_of_isScalar isScalar, List.mem_singleton] at part
    subst part
    cases odd
  | struct each ih =>
    exact fields_word_before each (fun field member _ => ih field member) (fun _ => id) (.inl rfl)
      part odd
  | union words _ _ =>
    rcases mem_leaves_union.mp part with rfl | ⟨i, bound, rfl⟩
    · cases odd
    · dsimp only at odd
      omega

/-! ## Equal floats -/

theorem fields_size_of_floats {size : Nat}
    (each : ∀ field ∈ fields, field.size = field.leaves.length * size ∧ field.align ∣ size)
    (aligned : size ∣ offset) :
    fieldsEnd offset fields = offset + (fieldLeavesAt 0 offset fields).length * size ∧
      fieldsAlign fields ∣ size := by
  induction fields generalizing offset with
  | nil => exact ⟨by simp [fieldsEnd, fieldLeavesAt], Nat.one_dvd _⟩
  | cons ty fields ih =>
    obtain ⟨⟨first, divides⟩, each⟩ := List.forall_mem_cons.mp each
    have place : alignTo offset ty.align = offset :=
      alignTo_of_dvd (align_pos ty) (divides.trans aligned)
    have next : size ∣ offset + ty.size := by
      rw [first]
      exact Nat.dvd_add aligned (Nat.dvd_mul_left _ _)
    obtain ⟨stop, _⟩ := ih each next
    constructor
    · rw [fieldsEnd, place, stop, fieldLeavesAt_cons, place, List.length_append, List.length_map,
        Nat.add_mul, ← first, Nat.add_assoc]
    · rcases max_choice ty.align (fieldsAlign fields) with widest | widest <;>
        rw [fieldsAlign, widest] <;> assumption

/-- Equal floats lie side by side. -/
theorem size_of_floats {bits : Nat} (sized : 1 ≤ bits / 8) (small : bits / 8 ≤ 16)
    (floats : ty.Storable (· = float bits)) :
    ty.size = ty.leaves.length * (bits / 8) ∧ ty.align ∣ bits / 8 := by
  induction floats with
  | void => exact ⟨(Nat.zero_mul _).symm, Nat.one_dvd _⟩
  | scalar _ isFloat =>
    subst isFloat
    have align : (float bits).align = bits / 8 := by
      change naturalAlign (bits / 8) = bits / 8
      unfold naturalAlign
      omega
    rw [align]
    exact ⟨(Nat.one_mul _).symm, dvd_rfl⟩
  | struct _ ih =>
    obtain ⟨stop, align⟩ := fields_size_of_floats ih (Nat.dvd_zero _)
    rw [Nat.zero_add] at stop
    refine ⟨?_, align⟩
    rw [size, stop]
    exact alignTo_of_dvd fieldsAlign_pos (align.trans (Nat.dvd_mul_left _ _))
  | union _ tag _ => cases tag

end Storable

end MachineType

end CallLowering
