import CallLowering.Machine.ArgClass
import CallLowering.Proofs.Placement

/-!
# Values in registers

The scalars of a value that crosses into foreign code are well placed (`TypeTable.leaves_placed`).

A small aggregate crosses into foreign code reinterpreted as a register type. The register type has
room for the aggregate and holds every byte of its scalars (`Signature.cast_covers`). It is aligned
for the copy that fills it if the aggregate is aligned to at most eight bytes or consists of equal
floats, and only then (`Signature.cast_align_iff`).
-/

namespace CallLowering

open MachineType ArgClass

/-! ## Representations of values -/

theorem Ty.represent_storable {structType : String → MachineType}
    (structs : ∀ name, (structType name).Storable fun _ => True) (ty : Ty) :
    (ty.represent structType).Storable fun _ => True := by
  cases ty with
  | nil => exact .struct (List.forall_mem_nil _)
  | bool | char | symbol | metaclass | int | float | string | object | pointer =>
    exact .scalar rfl trivial
  | proc =>
    refine .struct (List.forall_mem_cons.mpr ⟨.scalar rfl trivial, ?_⟩)
    exact List.forall_mem_singleton.mpr (.scalar rfl trivial)
  | struct name => exact structs name
  | union members => exact .union _ trivial fun _ => trivial
  | program | noReturn => exact .void

namespace TypeTable

variable {table : TypeTable}

theorem structTypeWithin_storable (depth : Nat) (name : String) :
    (table.structTypeWithin depth name).Storable fun _ => True := by
  induction depth generalizing name with
  | zero => exact .struct (List.forall_mem_nil _)
  | succ depth ih =>
    refine .struct fun _ member => ?_
    obtain ⟨declared, _, rfl⟩ := List.mem_map.mp member
    exact Ty.represent_storable ih declared.ty

theorem foreignType_storable (ty : Ty) : (table.foreignType ty).Storable fun _ => True := by
  have machine : (table.machineType ty).Storable fun _ => True :=
    Ty.represent_storable (fun name => structTypeWithin_storable _ name) ty
  cases ty with
  | proc => exact .scalar rfl trivial
  | nil | noReturn | program => exact .void
  | _ => exact machine

end TypeTable

/-! ## The eight bytes of a register -/

namespace MachineType

variable {leaves : List (Nat × MachineType)} {start stop place room : Nat} {part : MachineType}

/-- A float of four bytes is the only scalar that starts in a range of bytes. -/
structure Lone (leaves : List (Nat × MachineType)) (start stop place : Nat) : Prop where
  member : (place, float 32) ∈ leaves
  low : start ≤ place
  high : place < stop
  alone : ∀ leaf ∈ leaves, start ≤ leaf.1 → leaf.1 < stop → leaf = (place, float 32)

/-- The register has room for a number of bytes, up to eight, and all its bytes are in use. -/
structure Wide (room : Nat) (part : MachineType) : Prop where
  size_ge : room ≤ part.size
  size_le : part.size ≤ 8
  align_ge : room ≤ part.align
  align_dvd : part.align ∣ 8
  covers : ∀ byte < part.size, Covers part.leaves byte

theorem covers_of_isScalar (isScalar : part.isScalar = true) :
    ∀ byte < part.size, Covers part.leaves byte := by
  intro byte inside
  refine ⟨(0, part), ?_, Nat.zero_le _, ?_⟩
  · rw [leaves_of_isScalar isScalar]
    exact List.mem_singleton_self _
  · rwa [Nat.zero_add]

theorem wide_int (some : 1 ≤ room) (small : room ≤ 8) : Wide room (int (room * 8)) := by
  have covers : ∀ byte < (int (room * 8)).size, Covers (int (room * 8)).leaves byte :=
    covers_of_isScalar rfl
  interval_cases room <;> exact ⟨by decide, by decide, by decide, by decide, covers⟩

theorem wide_double (small : room ≤ 8) : Wide room (float 64) :=
  ⟨small, le_rfl, small, dvd_rfl, covers_of_isScalar rfl⟩

theorem wide_vector (small : room ≤ 8) : Wide room (vector (float 32) 2) := by
  refine ⟨small, le_rfl, small, dvd_rfl, fun byte inside => ?_⟩
  have inside : byte < 8 := inside
  by_cases low : byte < 4
  · exact ⟨(0, float 32), by decide, Nat.zero_le _, low⟩
  · exact ⟨(4, float 32), by decide, Nat.not_lt.mp low, inside⟩

theorem lone_of_filter
    (filtered : (leaves.filter fun leaf => start ≤ leaf.1 && leaf.1 < stop) = [(place, float 32)]) :
    Lone leaves start stop place := by
  have member : (place, float 32) ∈ leaves.filter fun leaf => start ≤ leaf.1 && leaf.1 < stop := by
    rw [filtered]
    exact List.mem_singleton_self _
  simp only [List.mem_filter, Bool.and_eq_true, decide_eq_true_eq] at member
  obtain ⟨member, low, high⟩ := member
  refine ⟨member, low, high, fun leaf part low high => ?_⟩
  have found : leaf ∈ leaves.filter fun leaf => start ≤ leaf.1 && leaf.1 < stop := by
    simp only [List.mem_filter, Bool.and_eq_true, decide_eq_true_eq]
    exact ⟨part, low, high⟩
  rw [filtered] at found
  exact List.mem_singleton.mp found

/-- A register is wide enough for its bytes, or it is one for a float of four bytes that is alone
there. -/
theorem eightbyte_cases (leaves : List (Nat × MachineType)) (some : start < stop)
    (small : stop - start ≤ 8) : Wide (stop - start) (eightbyte leaves start stop) ∨
      ∃ place, Lone leaves start stop place ∧ eightbyte leaves start stop = float 32 := by
  have wide : Wide (stop - start) (int ((stop - start) * 8)) := wide_int (by omega) small
  unfold eightbyte
  dsimp only
  split
  · exact .inl wide
  · rename_i members
    obtain ⟨⟨place, _⟩, filtered, isFloat⟩ := List.map_eq_singleton_iff.mp members
    subst isFloat
    exact .inr ⟨place, lone_of_filter filtered, rfl⟩
  · exact .inl (wide_vector small)
  · split
    · exact .inl (wide_double small)
    · exact .inl wide

/-! ## The register types of small aggregates -/

variable {allowed : MachineType → Prop} {ty : MachineType} {bits len : Nat}

theorem sysvCast_of_le_eight (some : 0 < ty.size) (small : ty.size ≤ 8) :
    sysvCast ty.leaves ty.size = eightbyte ty.leaves 0 ty.size := by
  have count : (ty.size + 7) / 8 = 1 := by omega
  have stop : min (8 * 0 + 8) ty.size = ty.size := by omega
  rw [sysvCast, eightbytes, count]
  simp [stop]

theorem sysvCast_of_gt_eight (long : 8 < ty.size) (short : ty.size ≤ 16) :
    sysvCast ty.leaves ty.size =
      struct [eightbyte ty.leaves 0 8, eightbyte ty.leaves 8 ty.size] := by
  have count : (ty.size + 7) / 8 = 2 := by omega
  have first : min (8 * 0 + 8) ty.size = 8 := by omega
  have second : min (8 * 1 + 8) ty.size = ty.size := by omega
  rw [sysvCast, eightbytes, count]
  simp [List.range_succ, first, second]

theorem evenSize_int (bits : Nat) : EvenSize (int bits) := by
  change ∃ exponent, roundUpToPowerOfTwo _ = _
  unfold roundUpToPowerOfTwo
  split
  · exact ⟨0, rfl⟩
  · exact ⟨_, rfl⟩

/-- Scalars other than floats take a power of two of bytes, and so do floats of the usual widths. -/
theorem evenSize_of_isScalar (isScalar : ty.isScalar = true)
    (widths : ∀ bits, ty = float bits → bits ∈ [8, 16, 32, 64, 128]) : EvenSize ty := by
  cases ty with
  | int bits => exact evenSize_int bits
  | ptr => exact ⟨3, rfl⟩
  | float bits =>
    have width := widths bits rfl
    simp only [List.mem_cons, List.not_mem_nil, or_false] at width
    rcases width with rfl | rfl | rfl | rfl | rfl
    · exact ⟨0, rfl⟩
    · exact ⟨1, rfl⟩
    · exact ⟨2, rfl⟩
    · exact ⟨3, rfl⟩
    · exact ⟨4, rfl⟩
  | void | struct | array | vector => cases isScalar

/-- A value in which nothing but floats of four bytes takes room is aligned to at most four bytes. -/
theorem Storable.align_le_four (storable : ty.Storable allowed)
    (floats : ∀ leaf ∈ ty.leaves, leaf.1 < ty.size → leaf.2 = float 32) : ty.align ≤ 4 := by
  refine align_le_of_floats (by decide) (storable.of_leaves fun leaf part => ?_)
  have room := storable.leaf_bounds part
  by_cases inside : leaf.1 < ty.size
  · exact ⟨32, floats leaf part inside, by rw [floats leaf part inside]; decide⟩
  · -- What starts at the end has no bytes.
    obtain ⟨isScalar, _⟩ := storable.leaf_allowed part
    have empty : leaf.2.size = 0 := by omega
    rw [align_of_isScalar isScalar, empty]
    cases scalar : leaf.2 with
    | float bits => exact ⟨bits, rfl, by decide⟩
    | int bits =>
      obtain ⟨exponent, _⟩ := evenSize_int bits
      have positive := Nat.two_pow_pos exponent
      rw [scalar] at empty
      omega
    | ptr =>
      rw [scalar] at empty
      cases empty
    | void | struct | array | vector =>
      rw [scalar] at isScalar
      cases isScalar

/-- Two registers that a struct places eight bytes apart. -/
structure Paired (first second : MachineType) : Prop where
  place : alignTo first.size second.align = 8
  widest : max first.align second.align = 8
  some : 1 ≤ second.size
  small : second.size ≤ 8

namespace Paired

variable {first second : MachineType} {byte : Nat}

theorem covers_first (covers : Covers first.leaves byte) :
    Covers (struct [first, second]).leaves byte := by
  rw [leaves_struct, fieldLeavesAt_zero_cons]
  exact covers.mono fun _ part => List.mem_append_left _ part

variable (paired : Paired first second)

include paired

theorem align_eq : (struct [first, second]).align = 8 := by
  rw [align, fieldsAlign, fieldsAlign, fieldsAlign, Nat.max_eq_left (align_pos second)]
  exact paired.widest

theorem size_eq : (struct [first, second]).size = 16 := by
  have wide : fieldsAlign [first, second] = 8 := paired.align_eq
  have some := paired.some
  have small := paired.small
  rw [size, fieldsEnd_zero_cons, fieldsEnd, fieldsEnd, paired.place, wide, alignTo]
  omega

theorem covers_second (covers : Covers second.leaves byte) :
    Covers (struct [first, second]).leaves (8 + byte) := by
  rw [leaves_struct, fieldLeavesAt_zero_cons, ← paired.place]
  exact covers.first.mono fun _ part => List.mem_append_right _ part

end Paired

theorem Wide.size_eq (wide : Wide 8 part) : part.size = 8 :=
  Nat.le_antisymm wide.size_le wide.size_ge

theorem Wide.align_eq (wide : Wide 8 part) : part.align = 8 :=
  Nat.le_antisymm (Nat.le_of_dvd (by decide) wide.align_dvd) wide.align_ge

/-- A float that is alone in the first bytes of a value lies at its start. -/
theorem Lone.place_eq_zero (lone : Lone ty.leaves 0 stop place) (storable : ty.Storable allowed)
    (some : 0 < stop) : place = 0 := by
  rcases storable.hollow_or_starts with hollow | ⟨scalar, first⟩
  · have member := lone.member
    rw [hollow.leaves] at member
    cases member
  · cases lone.alone _ first le_rfl some
    rfl

section

variable (storable : ty.Storable allowed) (long : 8 < ty.size) (short : ty.size ≤ 16)
  (whole : 8 ≤ ty.align → ty.size = 16)

include storable long short whole

/-- If the first register of a longer value holds four bytes only, then the second is full. -/
theorem eightbytes_cases : Wide 8 (eightbyte ty.leaves 0 8) ∨
      Lone ty.leaves 0 8 0 ∧ eightbyte ty.leaves 0 8 = float 32 ∧
        Wide 8 (eightbyte ty.leaves 8 ty.size) := by
  have eight : 0 < 8 := by decide
  rcases eightbyte_cases ty.leaves eight (by decide) with wide | ⟨place, lone, isFloat⟩
  · exact .inl wide
  · cases lone.place_eq_zero storable eight
    have start : Starts ty.leaves := ⟨_, lone.member⟩
    have alone := fun leaf part => lone.alone leaf part (Nat.zero_le leaf.1)
    rcases storable.lone_float start alone with ⟨size, _⟩ | aligned
    · omega
    · have size := whole aligned
      rcases eightbyte_cases ty.leaves long (by omega) with wide | ⟨place, second, _⟩
      · rw [size] at wide ⊢
        exact .inr ⟨lone, isFloat, wide⟩
      · have narrow : ty.align ≤ 4 := by
          refine storable.align_le_four fun leaf part inside => ?_
          by_cases low : leaf.1 < 8
          · rw [alone leaf part low]
          · rw [second.alone leaf part (by omega) inside]
        omega

theorem eightbytes_paired : Paired (eightbyte ty.leaves 0 8) (eightbyte ty.leaves 8 ty.size) := by
  rcases eightbytes_cases storable long short whole with first | ⟨_, isFloat, second⟩
  · have fits : ∀ second : MachineType, 1 ≤ second.size → second.size ≤ 8 → second.align ∣ 8 →
        Paired (eightbyte ty.leaves 0 8) second := by
      intro second some small divides
      refine ⟨?_, ?_, some, small⟩
      · rw [first.size_eq]
        exact alignTo_of_dvd (align_pos second) divides
      · rw [first.align_eq]
        exact Nat.max_eq_left (Nat.le_of_dvd (by decide) divides)
    rcases eightbyte_cases ty.leaves long (by omega) with second | ⟨_, _, isFloat⟩
    · have room := second.size_ge
      exact fits _ (by omega) second.size_le second.align_dvd
    · rw [isFloat]
      exact fits _ (by decide) (by decide) (by decide)
  · have size := second.size_eq
    refine ⟨?_, ?_, by omega, size.le⟩
    · rw [isFloat, second.align_eq]
      decide
    · rw [isFloat, second.align_eq]
      decide

end

/-! ## Bytes in registers -/

/-- A scalar of at most sixteen bytes that reaches from the first eight bytes into the next is all
of them. -/
theorem Storable.straddling (even : ty.Storable EvenSize) (short : ty.size ≤ 16)
    {leaf : Nat × MachineType} (member : leaf ∈ ty.leaves) (low : leaf.1 < 8)
    (high : 8 < leaf.1 + leaf.2.size) : leaf.1 = 0 ∧ leaf.2.size = 16 := by
  obtain ⟨isScalar, exponent, size⟩ := even.leaf_allowed member
  obtain ⟨aligned, _⟩ := even.leaf_aligned member
  have room := even.leaf_bounds member
  rw [align_of_isScalar isScalar, size, naturalAlign_two_pow] at aligned
  have small : exponent ≤ 4 := by
    by_contra large
    have huge : 2 ^ 5 ≤ 2 ^ exponent := Nat.pow_le_pow_right (by decide) (by omega)
    omega
  rw [Nat.min_eq_left small] at aligned
  rw [size] at high ⊢
  interval_cases exponent <;> omega

/-- If a float of four bytes is alone in the second eight bytes, then it lies at their start, and
nothing else reaches into them. -/
theorem Lone.second (lone : Lone ty.leaves 8 ty.size place) (even : ty.Storable EvenSize)
    (short : ty.size ≤ 16) :
    ∀ leaf ∈ ty.leaves, 8 < leaf.1 + leaf.2.size → leaf = (8, float 32) := by
  have low := lone.low
  have high := lone.high
  have reaching : ∀ leaf ∈ ty.leaves, 8 < leaf.1 + leaf.2.size → leaf = (place, float 32) := by
    intro leaf member reaches
    by_contra distinct
    have filled := even.leaf_size_pos member
    have room := even.leaf_bounds member
    have before : leaf.1 < 8 := by
      by_contra behind
      exact distinct (lone.alone leaf member (by omega) (by omega))
    obtain ⟨start, _⟩ := even.straddling short member before reaches
    rcases even.apart member lone.member distinct with apart | apart <;> dsimp only at apart <;> omega
  have start : place = 8 := by
    have aligned : 4 ∣ place := (even.leaf_aligned lone.member).1
    have room : place + 4 ≤ ty.size := even.leaf_bounds lone.member
    by_contra later
    -- The four bytes before the float are not all padding, and nothing else can fill them.
    obtain ⟨_, close, before, leaf, member, start, _⟩ :=
      even.word_before lone.member (show place % 8 = 4 by omega)
    dsimp only at close before
    rw [reaching leaf member (by omega)] at start
    dsimp only at start
    omega
  subst start
  exact reaching

theorem covers_array (isScalar : part.isScalar = true) :
    ∀ byte < (array part len).size, Covers (array part len).leaves byte := by
  intro byte inside
  have inside : byte < part.size * len := inside
  have filled : 0 < part.size := Nat.pos_of_mul_pos_right (Nat.zero_lt_of_lt inside)
  have cell := leaves_of_isScalar isScalar
  refine ⟨(byte / part.size * part.size, part), ?_, Nat.div_mul_le_self _ _, Nat.lt_div_mul_add filled⟩
  rw [leaves, leavesAt, List.mem_flatMap]
  refine ⟨byte / part.size, List.mem_range.mpr (Nat.div_lt_of_lt_mul inside), ?_⟩
  rw [leavesAt_eq, cell]
  simp

/-- The scalars have room in the type, and none of their bytes falls into its padding. -/
structure Held (ty registers : MachineType) : Prop where
  size_le : ty.size ≤ registers.size
  covers : ∀ leaf ∈ ty.leaves, ∀ byte, leaf.1 ≤ byte → byte < leaf.1 + leaf.2.size →
    Covers registers.leaves byte

section

variable (storable : ty.Storable allowed)

include storable

/-- A type without padding holds every value that is not larger. -/
theorem Storable.held_of_full {registers : MachineType} (large : ty.size ≤ registers.size)
    (full : ∀ byte < registers.size, Covers registers.leaves byte) : Held ty registers := by
  refine ⟨large, fun _ member byte _ high => full byte ?_⟩
  exact Nat.lt_of_lt_of_le high ((storable.leaf_bounds member).trans large)

theorem held_aapcsCast (short : ty.size ≤ 16) : Held ty (aapcsCast ty.size) := by
  unfold aapcsCast
  split
  case isTrue small => exact storable.held_of_full small (covers_of_isScalar rfl)
  case isFalse => exact storable.held_of_full short (covers_array rfl)

theorem held_floats (width : bits ∈ [16, 32, 64, 128])
    (floats : ∀ leaf ∈ ty.leaves, leaf.2 = float bits) :
    Held ty (array (float bits) ty.leaves.length) := by
  have bounds : 1 ≤ bits / 8 ∧ bits / 8 ≤ 16 := by
    simp only [List.mem_cons, List.not_mem_nil, or_false] at width
    omega
  have size := ((storable.of_leaves floats).size_of_floats bounds.1 bounds.2).1
  refine storable.held_of_full ?_ (covers_array rfl)
  rw [size, Nat.mul_comm]
  rfl

end

section

variable (even : ty.Storable EvenSize)

include even

theorem held_eightbyte (some : 0 < ty.size) (small : ty.size ≤ 8) :
    Held ty (eightbyte ty.leaves 0 ty.size) := by
  rcases eightbyte_cases ty.leaves some small with wide | ⟨place, lone, isFloat⟩
  · exact even.held_of_full wide.size_ge wide.covers
  · cases lone.place_eq_zero even some
    have alone : ∀ leaf ∈ ty.leaves, leaf = (0, float 32) := by
      intro leaf member
      have filled := even.leaf_size_pos member
      have room := even.leaf_bounds member
      exact lone.alone leaf member (Nat.zero_le _) (by omega)
    have narrow : ty.align ≤ 4 :=
      even.align_le_four fun leaf member _ => by rw [alone leaf member]
    have size : ty.size = 4 := by
      rcases even.lone_float ⟨_, lone.member⟩ (fun leaf member _ => alone leaf member) with
        ⟨size, _⟩ | wide
      · exact size
      · omega
    rw [isFloat]
    exact even.held_of_full size.le (covers_of_isScalar rfl)

theorem held_eightbytes (long : 8 < ty.size) (short : ty.size ≤ 16) :
    Held ty (struct [eightbyte ty.leaves 0 8, eightbyte ty.leaves 8 ty.size]) := by
  have whole : 8 ≤ ty.align → ty.size = 16 := by
    intro wide
    have divides : 8 ∣ ty.size :=
      (Storable.dvd_of_le ⟨2, rfl⟩ even.align_dvd_sixteen wide).trans even.align_dvd_size
    omega
  have paired := eightbytes_paired even long short whole
  refine ⟨by rw [paired.size_eq]; exact short, fun leaf member byte _ high => ?_⟩
  have room := even.leaf_bounds member
  by_cases early : byte < 8
  · refine Paired.covers_first ?_
    rcases eightbytes_cases even long short whole with wide | ⟨lone, isFloat, _⟩
    · exact wide.covers byte (by rwa [wide.size_eq])
    · rw [lone.alone leaf member (Nat.zero_le _) (by omega)] at high
      rw [isFloat]
      exact covers_of_isScalar rfl byte (by rwa [Nat.zero_add] at high)
  · obtain ⟨inner, rfl⟩ := Nat.exists_eq_add_of_le (Nat.not_lt.mp early)
    refine paired.covers_second ?_
    rcases eightbyte_cases ty.leaves long (by omega) with wide | ⟨place, lone, isFloat⟩
    · have size := wide.size_ge
      exact wide.covers inner (by omega)
    · rw [lone.second even short leaf member (by omega)] at high
      rw [isFloat]
      exact covers_of_isScalar rfl inner (Nat.lt_of_add_lt_add_left high)

theorem held_sysvCast (some : 0 < ty.size) (short : ty.size ≤ 16) :
    Held ty (sysvCast ty.leaves ty.size) := by
  by_cases small : ty.size ≤ 8
  · rw [sysvCast_of_le_eight some small]
    exact held_eightbyte even some small
  · rw [sysvCast_of_gt_eight (by omega) short]
    exact held_eightbytes even (by omega) short

/-! ## Alignment of registers -/

end

theorem eightbyte_align_le (some : start < stop) (small : stop - start ≤ 8) :
    (eightbyte leaves start stop).align ≤ 8 := by
  rcases eightbyte_cases leaves some small with wide | ⟨_, _, isFloat⟩
  · exact Nat.le_of_dvd (by decide) wide.align_dvd
  · rw [isFloat]
    decide

theorem sysvCast_align_le (some : 0 < ty.size) (short : ty.size ≤ 16) :
    (sysvCast ty.leaves ty.size).align ≤ 8 := by
  by_cases small : ty.size ≤ 8
  · rw [sysvCast_of_le_eight some small]
    exact eightbyte_align_le some small
  · rw [sysvCast_of_gt_eight (by omega) short]
    refine fieldsAlign_le (by decide) (List.forall_mem_cons.mpr ⟨?_, ?_⟩)
    · exact eightbyte_align_le (by decide) (by decide)
    · exact List.forall_mem_singleton.mpr (eightbyte_align_le (by omega) (by omega))

/-- The registers are aligned as the value is, up to eight bytes. -/
theorem le_sysvCast_align (storable : ty.Storable allowed) (whole : ty.align ∣ ty.size)
    (some : 0 < ty.size) (short : ty.size ≤ 16) (narrow : ty.align ≤ 8) :
    ty.align ≤ (sysvCast ty.leaves ty.size).align := by
  by_cases small : ty.size ≤ 8
  · rw [sysvCast_of_le_eight some small]
    rcases eightbyte_cases ty.leaves some small with wide | ⟨place, lone, isFloat⟩
    · exact (Nat.le_of_dvd some whole).trans wide.align_ge
    · rw [isFloat]
      refine storable.align_le_four fun leaf member inside => ?_
      rw [lone.alone leaf member (Nat.zero_le _) inside]
  · have full : 8 ≤ ty.align → ty.size = 16 := by
      intro wide
      have divides : 8 ∣ ty.size := Nat.le_antisymm narrow wide ▸ whole
      omega
    rw [sysvCast_of_gt_eight (by omega) short,
      (eightbytes_paired storable (by omega) short full).align_eq]
    exact narrow

theorem sysvCast_ne_array (some : 0 < ty.size) (short : ty.size ≤ 16) :
    sysvCast ty.leaves ty.size ≠ array (float bits) len := by
  intro same
  by_cases small : ty.size ≤ 8
  · rw [sysvCast_of_le_eight some small] at same
    unfold eightbyte at same
    dsimp only at same
    repeat' split at same
    all_goals cases same
  · rw [sysvCast_of_gt_eight (by omega) short] at same
    cases same

end MachineType

/-! ## Classified values -/

namespace ArgClass

/-- The register types that a value may be reinterpreted as. -/
inductive CastTo (native : MachineType) : MachineType → Prop where
  /-- Equal floats, one register for each. -/
  | floats (bits : Nat) (some : native.leaves ≠ [])
      (each : ∀ leaf ∈ native.leaves, leaf.2 = float bits) :
      CastTo native (array (float bits) native.leaves.length)
  /-- One or two integers. -/
  | words (short : native.size ≤ 16) : CastTo native (aapcsCast native.size)
  /-- A register for every eight bytes, chosen by the scalars in them. -/
  | eightbytes (short : native.size ≤ 16) : CastTo native (sysvCast native.leaves native.size)

variable {target : Target} {table : TypeTable} {ty : Ty} {native registers : MachineType}

theorem castTo_of_homogeneousFloats?
    (cast : homogeneousFloats? native.leaves = some registers) : CastTo native registers := by
  unfold homogeneousFloats? at cast
  split at cast
  case h_2 => cases cast
  case h_1 offset bits rest leaves =>
    dsimp only at cast
    split at cast
    case isFalse => cases cast
    case isTrue equal =>
      rw [← leaves, Bool.and_eq_true, List.all_eq_true] at equal
      cases cast
      rw [← leaves]
      refine .floats bits (by rw [leaves]; exact List.cons_ne_nil _ _) fun leaf member => ?_
      exact beq_iff_eq.mp (equal.2 leaf member)

theorem castTo_of_classifyAggregate
    (cast : (classifyAggregate target native).2 = some registers) : CastTo native registers := by
  unfold classifyAggregate at cast
  split at cast
  case h_1 =>
    split at cast
    case h_1 found =>
      cases cast
      exact castTo_of_homogeneousFloats? found
    case h_2 =>
      split at cast
      case isTrue => cases cast
      case isFalse short =>
        cases cast
        exact .words (Nat.not_lt.mp short)
  case h_2 =>
    split at cast
    case isTrue => cases cast
    case isFalse short =>
      cases cast
      exact .eightbytes (Nat.not_lt.mp short)

/-- Only structs with bytes are reinterpreted. -/
theorem castTo_of_ofTy (cast : (ofTy target table ty).cast = some registers) :
    0 < table.sizeOf ty ∧ table.alignOf ty ∣ table.sizeOf ty ∧
      CastTo (table.foreignType ty) registers := by
  change (classifyKind target (table.foreignType ty)).2 = some registers at cast
  unfold TypeTable.sizeOf TypeTable.alignOf
  have storable : (table.foreignType ty).Storable fun _ => True := table.foreignType_storable ty
  unfold classifyKind at cast
  split at cast
  case isTrue => cases cast
  case isFalse filled =>
    split at cast
    case h_1 fields same =>
      rw [same] at filled cast ⊢
      exact ⟨Nat.pos_of_ne_zero filled, dvd_alignTo _, castTo_of_classifyAggregate cast⟩
    case h_2 elem len same =>
      rw [same] at storable
      cases storable with
      | scalar isScalar => cases isScalar
    case h_3 => cases cast

namespace CastTo

variable (cast : CastTo native registers) (storable : native.Storable fun _ => True)
  (some : 0 < native.size)

include cast storable some

theorem held
    (widths : ∀ leaf ∈ native.leaves, ∀ bits, leaf.2 = float bits → bits ∈ [16, 32, 64, 128]) :
    Held native registers := by
  cases cast with
  | floats bits some each =>
    obtain ⟨leaf, member⟩ := List.exists_mem_of_ne_nil _ some
    exact held_floats storable (widths leaf member bits (each leaf member)) each
  | words short => exact held_aapcsCast storable short
  | eightbytes short =>
    have even : native.Storable EvenSize := storable.of_leaves fun leaf member =>
      evenSize_of_isScalar (storable.leaf_allowed member).1 fun bits isFloat =>
        List.mem_cons_of_mem _ (widths leaf member bits isFloat)
    exact held_sysvCast even some short

theorem align_le_iff (whole : native.align ∣ native.size) : native.align ≤ registers.align ↔
      native.align ≤ 8 ∨ ∃ bits len, registers = array (float bits) len := by
  cases cast with
  | floats bits some each =>
    refine iff_of_true ?_ (.inr ⟨_, _, rfl⟩)
    have floats : native.Storable fun scalar =>
        ∃ width, scalar = float width ∧ scalar.align ≤ (float bits).align := by
      refine storable.of_leaves fun leaf member => ?_
      rw [each leaf member]
      exact ⟨bits, rfl, le_rfl⟩
    exact floats.align_le_of_floats (align_pos _)
  | words short =>
    have align : (aapcsCast native.size).align = 8 := by
      unfold aapcsCast
      split <;> rfl
    rw [align]
    refine ⟨.inl, Or.rec id ?_⟩
    rintro ⟨bits, len, same⟩
    unfold aapcsCast at same
    split at same <;> cases same
  | eightbytes short =>
    refine ⟨fun aligned => .inl (aligned.trans (sysvCast_align_le some short)), Or.rec ?_ ?_⟩
    · exact le_sysvCast_align storable whole some short
    · rintro ⟨bits, len, same⟩
      exact absurd same (sysvCast_ne_array some short)

end CastTo

end ArgClass

namespace Signature

/-- The prototype has the type among its parameters or as its result, and classifies it so. -/
def Passes (signature : Signature) (target : Target) (table : TypeTable) (ty : Ty) (cls : ArgClass) :
    Prop :=
  (ty, cls) ∈ (signature.ret, (signature.classify target table).ret) ::
    signature.params.zip (signature.classify target table).args

variable {signature : Signature} {target : Target} {table : TypeTable} {ty : Ty} {cls : ArgClass}
  {registers : MachineType}

theorem Passes.eq_ofTy (passes : signature.Passes target table ty cls) :
    cls = ofTy target table ty := by
  unfold Passes classify at passes
  rw [← List.map_prod_left_eq_zip, List.mem_cons, List.mem_map] at passes
  rcases passes with same | ⟨param, _, same⟩ <;> cases same <;> rfl

/-- The registers of a value have room for it and hold every byte of its scalars. -/
theorem cast_covers (passes : signature.Passes target table ty cls)
    (cast : cls.cast = some registers)
    (widths : ∀ leaf ∈ table.leavesOf ty, ∀ bits, leaf.2 = float bits → bits ∈ [16, 32, 64, 128]) :
    cls.size ≤ registers.size ∧
      ∀ leaf ∈ table.leavesOf ty, ∀ byte, leaf.1 ≤ byte → byte < leaf.1 + leaf.2.size →
        Covers registers.leaves byte := by
  cases passes.eq_ofTy
  obtain ⟨some, _, castTo⟩ := castTo_of_ofTy cast
  have held := castTo.held (table.foreignType_storable ty) some widths
  exact ⟨held.size_le, held.covers⟩

/-- A float and an integer fill one register each. -/
theorem cast_covers_sample : let table : TypeTable :=
      ⟨[⟨"Sample", none, [⟨"weight", .float 32⟩, ⟨"count", .int 64 true⟩]⟩], []⟩
    let sample := Ty.struct "Sample"
    let cls := ofTy .x86_64 table sample
    let registers := struct [float 32, int 64]
    (⟨[sample], .nil⟩ : Signature).Passes .x86_64 table sample cls ∧ cls.cast = some registers ∧
      cls.size ≤ registers.size ∧ Covers registers.leaves 3 ∧ Covers registers.leaves 15 := by
  intro table sample cls registers
  have passes : (⟨[sample], .nil⟩ : Signature).Passes .x86_64 table sample cls :=
    List.mem_cons_of_mem _ List.mem_cons_self
  have cast : cls.cast = some registers := by decide
  have leaves : table.leavesOf sample = [(0, float 32), (8, int 64)] := by decide
  have widths : ∀ leaf ∈ table.leavesOf sample, ∀ bits, leaf.2 = float bits →
      bits ∈ [16, 32, 64, 128] := by
    rw [leaves, List.forall_mem_cons, List.forall_mem_singleton]
    refine ⟨fun bits isFloat => ?_, nofun⟩
    cases isFloat
    decide
  obtain ⟨size, covers⟩ := cast_covers passes cast widths
  rw [leaves] at covers
  exact ⟨passes, cast, size, covers (0, float 32) (by decide) 3 (by decide) (by decide),
    covers (8, int 64) (by decide) 15 (by decide) (by decide)⟩

/-- The registers of a value are aligned as it is exactly if eight bytes are enough for it or it
consists of equal floats. -/
theorem cast_align_iff (passes : signature.Passes target table ty cls)
    (cast : cls.cast = some registers) :
    cls.align ≤ registers.align ↔
      cls.align ≤ 8 ∨ ∃ bits len, registers = array (float bits) len := by
  cases passes.eq_ofTy
  obtain ⟨some, whole, castTo⟩ := castTo_of_ofTy cast
  exact castTo.align_le_iff (table.foreignType_storable ty) some whole

/-- Two floats of sixteen bytes keep their alignment in float registers. -/
theorem cast_align_iff_pair :
    let table : TypeTable := ⟨[⟨"Pair", none, [⟨"low", .float 128⟩, ⟨"high", .float 128⟩]⟩], []⟩
    let pair := Ty.struct "Pair"
    let cls := ofTy .aarch64 table pair
    let registers := array (float 128) 2
    (⟨[], pair⟩ : Signature).Passes .aarch64 table pair cls ∧ cls.cast = some registers ∧
      cls.align ≤ registers.align ∧ ¬cls.align ≤ 8 := by
  intro table pair cls registers
  have passes : (⟨[], pair⟩ : Signature).Passes .aarch64 table pair cls := List.mem_cons_self
  have cast : cls.cast = some registers := by decide
  exact ⟨passes, cast, (cast_align_iff passes cast).mpr (.inr ⟨128, 2, rfl⟩), by decide⟩

/-- Not all values keep their alignment in registers: an integer of sixteen bytes travels as two
integers of eight. -/
theorem not_cast_aligned :
    ¬∀ (target : Target) (table : TypeTable) (signature : Signature) (ty : Ty) (cls : ArgClass)
      (registers : MachineType), signature.Passes target table ty cls → cls.kind = .direct →
      cls.cast = some registers → cls.align ≤ registers.align := by
  intro aligned
  let table : TypeTable := ⟨[⟨"Wide", none, [⟨"whole", .int 128 true⟩]⟩], []⟩
  have same := aligned .x86_64 table ⟨[], .struct "Wide"⟩ (.struct "Wide") _
    (struct [int 64, int 64]) List.mem_cons_self (by decide) (by decide)
  exact absurd same (by decide)

end Signature

namespace TypeTable

/-- The scalars of a value that crosses into foreign code follow one another inside it, each at a
multiple of its alignment. The size of the value is a multiple of its own alignment, and zero only
without scalars. -/
theorem leaves_placed {table : TypeTable} {ty : Ty} (widths : ∀ leaf ∈ table.leavesOf ty,
      ∀ bits, leaf.2 = float bits → bits ∈ [8, 16, 32, 64, 128]) :
    table.alignOf ty ∈ [1, 2, 4, 8, 16] ∧ table.alignOf ty ∣ table.sizeOf ty ∧
      (table.leavesOf ty).Pairwise (fun a b => a.1 < b.1 ∧ a.1 + a.2.size ≤ b.1) ∧
      (∀ leaf ∈ table.leavesOf ty,
        leaf.2.align ∣ leaf.1 ∧ leaf.1 + leaf.2.size ≤ table.sizeOf ty) ∧
      (table.sizeOf ty = 0 ↔ table.leavesOf ty = []) := by
  have storable := table.foreignType_storable ty
  have even : (table.foreignType ty).Storable EvenSize := storable.of_leaves fun leaf part =>
    evenSize_of_isScalar (storable.leaf_allowed part).1 (widths leaf part)
  refine ⟨?_, even.align_dvd_size, ?_, fun leaf part => ?_, ?_⟩
  · simpa [alignOf] using Storable.cases_of_dvd_sixteen even.align_dvd_sixteen
  · refine even.leaves_pairwise.imp_of_mem fun first _ before => ⟨?_, before⟩
    have filled := even.leaf_size_pos first
    omega
  · exact ⟨(even.leaf_aligned part).1, even.leaf_bounds part⟩
  · rcases even.hollow_or_starts with hollow | ⟨scalar, first⟩
    · exact iff_of_true hollow.size hollow.leaves
    · have filled := even.leaf_size_pos first
      have room := even.leaf_bounds first
      exact iff_of_false (fun empty : (table.foreignType ty).size = 0 => by omega)
        (List.ne_nil_of_mem first)

/-- A float of one byte, and an aligned union behind it. -/
theorem leaves_placed_cell : let table : TypeTable :=
      ⟨[⟨"Cell", none, [⟨"mark", .float 8⟩, ⟨"content", .union [.nil, .int 128 true]⟩]⟩], []⟩
    table.leavesOf (.struct "Cell") = [(0, float 8), (8, int 32), (16, int 64), (24, int 64)] ∧
      table.alignOf (.struct "Cell") ∣ table.sizeOf (.struct "Cell") ∧
      (int 64).align ∣ 24 ∧ 24 + (int 64).size ≤ table.sizeOf (.struct "Cell") := by
  intro table
  have leaves : table.leavesOf (.struct "Cell") =
      [(0, float 8), (8, int 32), (16, int 64), (24, int 64)] := by decide
  have widths : ∀ leaf ∈ table.leavesOf (.struct "Cell"), ∀ bits, leaf.2 = float bits →
      bits ∈ [8, 16, 32, 64, 128] := by
    simp [leaves]
  obtain ⟨_, whole, _, placed, _⟩ := leaves_placed widths
  exact ⟨leaves, whole, placed (24, int 64) (by rw [leaves]; decide)⟩

end TypeTable

end CallLowering
