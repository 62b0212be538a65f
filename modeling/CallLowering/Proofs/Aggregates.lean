import CallLowering.Proofs.Inheritance
import CallLowering.Proofs.Registers

/-!
# Structs and unions by their bytes

On x86-64 a small struct or union travels in a register for every eight bytes, chosen by the scalars
that start there. Scalars are aligned, so those are the ones with a byte there
(`Signature.sysv_registers`).

The payload of a union is as large as its largest member, but it consists of words: members with
larger scalars are not aligned in it (`TypeTable.union_payload`).
-/

namespace CallLowering

open MachineType ArgClass

/-! ## Registers by the scalars in them -/

namespace MachineType

/-- A scalar of at most eight bytes: a pointer, an integer, or a float of four or eight bytes. -/
inductive Short : MachineType → Prop where
  | ptr : Short ptr
  | int {bits : Nat} (small : bits ≤ 64) : Short (int bits)
  | single : Short (float 32)
  | double : Short (float 64)

def IsFloat (ty : MachineType) : Prop := ∃ bits, ty = float bits

/-- The type is that of a register for floats. -/
def IsFloatRegister (ty : MachineType) : Prop :=
  ty.IsFloat ∨ ∃ elem len, ty = vector elem len ∧ elem.IsFloat

/-- The registers that a register type consists of. -/
def registers : MachineType → List MachineType
  | struct parts => parts
  | part => [part]

/-- Whether a scalar has a byte among the eight that the `k`th register is for. -/
def overlaps (k : Nat) (leaf : Nat × MachineType) : Bool :=
  leaf.1 < 8 * k + 8 && 8 * k < leaf.1 + leaf.2.size

/-- A register is one for floats exactly if it holds scalars and they are floats. Then it is as
wide as they are, and otherwise it is an integer of all bytes. -/
structure RegisterFor (scalars : List MachineType) (bytes : Nat) (part : MachineType) : Prop where
  isFloat : part.IsFloatRegister ↔ scalars ≠ [] ∧ ∀ scalar ∈ scalars, scalar.IsFloat
  float : part.IsFloatRegister → scalars = [float 32] ∧ part = float 32 ∨
    scalars = [float 32, float 32] ∧ part = vector (float 32) 2 ∨
    scalars = [float 64] ∧ part = float 64
  integer : ¬part.IsFloatRegister → part = int (bytes * 8)

variable {ty : MachineType} {leaf : Nat × MachineType} {scalars : List MachineType} {bytes k : Nat}

theorem Short.size_dvd (short : ty.Short) : ty.size ∣ 8 := by
  cases short with
  | ptr => decide
  | @int bits small =>
    have powers : ∀ n ≤ 8, roundUpToPowerOfTwo n ∣ 8 := by decide
    exact powers ((bits + 7) / 8) (by omega)
  | single => decide
  | double => decide

theorem registerFor_int (mixed : ¬(scalars ≠ [] ∧ ∀ scalar ∈ scalars, scalar.IsFloat)) :
    RegisterFor scalars bytes (int (bytes * 8)) := by
  have integer : ¬(int (bytes * 8)).IsFloatRegister := by
    rintro (⟨_, same⟩ | ⟨_, _, same, _⟩) <;> cases same
  exact ⟨iff_of_false integer mixed, fun isFloat => absurd isFloat integer, fun _ => rfl⟩

theorem RegisterFor.registers_eq (chosen : RegisterFor scalars bytes ty) : ty.registers = [ty] := by
  by_cases isFloat : ty.IsFloatRegister
  · rcases chosen.float isFloat with ⟨_, rfl⟩ | ⟨_, rfl⟩ | ⟨_, rfl⟩ <;> rfl
  · rw [chosen.integer isFloat]
    rfl

variable (storable : ty.Storable Short)

include storable

/-- A short scalar has all its bytes in one register. -/
theorem Storable.leaf_within (part : leaf ∈ ty.leaves) :
    0 < leaf.2.size ∧ leaf.1 % 8 + leaf.2.size ≤ 8 := by
  have even : ty.Storable EvenSize := storable.of_leaves fun leaf part => by
    obtain ⟨isScalar, short⟩ := storable.leaf_allowed part
    refine evenSize_of_isScalar isScalar fun _ isFloat => ?_
    rw [isFloat] at short
    cases short <;> decide
  obtain ⟨isScalar, short⟩ := storable.leaf_allowed part
  have divides := short.size_dvd
  have filled := even.leaf_size_pos part
  have small := Nat.le_of_dvd (by decide) divides
  have natural : leaf.2.align = leaf.2.size := by
    rw [align_of_isScalar isScalar, naturalAlign]
    omega
  obtain ⟨aligned, _⟩ := even.leaf_aligned part
  rw [natural] at aligned
  refine ⟨filled, Nat.le_of_lt_add_of_dvd (by omega) ?_ divides⟩
  exact Nat.dvd_add ((Nat.dvd_mod_iff divides).mpr aligned) dvd_rfl

/-- Eight bytes have room for one float or for two of four bytes. -/
theorem Storable.overlapping_floats
    (floats : ∀ leaf ∈ ty.leaves.filter (overlaps k), leaf.2.IsFloat) :
    ty.leaves.filter (overlaps k) = [] ∨
      (ty.leaves.filter (overlaps k)).map (·.2) ∈ [[float 32], [float 32, float 32], [float 64]] := by
  have apart := storable.leaves_pairwise.filter (overlaps k)
  have each : ∀ leaf ∈ ty.leaves.filter (overlaps k), 8 * k ≤ leaf.1 ∧
      leaf.1 + leaf.2.size ≤ 8 * k + 8 ∧ (leaf.2 = float 32 ∧ leaf.2.size = 4 ∨
        leaf.2 = float 64 ∧ leaf.2.size = 8) := by
    intro leaf found
    obtain ⟨_, isFloat⟩ := floats leaf found
    obtain ⟨part, here⟩ := List.mem_filter.mp found
    have inside := storable.leaf_within part
    simp only [overlaps, Bool.and_eq_true, decide_eq_true_eq] at here
    refine ⟨by omega, by omega, ?_⟩
    have short := (storable.leaf_allowed part).2
    rw [isFloat] at short ⊢
    cases short with
    | single => exact .inl ⟨rfl, rfl⟩
    | double => exact .inr ⟨rfl, rfl⟩
  clear floats
  generalize ty.leaves.filter (overlaps k) = found at *
  rcases found with _ | ⟨a, _ | ⟨b, rest⟩⟩
  · exact .inl rfl
  · obtain ⟨same, _⟩ | ⟨same, _⟩ := (each a List.mem_cons_self).2.2 <;> simp [same]
  · obtain ⟨afterA, apart⟩ := List.pairwise_cons.mp apart
    obtain ⟨afterB, _⟩ := List.pairwise_cons.mp apart
    obtain ⟨_, _, sizeA⟩ := each a List.mem_cons_self
    obtain ⟨_, _, sizeB⟩ := each b (List.mem_cons_of_mem _ List.mem_cons_self)
    have between := afterA b List.mem_cons_self
    have none : rest = [] := List.eq_nil_iff_forall_not_mem.mpr fun c member => by
      have behind := afterB c member
      have room := each c (List.mem_cons_of_mem _ (List.mem_cons_of_mem _ member))
      omega
    subst none
    simp [(sizeA.resolve_right (by omega)).1, (sizeB.resolve_right (by omega)).1]

/-- A register is chosen by the scalars that have a byte in it. -/
theorem Storable.registerFor_eightbyte (k : Nat) :
    RegisterFor ((ty.leaves.filter (overlaps k)).map (·.2)) (min (8 * k + 8) ty.size - 8 * k)
      (eightbyte ty.leaves (8 * k) (min (8 * k + 8) ty.size)) := by
  have starts : ty.leaves.filter (fun leaf => 8 * k ≤ leaf.1 && leaf.1 < min (8 * k + 8) ty.size) =
      ty.leaves.filter (overlaps k) := List.filter_congr fun _ part => by
    have inside := storable.leaf_within part
    have bounds := storable.leaf_bounds part
    rw [Bool.eq_iff_iff]
    simp only [overlaps, Bool.and_eq_true, decide_eq_true_eq]
    omega
  have floats := storable.overlapping_floats (k := k)
  unfold eightbyte
  rw [starts]
  generalize ty.leaves.filter (overlaps k) = found at floats ⊢
  dsimp only
  by_cases pure : found.map (·.2) ≠ [] ∧ ∀ scalar ∈ found.map (·.2), scalar.IsFloat
  · have single : (float 32).IsFloatRegister := .inl ⟨32, rfl⟩
    have pair : (vector (float 32) 2).IsFloatRegister := .inr ⟨_, 2, rfl, 32, rfl⟩
    have double : (float 64).IsFloatRegister := .inl ⟨64, rfl⟩
    obtain rfl | some := floats fun _ member => pure.2 _ (List.mem_map_of_mem member)
    · exact absurd rfl pure.1
    · simp only [List.mem_cons, List.not_mem_nil, or_false] at some
      rcases some with same | same | same <;> rw [same] at pure ⊢
      · exact ⟨iff_of_true single pure, fun _ => .inl ⟨rfl, rfl⟩, absurd single⟩
      · exact ⟨iff_of_true pair pure, fun _ => .inr (.inl ⟨rfl, rfl⟩), absurd pair⟩
      · exact ⟨iff_of_true double pure, fun _ => .inr (.inr ⟨rfl, rfl⟩), absurd double⟩
  · have integer := fun bytes => @registerFor_int _ bytes pure
    split
    · exact integer _
    · rename_i same
      simp [same, IsFloat] at pure
    · rename_i same
      simp [same, IsFloat] at pure
    · rename_i some _ _
      split
      · rename_i all
        refine absurd ⟨some, fun scalar member => ?_⟩ pure
        have isFloat := List.all_eq_true.mp all scalar member
        cases scalar with
        | float bits => exact ⟨bits, rfl⟩
        | _ => cases isFloat
      · exact integer _

theorem Storable.registers_sysvCast :
    (sysvCast ty.leaves ty.size).registers = eightbytes ty.leaves ty.size := by
  unfold sysvCast
  split
  · rename_i part same
    have member : part ∈ eightbytes ty.leaves ty.size := same ▸ List.mem_singleton_self _
    obtain ⟨k, _, rfl⟩ := List.mem_map.mp member
    rw [same, (storable.registerFor_eightbyte k).registers_eq]
  · rfl

end MachineType

theorem TypeTable.foreignType_aggregate {table : TypeTable} {ty : Ty}
    (aggregate : ty.passedByValue = true) : ∃ fields, table.foreignType ty = struct fields := by
  cases ty with
  | struct name =>
    change ∃ _, table.structTypeWithin table.structs.length name = _
    cases table.structs.length <;> exact ⟨_, rfl⟩
  | union members => exact ⟨_, rfl⟩
  | _ => cases aggregate

/-- Structs and unions of at most sixteen bytes travel in registers, one for every eight bytes, and
larger ones through memory. -/
theorem Signature.sysv_registers {signature : Signature} {table : TypeTable} {ty : Ty}
    {cls : ArgClass} (passes : signature.Passes .x86_64 table ty cls)
    (aggregate : ty.passedByValue = true) :
    (16 < table.sizeOf ty → cls.kind = .indirect) ∧
      (1 ≤ table.sizeOf ty → table.sizeOf ty ≤ 16 → (∀ leaf ∈ table.leavesOf ty, leaf.2.Short) →
        (∀ leaf ∈ table.leavesOf ty, leaf.1 % 8 + leaf.2.size ≤ 8) ∧ cls.kind = .direct ∧
        ∃ cast, cls.cast = some cast ∧ cast.registers.length = (table.sizeOf ty + 7) / 8 ∧
          ∀ k part, cast.registers[k]? = some part →
            RegisterFor (((table.leavesOf ty).filter (overlaps k)).map (·.2))
              (min (8 * k + 8) (table.sizeOf ty) - 8 * k) part) := by
  cases passes.eq_ofTy
  have storable := table.foreignType_storable ty
  obtain ⟨fields, isStruct⟩ := table.foreignType_aggregate aggregate
  unfold TypeTable.sizeOf TypeTable.leavesOf ofTy
  rw [isStruct] at storable ⊢
  dsimp only
  constructor
  · intro large
    rw [classifyKind, if_neg (by omega)]
    exact congrArg Prod.fst (if_pos large)
  · intro some small shorts
    have short := storable.of_leaves shorts
    have kind : classifyKind .x86_64 (struct fields) = (.direct,
        Option.some (sysvCast (struct fields).leaves (struct fields).size)) := by
      rw [classifyKind, if_neg (by omega)]
      exact if_neg (Nat.not_lt.mpr small)
    rw [kind]
    refine ⟨fun _ part => (short.leaf_within part).2, rfl, _, rfl, ?_⟩
    rw [short.registers_sysvCast, eightbytes, List.length_map, List.length_range]
    refine ⟨rfl, fun k _ found => ?_⟩
    rw [List.getElem?_map] at found
    obtain ⟨_, listed, rfl⟩ := Option.map_eq_some_iff.mp found
    obtain ⟨_, rfl⟩ := List.getElem?_eq_some_iff.mp listed
    rw [List.getElem_range]
    exact short.registerFor_eightbyte k

/-- Two floats share a register, and a short integer behind them has what is left of the next. -/
theorem Signature.sysv_registers_spot :
    let table : TypeTable := ⟨[⟨"Place", none, [⟨"x", .float 32⟩, ⟨"y", .float 32⟩]⟩,
      ⟨"Spot", none, [⟨"place", .struct "Place"⟩, ⟨"hits", .int 16 true⟩]⟩], []⟩
    let spot := Ty.struct "Spot"
    let cls := ofTy .x86_64 table spot
    (⟨[], spot⟩ : Signature).Passes .x86_64 table spot cls ∧
      table.leavesOf spot = [(0, float 32), (4, float 32), (8, int 16)] ∧
      cls.cast = some (struct [vector (float 32) 2, int 32]) ∧ cls.kind = .direct := by
  intro table spot cls
  have passes : (⟨[], spot⟩ : Signature).Passes .x86_64 table spot cls := List.mem_cons_self
  have scalars : table.leavesOf spot = [(0, float 32), (4, float 32), (8, int 16)] := by decide
  refine ⟨passes, scalars, by decide, ((sysv_registers passes rfl).2 (by decide) (by decide) ?_).2.1⟩
  rw [scalars, List.forall_mem_cons, List.forall_mem_cons, List.forall_mem_singleton]
  exact ⟨.single, .single, .int (by decide)⟩

/-! ## The payload of a union -/

/-- A value of scalars of at most eight bytes is aligned to at most eight. -/
theorem MachineType.Storable.align_le_eight {ty : MachineType}
    (storable : ty.Storable fun scalar => scalar.size ≤ 8) : ty.align ≤ 8 := by
  induction storable with
  | void => decide
  | scalar isScalar small =>
    rw [align_of_isScalar isScalar, naturalAlign]
    omega
  | struct _ ih => exact fieldsAlign_le (by decide) ih
  | union => exact le_rfl

theorem Ty.le_payloadSize {structType : String → MachineType} {member : Ty} {members : List Ty}
    (listed : member ∈ members) :
    (member.represent structType).size ≤ Ty.payloadSize structType members := by
  induction members with
  | nil => cases listed
  | cons ty members ih =>
    rw [payloadSize]
    obtain rfl | listed := List.mem_cons.mp listed
    · exact Nat.le_max_left _ _
    · exact (ih listed).trans (Nat.le_max_right _ _)

/-- The payload of a union has room for every member. It is aligned for a member exactly if the
member has no scalar of more than eight bytes. -/
theorem TypeTable.union_payload {table : TypeTable} {member : Ty} {members : List Ty}
    (listed : member ∈ members) :
    ∃ offset payload, (table.machineType (.union members)).place? 1 = some (offset, payload) ∧
      (table.machineType member).size ≤ payload.size ∧
      ((∀ leaf ∈ (table.machineType member).leaves, ∀ bits, leaf.2 = float bits →
          bits ∈ [8, 16, 32, 64, 128]) →
        ((table.machineType member).align ∣ offset ∧
            (table.machineType member).align ≤ (table.machineType (.union members)).align ↔
          ∀ leaf ∈ (table.machineType member).leaves, leaf.2.size ≤ 8)) := by
  have room : (table.machineType member).size ≤ Ty.payloadSize table.structType members :=
    Ty.le_payloadSize listed
  refine ⟨8, _, congrArg (fun offset => some (offset, _)) (alignTo_payload _), ?_, fun widths => ?_⟩
  · change _ ≤ 8 * _
    omega
  · have storable : (table.machineType member).Storable fun _ => True :=
      Ty.represent_storable (fun name => structTypeWithin_storable _ name) member
    have even := storable.of_leaves fun leaf part =>
      evenSize_of_isScalar (storable.leaf_allowed part).1 (widths leaf part)
    constructor
    · rintro ⟨aligned, _⟩ leaf part
      have narrow := Nat.le_of_dvd (by decide) ((even.leaf_aligned part).2.trans aligned)
      rw [align_of_isScalar (storable.leaf_allowed part).1, naturalAlign] at narrow
      omega
    · intro small
      have narrow := (storable.of_leaves small).align_le_eight
      exact ⟨Storable.dvd_of_le even.align_dvd_sixteen ⟨2, rfl⟩ narrow, narrow⟩

/-- A union has room for an integer of sixteen bytes, but is not aligned for it. -/
theorem TypeTable.union_payload_wide :
    let wide := Ty.int 128 true
    ∃ offset payload, (empty.machineType (.union [.nil, wide])).place? 1 = some (offset, payload) ∧
      (empty.machineType wide).size ≤ payload.size ∧ ¬((empty.machineType wide).align ∣ offset ∧
        (empty.machineType wide).align ≤ (empty.machineType (.union [.nil, wide])).align) := by
  intro wide
  obtain ⟨offset, payload, placed, room, aligned⟩ := @union_payload empty _ _
    (List.mem_cons_of_mem Ty.nil (List.mem_singleton_self wide))
  refine ⟨offset, payload, placed, room, fun fits => ?_⟩
  refine absurd ((aligned fun leaf part bits isFloat => ?_).mp fits (0, int 128) ?_) (by decide)
  · cases List.mem_singleton.mp part
    cases isFloat
  · exact List.mem_singleton_self _

end CallLowering
