import CallLowering.Proofs.Placement
import CallLowering.Proofs.Subtyping

/-!
# Inherited fields

An instance of a class starts with an instance of each of its ancestors: with the same fields at the
same places (`TypeTable.subclass_layout`).
-/

namespace CallLowering

namespace MachineType

/-- The offset and type of a field of a struct whose first field is placed at `offset` or later. -/
def placeWithin (offset : Nat) : List MachineType → Nat → Option (Nat × MachineType)
  | [], _ => none
  | ty :: _, 0 => some (alignTo offset ty.align, ty)
  | ty :: tys, index + 1 => placeWithin (alignTo offset ty.align + ty.size) tys index

/-- The offset and type of a field of a struct. -/
def place? : MachineType → Nat → Option (Nat × MachineType)
  | struct fields, index => placeWithin 0 fields index
  | _, _ => none

variable {fields more : List MachineType} {offset index : Nat} {ty : MachineType}

/-- Fields lie where they lie without those behind them. -/
theorem placeWithin_append (present : fields[index]? = some ty) :
    ∃ place, placeWithin offset fields index = some (place, ty) ∧
      placeWithin offset (fields ++ more) index = some (place, ty) ∧
      leavesAt place ty ⊆ fieldLeavesAt 0 offset (fields ++ more) := by
  induction fields generalizing offset index with
  | nil => cases present
  | cons first fields ih =>
    cases index with
    | zero =>
      cases present
      refine ⟨_, rfl, rfl, ?_⟩
      rw [List.cons_append, fieldLeavesAt, Nat.zero_add]
      exact List.subset_append_left _ _
    | succ index =>
      obtain ⟨place, found, found', leaves⟩ := ih present
      exact ⟨place, found, found', List.Subset.trans leaves (List.subset_append_right _ _)⟩

end MachineType

namespace TypeTable

variable {table : TypeTable} {name parent sub base : String} {fields inherited : List Field}

theorem classFieldsWithin_succ {steps : Nat}
    (defined : table.classFieldsWithin steps name = some fields) :
    table.classFieldsWithin (steps + 1) name = some fields := by
  induction steps generalizing name fields with
  | zero => cases defined
  | succ steps ih =>
    rw [classFieldsWithin] at defined ⊢
    cases found : table.class? name with
    | none => rw [found] at defined; cases defined
    | some decl =>
      simp only [found] at defined ⊢
      cases above : decl.parent with
      | none => rw [above] at defined; exact defined
      | some parent =>
        simp only [above] at defined ⊢
        obtain ⟨_, given, all⟩ := Option.map_eq_some_iff.mp defined
        rw [ih given, Option.map_some, all]

/-- A class starts with the fields of its parent. -/
theorem fieldsOf_parent (isParent : table.IsParent name parent)
    (defined : table.fieldsOf (.object name) = some fields) :
    ∃ inherited, table.fieldsOf (.object parent) = some inherited ∧ inherited <+: fields := by
  obtain ⟨_, found, above⟩ := Option.bind_eq_some_iff.mp isParent
  rw [fieldsOf] at defined ⊢
  cases bound : table.classes.length with
  | zero => rw [bound] at defined; cases defined
  | succ steps =>
    simp only [bound, classFieldsWithin, found, above] at defined
    obtain ⟨inherited, given, all⟩ := Option.map_eq_some_iff.mp defined
    exact ⟨inherited, classFieldsWithin_succ given, _, all⟩

/-- A class starts with the fields of each class that it is a subtype of. -/
theorem fieldsOf_subclass (below : table.isSubtype (.object sub) (.object base) = true)
    (defined : table.fieldsOf (.object sub) = some fields) :
    ∃ inherited, table.fieldsOf (.object base) = some inherited ∧ inherited <+: fields := by
  simp only [isSubtype, flowsInto, isSubclass, Ty.isNoReturn, Bool.or_false, Bool.or_eq_true,
    beq_iff_eq, Ty.object.injEq, List.contains_iff_mem, mem_ancestors] at below
  rcases below with rfl | chain
  · exact ⟨fields, defined, List.prefix_rfl⟩
  · induction chain with
    | single isParent => exact fieldsOf_parent isParent defined
    | tail _ isParent ih =>
      obtain ⟨_, given, starts⟩ := ih
      obtain ⟨inherited, given', starts'⟩ := fieldsOf_parent isParent given
      exact ⟨inherited, given', starts'.trans starts⟩

theorem instanceType_object (defined : table.fieldsOf (.object name) = some fields) :
    table.instanceType (.object name) =
      .struct (typeHeader :: fields.map fun field => table.machineType field.ty) := by
  rw [instanceType, defined, Option.getD_some]

/-- The first field with a name stays the first one if fields follow. -/
theorem fieldIndex?_subclass {field : Field} {index : Nat} {member : String}
    (given : table.fieldsOf (.object base) = some inherited)
    (defined : table.fieldsOf (.object sub) = some fields) (starts : inherited <+: fields)
    (found : table.fieldIndex? (.object base) member = some (index, field)) :
    inherited[index]? = some field ∧
      table.fieldIndex? (.object sub) member = some (index, field) := by
  obtain ⟨_, rfl⟩ := starts
  rw [fieldIndex?, given, Option.bind_some] at found
  obtain ⟨_, first, found⟩ := Option.bind_eq_some_iff.mp found
  obtain ⟨_, present, same⟩ := Option.map_eq_some_iff.mp found
  cases same
  refine ⟨present, ?_⟩
  rw [fieldIndex?, defined, Option.bind_some, List.findIdx?_append, first, Option.some_or,
    Option.bind_some, List.getElem?_append_left (List.getElem?_eq_some_iff.mp present).1, present]
  rfl

/-- A class has the fields of each class that it is a subtype of, in the same order, under the same
indices and at the same places of its instances. -/
theorem subclass_layout (below : table.isSubtype (.object sub) (.object base) = true)
    (defined : table.fieldsOf (.object sub) = some fields) :
    ∃ inherited, table.fieldsOf (.object base) = some inherited ∧ inherited <+: fields ∧
      (∃ members members', table.instanceType (.object base) = .struct members ∧
        table.instanceType (.object sub) = .struct members' ∧ members <+: members') ∧
      ∀ name index field, table.fieldIndex? (.object base) name = some (index, field) →
        table.fieldIndex? (.object sub) name = some (index, field) ∧
        fieldSlot (.object sub) index = fieldSlot (.object base) index ∧
        ∃ place, (table.instanceType (.object base)).place? (fieldSlot (.object base) index) =
            some (place, table.machineType field.ty) ∧
          (table.instanceType (.object sub)).place? (fieldSlot (.object sub) index) =
            some (place, table.machineType field.ty) ∧
          MachineType.leavesAt place (table.machineType field.ty) ⊆
            (table.instanceType (.object sub)).leaves := by
  obtain ⟨inherited, given, starts⟩ := fieldsOf_subclass below defined
  rw [instanceType_object given, instanceType_object defined]
  refine ⟨inherited, given, starts, ⟨_, _, rfl, rfl, ?_⟩, fun name index field found => ?_⟩
  · exact (List.prefix_cons_inj _).mpr (starts.map _)
  · obtain ⟨present, found'⟩ := fieldIndex?_subclass given defined starts found
    obtain ⟨own, rfl⟩ := starts
    have member : (typeHeader :: inherited.map fun field => table.machineType field.ty)[index + 1]? =
        some (table.machineType field.ty) := by
      rw [List.getElem?_cons_succ, List.getElem?_map, present]
      rfl
    rw [List.map_append, ← List.cons_append]
    exact ⟨found', rfl, MachineType.placeWithin_append member⟩

/-- A puppy has a name where every animal has one, and a field of the same name behind it. -/
theorem subclass_layout_puppy :
    let table : TypeTable := ⟨[], [⟨"Animal", none, [⟨"alive", .bool⟩, ⟨"name", .string⟩]⟩,
      ⟨"Dog", some "Animal", []⟩, ⟨"Puppy", some "Dog", [⟨"name", .char⟩]⟩]⟩
    table.isSubtype (.object "Puppy") (.object "Animal") = true ∧
      table.fieldIndex? (.object "Puppy") "name" = some (1, ⟨"name", .string⟩) ∧
      (table.instanceType (.object "Puppy")).place? 2 = some (8, .ptr) := by
  intro table
  have below : table.isSubtype (.object "Puppy") (.object "Animal") = true := by decide
  obtain ⟨_, _, _, _, fields⟩ := subclass_layout below rfl
  obtain ⟨found, _, place, here, there, _⟩ := fields "name" 1 ⟨"name", .string⟩ (by decide)
  have start : (table.instanceType (.object "Animal")).place? 2 = some (8, .ptr) := by decide
  exact ⟨below, found, there.trans (here.symm.trans start)⟩

end TypeTable

end CallLowering
