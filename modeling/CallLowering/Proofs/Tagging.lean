import CallLowering.Code.Walk
import Mathlib.Tactic.IntervalCases

/-!
# Run-time tags

A tag test compares the tag of a value with those that `TypeTable.matchingTags` lists. A tag can be
read back as the type that stands for all types that have it (`TypeTable.typeOfTag?_tag?`). All
pointers share one tag, so do all callables, and so do numbers whose widths end in equally many zero
bits (`TypeTable.tag?_eq_iff`). The other types, and the numbers of the usual widths, are told apart
(`TypeTable.identifies`), and so a tag test decides subtyping among them, as the guards of a walk do
(`TypeTable.mem_matchingTags_iff_isSubtype`).
-/

namespace CallLowering

namespace Ty

open TypeTable (trailingZeros)

/-- The type that stands for all types with the tag of this one. -/
def tagClass : Ty → Ty
  | int bits signed => int (.ofNat (2 ^ trailingZeros 32 bits.toNat)) signed
  | float bits => float (.ofNat (2 ^ trailingZeros 32 bits.toNat))
  | pointer _ => pointer nil
  | proc _ _ => proc [] nil
  | ty => ty

/-- Whether the tag of the type stays in the range for types of its kind. A number leaves it if its
width is zero or a multiple of 256. -/
def tagInRange : Ty → Bool
  | int bits _ | float bits => trailingZeros 32 bits.toNat < 8
  | _ => true

end Ty

namespace TypeTable

variable {table : TypeTable} {a b ty declared candidate member : Ty} {tag : Nat}

/-! ## Reading a tag back -/

/-- The type without declaration that stands for all with the tag. -/
def builtinOfTag? : Nat → Option Ty
  | 0 => some .nil
  | 1 => some .bool
  | 2 => some .char
  | 3 => some .symbol
  | 4 => some .string
  | 32 => some (.pointer .nil)
  | 33 => some (.proc [] .nil)
  | tag =>
    if tag < 16 then some (.int (.ofNat (2 ^ (tag - 8))) true)
    else if tag < 24 then some (.int (.ofNat (2 ^ (tag - 16))) false)
    else some (.float (.ofNat (2 ^ (tag - 24))))

/-- The struct or class with a place among the declarations; classes come after structs. -/
def declaredAt? (table : TypeTable) (place : Nat) : Option Ty :=
  match table.structs[place]? with
  | some decl => some (.struct decl.name)
  | none => table.classes[place - table.structs.length]?.map fun decl => .object decl.name

/-- The type that stands for all with the tag. -/
def typeOfTag? (table : TypeTable) (tag : Nat) : Option Ty :=
  if tag < firstDeclaredTag then builtinOfTag? tag
  else if tag < metaclassBit then table.declaredAt? (tag - firstDeclaredTag)
  else table.classes[tag - metaclassBit - firstDeclaredTag - table.structs.length]?.map
    fun decl => .metaclass decl.name

variable {decls : List TypeDecl} {name : String}

/-- What is found at a place has the name that was looked for. -/
theorem getElem?_of_findIdx? {place : Nat} (searched : decls.findIdx? (·.name == name) = some place) :
    place < decls.length ∧ ∃ decl, decls[place]? = some decl ∧ decl.name = name := by
  obtain ⟨bound, named, _⟩ := List.findIdx?_eq_some_iff_getElem.mp searched
  exact ⟨bound, _, List.getElem?_eq_getElem bound, beq_iff_eq.mp named⟩

theorem place_of_classTag? (tagged : table.classTag? name = some tag) :
    ∃ place decl, firstDeclaredTag + (table.structs.length + place) = tag ∧
      place < table.classes.length ∧ table.classes[place]? = some decl ∧ decl.name = name := by
  obtain ⟨place, searched, same⟩ := Option.map_eq_some_iff.mp tagged
  obtain ⟨bound, decl, there, named⟩ := getElem?_of_findIdx? searched
  exact ⟨place, decl, same, bound, there, named⟩

/-- Setting the tag bit of a metaclass in a smaller tag adds it. -/
theorem or_metaclassBit (low : tag < metaclassBit) : tag ||| metaclassBit = metaclassBit + tag := by
  have sum := Nat.two_pow_add_eq_or_of_lt (i := 31) low 1
  rw [Nat.mul_one] at sum
  rw [Nat.or_comm]
  exact sum.symm

section

variable (few : table.structs.length + table.classes.length < 2 ^ 31 - 64)

include few

/-- The tag of a type reads back as the type that stands for all with that tag. -/
theorem typeOfTag?_tag? (tagged : table.tag? ty = some tag) (inRange : ty.tagInRange = true) :
    table.typeOfTag? tag = some ty.tagClass := by
  cases ty with
  | nil | bool | char | symbol | string | pointer | proc =>
    cases tagged
    rfl
  | int bits signed =>
    have small : trailingZeros 32 bits.toNat < 8 := of_decide_eq_true inRange
    cases tagged
    rw [Ty.tagClass]
    generalize trailingZeros 32 bits.toNat = zeros at small
    interval_cases zeros <;> cases signed <;> rfl
  | float bits =>
    have small : trailingZeros 32 bits.toNat < 8 := of_decide_eq_true inRange
    cases tagged
    rw [Ty.tagClass]
    generalize trailingZeros 32 bits.toNat = zeros at small
    interval_cases zeros <;> rfl
  | struct name =>
    obtain ⟨place, searched, rfl⟩ := Option.map_eq_some_iff.mp tagged
    obtain ⟨bound, decl, there, named⟩ := getElem?_of_findIdx? searched
    have low : ¬firstDeclaredTag + place < firstDeclaredTag := by omega
    have high : firstDeclaredTag + place < metaclassBit := by
      unfold firstDeclaredTag metaclassBit
      omega
    rw [typeOfTag?, if_neg low, if_pos high, Nat.add_sub_cancel_left, declaredAt?, there, ← named]
    rfl
  | object name =>
    obtain ⟨place, decl, rfl, bound, there, named⟩ := place_of_classTag? tagged
    have low : ¬firstDeclaredTag + (table.structs.length + place) < firstDeclaredTag := by omega
    have high : firstDeclaredTag + (table.structs.length + place) < metaclassBit := by
      unfold firstDeclaredTag metaclassBit
      omega
    have beyond : table.structs[table.structs.length + place]? = none :=
      List.getElem?_eq_none (Nat.le_add_right _ _)
    rw [typeOfTag?, if_neg low, if_pos high, Nat.add_sub_cancel_left, declaredAt?, beyond]
    simp [there, named, Ty.tagClass]
  | metaclass name =>
    obtain ⟨_, classTagged, rfl⟩ := Option.map_eq_some_iff.mp tagged
    obtain ⟨place, _, rfl, _, there, named⟩ := place_of_classTag? classTagged
    have low : firstDeclaredTag + (table.structs.length + place) < metaclassBit := by
      unfold firstDeclaredTag metaclassBit
      omega
    rw [or_metaclassBit low, typeOfTag?, if_neg (by unfold firstDeclaredTag metaclassBit; omega),
      if_neg (by omega)]
    simp [there, named, Ty.tagClass]
  | union | program | noReturn => cases tagged

/-! ## Types with one tag -/

theorem tagClass_eq_of_tag?_eq (tagged : table.tag? b = some tag) (inRangeA : a.tagInRange = true)
    (inRangeB : b.tagInRange = true) (same : table.tag? a = table.tag? b) :
    a.tagClass = b.tagClass := by
  have readA := typeOfTag?_tag? few (same.trans tagged) inRangeA
  have readB := typeOfTag?_tag? few tagged inRangeB
  exact Option.mem_unique readA readB

end

theorem tag?_tagClass (inRange : ty.tagInRange = true) : table.tag? ty.tagClass = table.tag? ty := by
  cases ty with
  | int bits | float bits =>
    have small : trailingZeros 32 bits.toNat < 8 := of_decide_eq_true inRange
    rw [Ty.tagClass, tag?, tag?]
    generalize trailingZeros 32 bits.toNat = zeros at small
    interval_cases zeros <;> rfl
  | _ => rfl

/-- Types share a tag exactly if both are pointers, both are callables, both are numbers of one kind
whose widths end in equally many zero bits, or they are the same. -/
theorem tag?_eq_iff (few : table.structs.length + table.classes.length < 2 ^ 31 - 64)
    (tagged : (table.tag? b).isSome = true) (inRangeA : a.tagInRange = true)
    (inRangeB : b.tagInRange = true) : table.tag? a = table.tag? b ↔ a.tagClass = b.tagClass := by
  obtain ⟨tag, found⟩ := Option.isSome_iff_exists.mp tagged
  constructor
  · exact tagClass_eq_of_tag?_eq few found inRangeA inRangeB
  · intro same
    rw [← tag?_tagClass inRangeA, same, tag?_tagClass inRangeB]

/-- The tag of an integer of eight bits is that of one of 24 bits, and not that of a pointer. -/
theorem tag?_eq_iff_narrow :
    empty.tag? (.int 24 true) = empty.tag? (.int 8 true) ∧
      empty.tag? (.pointer .bool) ≠ empty.tag? (.int 8 true) :=
  ⟨(tag?_eq_iff (by decide) rfl rfl rfl).mpr rfl,
    fun same => absurd ((tag?_eq_iff (by decide) rfl rfl rfl).mp same) (by decide)⟩

/-- Tags do not tell all types apart: pointers to different types have one tag. -/
theorem not_tag?_injective :
    ¬∀ (table : TypeTable) (a b : Ty), (table.structs.map (·.name)).Nodup →
      (table.classes.map (·.name)).Nodup → a.isUnion = false → b.isUnion = false →
      (table.tag? a).isSome = true → (table.tag? b).isSome = true → a ≠ b →
      table.tag? a ≠ table.tag? b := by
  intro injective
  exact injective .empty (.pointer (.int 32 true)) (.pointer (.int 64 true)) .nil .nil rfl rfl rfl rfl
    (by decide) rfl

/-! ## Types that are told apart -/

/-- The types that tags tell apart: plain types, numbers of the usual widths and declared types. -/
def identifies (table : TypeTable) : Ty → Bool
  | .nil | .bool | .char | .symbol | .string => true
  | .int bits _ => [8, 16, 32, 64, 128].contains bits
  | .float bits => [16, 32, 64, 128].contains bits
  | .struct name => (table.struct? name).isSome
  | .object name | .metaclass name => (table.class? name).isSome
  | _ => false

theorem findIdx?_of_find? (found : (decls.find? (·.name == name)).isSome = true) :
    ∃ place, decls.findIdx? (·.name == name) = some place := by
  rw [List.find?_isSome] at found
  rw [← Option.isSome_iff_exists, List.findIdx?_isSome, List.any_eq_true]
  exact found

theorem exists_tag? (known : table.identifies ty = true) : ∃ tag, table.tag? ty = some tag := by
  cases ty with
  | nil | bool | char | symbol | string | int | float => exact ⟨_, rfl⟩
  | struct name =>
    obtain ⟨place, searched⟩ := findIdx?_of_find? known
    exact ⟨_, by rw [tag?, searched, Option.map_some]⟩
  | object name =>
    obtain ⟨place, searched⟩ := findIdx?_of_find? known
    exact ⟨_, by rw [tag?, classTag?, searched, Option.map_some]⟩
  | metaclass name =>
    obtain ⟨_, searched⟩ := findIdx?_of_find? known
    exact ⟨_, by rw [tag?, classTag?, searched, Option.map_some, Option.map_some]⟩
  | pointer | proc | union | program | noReturn => cases known

/-- Each of these types stands for itself. -/
theorem tagClass_of_identifies (known : table.identifies ty = true) :
    ty.tagInRange = true ∧ ty.tagClass = ty := by
  cases ty with
  | int bits signed =>
    have width : bits = 8 ∨ bits = 16 ∨ bits = 32 ∨ bits = 64 ∨ bits = 128 := by
      simpa [identifies] using known
    rcases width with rfl | rfl | rfl | rfl | rfl <;> exact ⟨rfl, rfl⟩
  | float bits =>
    have width : bits = 16 ∨ bits = 32 ∨ bits = 64 ∨ bits = 128 := by
      simpa [identifies] using known
    rcases width with rfl | rfl | rfl | rfl <;> exact ⟨rfl, rfl⟩
  | pointer | proc | union | program | noReturn => cases known
  | _ => exact ⟨rfl, rfl⟩

theorem eq_of_tag?_eq (few : table.structs.length + table.classes.length < 2 ^ 31 - 64)
    (knownA : table.identifies a = true) (knownB : table.identifies b = true)
    (same : table.tag? a = table.tag? b) : a = b := by
  obtain ⟨_, tagged⟩ := exists_tag? knownB
  obtain ⟨inRangeA, standsA⟩ := tagClass_of_identifies knownA
  obtain ⟨inRangeB, standsB⟩ := tagClass_of_identifies knownB
  have stands := tagClass_eq_of_tag?_eq few tagged inRangeA inRangeB same
  rwa [standsA, standsB] at stands

/-! ## Subtyping through the members of a union -/

theorem flowsIntoAny_iff {members : List Ty} :
    table.flowsIntoAny ty members = true ↔ ∃ member ∈ members, table.flowsInto ty member = true := by
  induction members with
  | nil => simp [flowsIntoAny]
  | cons member members ih => simp [flowsIntoAny, ih]

theorem isSubtype_eq_flowsInto (known : table.identifies ty = true) :
    table.isSubtype ty declared = table.flowsInto ty declared := by
  cases ty with
  | union => cases known
  | _ =>
    rw [isSubtype]
    intro members same
    cases same

/-- A type that has a tag to itself fits a type if it fits one of its alternatives. -/
theorem isSubtype_iff_members (known : table.identifies ty = true) :
    table.isSubtype ty declared = true ↔
      ∃ member ∈ declared.members, table.isSubtype ty member = true := by
  cases declared with
  | union members =>
    have other : (ty == .union members) = false := by
      cases ty with
      | union => cases known
      | _ => rfl
    have returns : ty.isNoReturn = false := by
      cases ty with
      | noReturn => cases known
      | _ => rfl
    rw [isSubtype_eq_flowsInto known, flowsInto, other, returns, Bool.or_false, Bool.false_or,
      flowsIntoAny_iff]
    simp [Ty.members, isSubtype_eq_flowsInto known]
  | _ => simp [Ty.members]

/-- Between types that have a tag to themselves, only classes have proper subtypes. -/
theorem eq_or_isSubclass (knownA : table.identifies a = true) (knownB : table.identifies b = true)
    (fits : table.isSubtype a b = true) : a = b ∨ table.isSubclass a b = true := by
  rw [isSubtype_eq_flowsInto knownA] at fits
  have returns : a.isNoReturn = false := by
    cases a with
    | noReturn => cases knownA
    | _ => rfl
  cases b with
  | union => cases knownB
  | _ => simpa [flowsInto, returns] using fits

/-! ## Tag tests -/

theorem class?_of_mem {decl : TypeDecl} (declared : decl ∈ table.classes) :
    (table.class? decl.name).isSome = true := by
  rw [class?, List.find?_isSome]
  exact ⟨decl, declared, beq_self_eq_true _⟩

theorem mem_of_class? (found : (table.class? name).isSome = true) :
    ∃ decl ∈ table.classes, decl.name = name := by
  rw [class?, List.find?_isSome] at found
  obtain ⟨decl, declared, named⟩ := found
  exact ⟨decl, declared, beq_iff_eq.mp named⟩

theorem mem_memberTags : tag ∈ table.memberTags member candidate ↔
      table.isSubtype member candidate = true ∧ table.tag? member = some tag := by
  unfold memberTags
  split <;> simp_all

theorem mem_subclassTags : tag ∈ table.subclassTags member candidate ↔
      ∃ name, member = .object name ∧ ∃ decl ∈ table.classes, decl.name ≠ name ∧
        table.isSubtype (.object decl.name) member = true ∧
        table.isSubtype (.object decl.name) candidate = true ∧
        table.tag? (.object decl.name) = some tag := by
  cases member with
  | object name =>
    simp only [subclassTags, List.mem_flatMap, Ty.object.injEq, exists_eq_left']
    refine exists_congr fun _ => and_congr_right fun _ => ?_
    split <;> simp_all
  | _ => simp [subclassTags]

section

variable (known : ∀ member ∈ declared.members, table.identifies member = true)

include known

/-- A listed tag is that of a type which fits the candidate and is an alternative of the declared
type or a class below one. -/
theorem exists_of_mem_matchingTags (listed : tag ∈ table.matchingTags declared candidate) :
    ∃ ty, table.identifies ty = true ∧ table.tag? ty = some tag ∧
      table.isSubtype ty candidate = true := by
  rw [matchingTags, Ascending.mem_ofList, List.mem_flatMap] at listed
  obtain ⟨member, alternative, listed⟩ := listed
  rcases List.mem_append.mp listed with listed | listed
  · obtain ⟨fits, tagged⟩ := mem_memberTags.mp listed
    exact ⟨member, known member alternative, tagged, fits⟩
  · obtain ⟨_, _, decl, declared, _, _, fits, tagged⟩ := mem_subclassTags.mp listed
    exact ⟨.object decl.name, class?_of_mem declared, tagged, fits⟩

/-- The tag of a type that fits both the declared type and the candidate is listed. -/
theorem mem_matchingTags_of_isSubtype (concrete : table.identifies ty = true)
    (tagged : table.tag? ty = some tag) (flows : table.isSubtype ty declared = true)
    (fits : table.isSubtype ty candidate = true) : tag ∈ table.matchingTags declared candidate := by
  rw [matchingTags, Ascending.mem_ofList, List.mem_flatMap]
  obtain ⟨member, alternative, flows⟩ := (isSubtype_iff_members concrete).mp flows
  refine ⟨member, alternative, List.mem_append.mpr ?_⟩
  by_cases same : ty = member
  · subst same
    exact .inl (mem_memberTags.mpr ⟨fits, tagged⟩)
  · have below := (eq_or_isSubclass concrete (known member alternative) flows).resolve_left same
    cases ty with
    | object sub =>
      cases member with
      | object name =>
        obtain ⟨decl, declared, named⟩ := mem_of_class? concrete
        subst named
        have proper : decl.name ≠ name := fun equal => same (congrArg Ty.object equal)
        exact .inr (mem_subclassTags.mpr ⟨name, rfl, decl, declared, proper, flows, fits, tagged⟩)
      | _ => cases below
    | _ => cases below

end

/-- A test of tags decides subtyping. Let a value of a type that has a tag to itself be declared
with a type whose alternatives all have one. Its tag is among those that the test lists just if its
type fits the candidate, and the guard of a walk has the same outcome. -/
theorem mem_matchingTags_iff_isSubtype
    (few : table.structs.length + table.classes.length < 2 ^ 31 - 64)
    (known : ∀ member ∈ declared.members, table.identifies member = true) (candidate : Ty)
    (concrete : table.identifies ty = true) (flows : table.isSubtype ty declared = true) :
    (table.matchingTags declared candidate).Pairwise (· < ·) ∧
      ∃ tag, table.tag? ty = some tag ∧
        (tag ∈ table.matchingTags declared candidate ↔ table.isSubtype ty candidate = true) ∧
        ∀ (code : Recording) (walk : Walk) (value result : ValueId),
          code.types = table → walk.get? value = some (.tag ty) →
          ∃ walk', walk.step code ⟨some result, .matchTypeTag declared candidate value⟩ =
              .ok (.fallThrough, walk') ∧
            walk'.guards = walk.guards.push
              (candidate, decide (tag ∈ table.matchingTags declared candidate)) ∧
            walk'.get? result =
              some (.bool (decide (tag ∈ table.matchingTags declared candidate))) := by
  obtain ⟨tag, tagged⟩ := exists_tag? concrete
  have decides : tag ∈ table.matchingTags declared candidate ↔
      table.isSubtype ty candidate = true := by
    constructor
    · intro listed
      obtain ⟨other, knownOther, taggedOther, fits⟩ := exists_of_mem_matchingTags known listed
      rwa [eq_of_tag?_eq few concrete knownOther (tagged.trans taggedOther.symm)]
    · exact mem_matchingTags_of_isSubtype known concrete tagged flows
  refine ⟨Ascending.pairwise_ofList _, tag, tagged, decides, ?_⟩
  intro code walk value result types found
  have outcome : decide (tag ∈ table.matchingTags declared candidate) =
      table.isSubtype ty candidate := by
    simp only [decides, Bool.decide_eq_true]
  simp only [Walk.step, found, types, outcome]
  exact ⟨_, rfl, rfl, by simp [Walk.get?, Walk.learn]⟩

/-- A value declared as an animal or a text is a puppy, and is tested for being a dog or nothing. -/
theorem mem_matchingTags_iff_isSubtype_puppy :
    let table : TypeTable := ⟨[⟨"Point", none, []⟩],
      [⟨"Puppy", some "Dog", []⟩, ⟨"Dog", some "Animal", []⟩, ⟨"Animal", none, []⟩]⟩
    let declared := Ty.union [.object "Animal", .string]
    let candidate := Ty.union [.object "Dog", .nil]
    table.isSubtype (.object "Puppy") declared = true ∧
      ∃ tag, table.tag? (.object "Puppy") = some tag ∧
        (tag ∈ table.matchingTags declared candidate ↔
          table.isSubtype (.object "Puppy") candidate = true) := by
  intro table declared candidate
  have few : table.structs.length + table.classes.length < 2 ^ 31 - 64 := by decide
  have flows : table.isSubtype (.object "Puppy") declared = true := by decide
  obtain ⟨_, tag, tagged, decides, _⟩ :=
    mem_matchingTags_iff_isSubtype few (by decide) candidate (by decide) flows
  exact ⟨flows, tag, tagged, decides⟩

end TypeTable

end CallLowering
