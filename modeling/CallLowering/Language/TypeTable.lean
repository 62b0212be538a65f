import CallLowering.Ascending
import CallLowering.Language.Ty

/-!
# Declared types

A `TypeTable` lists the struct and class declarations of a program. It answers which fields
an instance has (`fieldsOf`), whether a value of one type may flow where another is expected
(`isSubtype`), and which run-time tags stand for a type (`tag?`, `matchingTags`).

A class chain never holds more classes than the table declares, so walks along parents stop
after that many steps; on a table whose parents form no cycle the bound is never met.
-/

namespace CallLowering

/-- A named and typed field of a struct or class. -/
structure Field where
  name : String
  ty : Ty
  deriving DecidableEq, Inhabited

/-- A struct or class declaration with its own fields. Only classes have parents. -/
structure TypeDecl where
  name : String
  parent : Option String
  fields : List Field
  deriving DecidableEq, Inhabited

/-- The struct and class declarations of a program, in declaration order. -/
structure TypeTable where
  structs : List TypeDecl
  classes : List TypeDecl
  deriving DecidableEq, Inhabited

namespace TypeTable

/-- The table that declares nothing. -/
def empty : TypeTable := ⟨[], []⟩

/-- Declares a struct after the present ones. -/
def addStruct (table : TypeTable) (name : String) (fields : List Field) : TypeTable :=
  { table with structs := table.structs ++ [⟨name, none, fields⟩] }

/-- Declares a class after the present ones. -/
def addClass (table : TypeTable) (name : String) (parent : Option String) (fields : List Field) :
    TypeTable :=
  { table with classes := table.classes ++ [⟨name, parent, fields⟩] }

/-- The first struct declared under a name. -/
def struct? (table : TypeTable) (name : String) : Option TypeDecl :=
  table.structs.find? (·.name == name)

/-- The first class declared under a name. -/
def class? (table : TypeTable) (name : String) : Option TypeDecl :=
  table.classes.find? (·.name == name)

/-- The parent named by the declaration of a class. -/
def parent? (table : TypeTable) (name : String) : Option String :=
  (table.class? name).bind (·.parent)

/-- The fields of a class after those of its ancestors, following at most `steps` classes.
There are none if a class of the chain is not declared. -/
def classFieldsWithin (table : TypeTable) : (steps : Nat) → String → Option (List Field)
  | 0, _ => none
  | steps + 1, name =>
    match table.class? name with
    | none => none
    | some decl =>
      match decl.parent with
      | none => some decl.fields
      | some parent => (table.classFieldsWithin steps parent).map (· ++ decl.fields)

/-- The fields of a struct or class in layout order. An instance of a class starts with the
fields of its ancestors. -/
def fieldsOf (table : TypeTable) : Ty → Option (List Field)
  | .struct name => (table.struct? name).map (·.fields)
  | .object name => table.classFieldsWithin table.classes.length name
  | _ => none

/-- The position and declaration of the first field with a name. -/
def fieldIndex? (table : TypeTable) (owner : Ty) (name : String) : Option (Nat × Field) :=
  (table.fieldsOf owner).bind fun fields =>
    (fields.findIdx? (·.name == name)).bind fun index =>
      fields[index]?.map fun field => (index, field)

/-- The ancestors of a class, nearest first, following at most `steps` parents. -/
def ancestorsWithin (table : TypeTable) : (steps : Nat) → String → List String
  | 0, _ => []
  | steps + 1, name =>
    match table.parent? name with
    | none => []
    | some parent => parent :: table.ancestorsWithin steps parent

/-- The ancestors of a class, nearest first. -/
def ancestors (table : TypeTable) (name : String) : List String :=
  table.ancestorsWithin table.classes.length name

/-- Whether the first type is a class below the class that is the second. -/
def isSubclass (table : TypeTable) : Ty → Ty → Bool
  | .object name, .object target => (table.ancestors name).contains target
  | _, _ => false

mutual

/-- Whether a value of a type that is no union may flow where `declared` is expected. -/
def flowsInto (table : TypeTable) (concrete : Ty) : Ty → Bool
  | .union members =>
    concrete == .union members || concrete.isNoReturn || table.flowsIntoAny concrete members
  | declared =>
    concrete == declared || concrete.isNoReturn || table.isSubclass concrete declared

/-- Whether it may flow into one of several types. -/
def flowsIntoAny (table : TypeTable) (concrete : Ty) : List Ty → Bool
  | [] => false
  | member :: members => table.flowsInto concrete member || table.flowsIntoAny concrete members

end

mutual

/-- Whether a value whose type is `concrete` may flow where `declared` is expected: every
alternative of the first fits some alternative of the second. -/
def isSubtype (table : TypeTable) : (concrete declared : Ty) → Bool
  | .union members, declared =>
    Ty.union members == declared || table.allSubtypes members declared
  | concrete, declared => table.flowsInto concrete declared

/-- Whether values of all the given types may flow where `declared` is expected. -/
def allSubtypes (table : TypeTable) : (members : List Ty) → (declared : Ty) → Bool
  | [], _ => true
  | member :: members, declared =>
    table.isSubtype member declared && table.allSubtypes members declared

end

/-- The first tag handed out to declared structs and classes. -/
def firstDeclaredTag : Nat := 64

/-- The tag bit of a metaclass. -/
def metaclassBit : Nat := 0x80000000

/-- How often a number of the given width can be halved without remainder; zero can be
halved as often as it has bits. -/
def trailingZeros : (width : Nat) → Nat → Nat
  | 0, _ => 0
  | width + 1, n => if n % 2 = 1 then 0 else trailingZeros width (n / 2) + 1

/-- The tag of a declared class. -/
def classTag? (table : TypeTable) (name : String) : Option Nat :=
  (table.classes.findIdx? (·.name == name)).map fun index =>
    firstDeclaredTag + (table.structs.length + index)

/-- The run-time tag of a concrete type. A union has no tag of its own; its members do. -/
def tag? (table : TypeTable) : Ty → Option Nat
  | .nil => some 0
  | .bool => some 1
  | .char => some 2
  | .symbol => some 3
  | .string => some 4
  | .int bits signed => some ((if signed then 8 else 16) + trailingZeros 32 bits.toNat)
  | .float bits => some (24 + trailingZeros 32 bits.toNat)
  | .pointer _ => some 32
  | .proc _ _ => some 33
  | .struct name =>
    (table.structs.findIdx? (·.name == name)).map fun index => firstDeclaredTag + index
  | .object name => table.classTag? name
  | .metaclass name => (table.classTag? name).map (· ||| metaclassBit)
  | .union _ | .program | .noReturn => none

/-- The tag of one alternative, if it fits the candidate. -/
def memberTags (table : TypeTable) (member candidate : Ty) : List Nat :=
  if table.isSubtype member candidate then (table.tag? member).toList else []

/-- The tags of the proper subclasses of an alternative that fit the candidate. -/
def subclassTags (table : TypeTable) (member candidate : Ty) : List Nat :=
  match member with
  | .object name =>
    table.classes.flatMap fun decl =>
      let sub := Ty.object decl.name
      if decl.name != name && table.isSubtype sub member && table.isSubtype sub candidate then
        (table.tag? sub).toList
      else []
  | _ => []

/-- Every tag that a value of the declared type may carry and that the candidate accepts, in
ascending order. -/
def matchingTags (table : TypeTable) (declared candidate : Ty) : List Nat :=
  Ascending.ofList <| declared.members.flatMap fun member =>
    table.memberTags member candidate ++ table.subclassTags member candidate

end TypeTable

end CallLowering
