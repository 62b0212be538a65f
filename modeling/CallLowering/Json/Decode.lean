import CallLowering.Json.Value

/-!
# Reading data out of JSON values

How records, variants, numbers and options are read. A record is an object whose listed keys
occur at most once and whose other keys are ignored, or an array that lists the fields in
order and may stop early. A variant is its name alone, or an object with the name as its only
key. Every reader answers `none` where the value does not have the shape it asks for.
-/

namespace CallLowering

namespace Json

/-- Reads a Boolean. -/
def bool? : Json → Option Bool
  | .bool value => some value
  | _ => none

/-- Reads a string. -/
def string? : Json → Option String
  | .string value => some value
  | _ => none

/-- Reads a string of one character. -/
def char? : Json → Option Char
  | .string value =>
    match value.toList with
    | [c] => some c
    | _ => none
  | _ => none

/-- Reads an integer of 32 bits without sign. -/
def uint32? : Json → Option UInt32
  | .number (.nonneg value) => if value.toNat < UInt32.size then some value.toUInt32 else none
  | _ => none

/-- Reads an integer of 64 bits without sign. -/
def uint64? : Json → Option UInt64
  | .number (.nonneg value) => some value
  | _ => none

/-- Reads an integer of 64 bits with sign. -/
def int64? : Json → Option Int64
  | .number (.nonneg value) => if value.toNat < 0x8000000000000000 then some value.toInt64 else none
  | .number (.negative value) => some value
  | _ => none

/-- Reads a double; every number is one. -/
def float? : Json → Option Float
  | .number (.nonneg value) => some value.toFloat
  | .number (.negative value) => some value.toFloat
  | .number (.double value) => some value
  | _ => none

/-- Reads `null` as nothing, and anything else with the given reader. -/
def nullable? (read : Json → Option α) : Json → Option (Option α)
  | .null => some none
  | json => (read json).map some

/-- Reads an array item by item. -/
def list? (read : Json → Option α) : Json → Option (List α)
  | .array items => items.mapM read
  | _ => none

/-- A record that has been opened: the value of each field that is there. -/
abbrev Record := String → Option Json

/-- Opens a record with the listed fields. -/
def record? (keys : List String) : Json → Option Record
  | .object entries =>
    if keys.all fun key => (entries.filter (·.1 == key)).length ≤ 1 then
      some fun key => entries.lookup key
    else none
  | .array items =>
    if items.length ≤ keys.length then some fun key => (keys.zip items).lookup key else none
  | _ => none

/-- Reads a field that has to be there. -/
def Record.field? (record : Record) (key : String) (read : Json → Option α) : Option α :=
  (record key).bind read

/-- Reads a field that has a default. -/
def Record.fieldD? (record : Record) (key : String) (default : α) (read : Json → Option α) :
    Option α :=
  match record key with
  | none => some default
  | some json => read json

/-- Reads a field that may be missing or `null`. -/
def Record.optional? (record : Record) (key : String) (read : Json → Option α) :
    Option (Option α) :=
  record.fieldD? key none (nullable? read)

/-- A variant that has been opened: its name and its content, if it has one. -/
structure Variant where
  name : String
  content : Option Json

/-- Opens a variant. -/
def variant? : Json → Option Variant
  | .string name => some ⟨name, none⟩
  | .object [(name, content)] => some ⟨name, some content⟩
  | _ => none

/-- Reads a variant that has no content. -/
def Variant.unit? (variant : Variant) (value : α) : Option α :=
  match variant.content with
  | none | some .null => some value
  | _ => none

/-- Reads the content of a variant. -/
def Variant.content? (variant : Variant) (read : Json → Option α) : Option α :=
  variant.content.bind read

/-- A variant without content. -/
def ofUnit (name : String) : Json := .string name

/-- A variant with its content. -/
def ofVariant (name : String) (content : Json) : Json := .object [(name, content)]

end Json

end CallLowering
