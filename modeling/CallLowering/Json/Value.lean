/-!
# JSON values

A JSON document as a tree. Objects keep their entries in order and may repeat a key; what a
repetition means is for the reader of the object to say. A number is an integer of at most
64 bits or a double.

Text can be well formed and still stand for no value, such as a number beyond the range of
doubles. It is kept as `Json.unreadable`: no reader accepts it, and a reader that skips an
entry need not know what it holds.
-/

namespace CallLowering

/-- A JSON number. -/
inductive Json.Number where
  | nonneg (value : UInt64)
  /-- An integer below zero. -/
  | negative (value : Int64)
  | double (value : Float)

/-- A JSON value. -/
inductive Json where
  | null
  | bool (value : Bool)
  | number (value : Json.Number)
  | string (value : String)
  | array (items : List Json)
  | object (entries : List (String × Json))
  /-- A well-formed text that stands for no value. -/
  | unreadable

namespace Json

/-- The integer `n` as a JSON value. -/
def ofNat (n : Nat) : Json := .number (.nonneg (UInt64.ofNat n))

/-- A signed integer as a JSON value. -/
def ofInt64 (n : Int64) : Json :=
  if n < 0 then .number (.negative n) else .number (.nonneg n.toUInt64)

/-- A double as a JSON value. -/
def ofFloat (x : Float) : Json := .number (.double x)

/-- An optional value; `null` if there is none. -/
def ofOption (encode : α → Json) : Option α → Json
  | none => .null
  | some value => encode value

/-- A list as a JSON array. -/
def ofList (encode : α → Json) (values : List α) : Json := .array (values.map encode)

/-- The value under a key: of several entries with that key, the first. -/
def get? (json : Json) (key : String) : Option Json :=
  match json with
  | .object entries => entries.lookup key
  | _ => none

mutual

/-- How deeply arrays and objects are nested. -/
def depth : Json → Nat
  | .array items => listDepth items + 1
  | .object entries => entriesDepth entries + 1
  | _ => 0

/-- The greatest depth among some values. -/
def listDepth : List Json → Nat
  | [] => 0
  | item :: items => max (depth item) (listDepth items)

/-- The greatest depth among the values of some entries. -/
def entriesDepth : List (String × Json) → Nat
  | [] => 0
  | (_, value) :: entries => max (depth value) (entriesDepth entries)

end

end Json

end CallLowering
