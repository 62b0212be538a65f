import CallLowering.Json.Value
import CallLowering.Text.Decimal

/-!
# Writing JSON text

`Json.render` writes a value without blanks. Strings escape quotes, backslashes and control
characters and nothing else; doubles have the fewest digits that read back. What stands for no
value is written as `null`.
-/

namespace CallLowering

namespace Json

/-- Doubles keep a point, so that they read back as doubles. -/
def doubleStyle : Decimal.Style := ⟨true, true⟩

/-- Four digits in base sixteen. -/
def fourHex (n : Nat) : String :=
  let digits := Nat.toDigits 16 n
  String.ofList (List.replicate (4 - digits.length) '0' ++ digits)

/-- The form of one character inside a string. -/
def escapeChar (c : Char) : String :=
  if c = '"' then "\\\""
  else if c = '\\' then "\\\\"
  else if c = '\n' then "\\n"
  else if c = '\r' then "\\r"
  else if c = '\t' then "\\t"
  else if c.toNat < 0x20 then "\\u" ++ fourHex c.toNat
  else String.singleton c

/-- A string between quotes. -/
def renderString (text : String) : String :=
  text.foldl (fun done c => done ++ escapeChar c) "\"" ++ "\""

/-- The text of a number. -/
def Number.render : Number → String
  | .nonneg value => toString value.toNat
  | .negative value => toString value.toInt
  | .double value => Decimal.render doubleStyle value

mutual

/-- The text of a value. -/
def render : Json → String
  | .null => "null"
  | .bool true => "true"
  | .bool false => "false"
  | .number value => value.render
  | .string value => renderString value
  | .array items => "[" ++ ",".intercalate (renderItems items) ++ "]"
  | .object entries => "\x7b" ++ ",".intercalate (renderEntries entries) ++ "\x7d"
  | .unreadable => "null"

/-- The texts of some values. -/
def renderItems : List Json → List String
  | [] => []
  | item :: items => render item :: renderItems items

/-- The texts of some entries. -/
def renderEntries : List (String × Json) → List String
  | [] => []
  | (key, value) :: entries => (renderString key ++ ":" ++ render value) :: renderEntries entries

end

end Json

end CallLowering
