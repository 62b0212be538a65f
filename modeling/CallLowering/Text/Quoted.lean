import CallLowering.Text.Combining
import CallLowering.Text.Unprintable

/-!
# Quoted text

A quotation puts a text in double quotes so that every character of it can be seen: quotes,
backslashes and the common control characters get a backslash form, and characters that
would not show or would combine with their neighbour are written by number.
-/

namespace CallLowering

namespace Quoted

/-- The digits of a number in base sixteen, lower case, without padding. -/
def hex (n : Nat) : String := String.ofList (Nat.toDigits 16 n)

/-- Whether a character is written by number. Among the first 127 these are the control
characters. -/
def isHidden (c : Char) : Bool :=
  if c.toNat < 0x7f then c.toNat < 0x20
  else Combining.isCombining c || Unprintable.isUnprintable c

/-- The form of one character inside a quotation. -/
def escapeChar (c : Char) : String :=
  if c = '"' then "\\\""
  else if c = '\\' then "\\\\"
  else if c = '\n' then "\\n"
  else if c = '\r' then "\\r"
  else if c = '\t' then "\\t"
  else if c.toNat = 0 then "\\0"
  else if isHidden c then
    "\\u\x7b" ++ hex c.toNat ++ "\x7d"
  else String.singleton c

/-- A text in double quotes with every character visible. -/
def quote (text : String) : String :=
  "\"" ++ String.join (text.toList.map escapeChar) ++ "\""

end Quoted

end CallLowering
