import CallLowering.Json.Value

/-!
# Reading JSON text

`Json.parse?` reads a text that holds one JSON value. It refuses what is not well formed, such
as control characters inside strings, unknown escapes and leading zeros.

Doubles are read by the rule `Json.Number.ofLexeme?` states: the leading digits that fit into
64 bits, as a double, times or divided by a power of ten, in double arithmetic.

Three well-formed texts stand for no value and are read as `Json.unreadable`: a number that is
not finite, a string with an escaped surrogate without its partner, and an array or object
inside 127 others. An object with such a string for a key is unreadable as a whole.
-/

namespace CallLowering

namespace Json

/-- The parts of a number as written. -/
structure Lexeme where
  negative : Bool
  whole : List Nat
  /-- The digits after the point, if there is one. -/
  fraction : Option (List Nat)
  /-- Whether the exponent is below zero, and its digits. -/
  exponent : Option (Bool × List Nat)

namespace Number

/-- One more digit at the end of a number, if the result fits into 64 bits. -/
def addDigit? (n digit : Nat) : Option Nat :=
  if n * 10 + digit < UInt64.size then some (n * 10 + digit) else none

/-- Reads the digits before the point: the leading ones that fit, and how many were left out. -/
def wholeDigits : List Nat → Nat → Nat × Nat
  | [], n => (n, 0)
  | digit :: digits, n =>
    match addDigit? n digit with
    | some n => wholeDigits digits n
    | none => (n, digits.length + 1)

/-- Reads on after the point: the digits that fit, and how many of them there are. -/
def fractionDigits : List Nat → Nat → Nat × Nat
  | [], n => (n, 0)
  | digit :: digits, n =>
    match addDigit? n digit with
    | some n => let (n, used) := fractionDigits digits n; (n, used + 1)
    | none => (n, 0)

/-- The value of some digits. -/
def value (digits : List Nat) : Nat := digits.foldl (fun n digit => n * 10 + digit) 0

/-- A power of ten as a double. -/
def tenTo (n : Nat) : Float := Float.ofScientific 1 false n

/-- Multiplies a double by a power of ten. Powers beyond the range of doubles are applied in
steps; three of them bring every 64-bit integer down to zero. -/
def scale : (fuel : Nat) → Float → Int → Option Float
  | 0, x, _ => some x
  | fuel + 1, x, power =>
    if power.natAbs ≤ 308 then
      if power ≥ 0 then
        let scaled := x * tenTo power.toNat
        if scaled.isInf then none else some scaled
      else some (x / tenTo power.natAbs)
    else if x == 0.0 then some x
    else if power ≥ 0 then none
    else scale fuel (x / tenTo 308) (power + 308)

/-- Gives a double its sign. -/
def signed (negative : Bool) (x : Float) : Float := if negative then -x else x

/-- The double that stands for a significand times a power of ten. -/
def ofScaled? (negative : Bool) (significand : Nat) (power : Int) : Option Number :=
  (scale 4 significand.toUInt64.toFloat power).map fun x => .double (signed negative x)

/-- The largest exponent that is read as a number; larger ones mean zero or no number. -/
def maxExponent : Nat := 2147483647

/-- The double with an explicit exponent. -/
def ofExponent? (negative : Bool) (significand : Nat) (power : Int) (below : Bool)
    (digits : List Nat) : Option Number :=
  let exponent := value digits
  if exponent > maxExponent then
    if significand != 0 && !below then none else some (.double (signed negative 0.0))
  else ofScaled? negative significand (if below then power - exponent else power + exponent)

/-- The distance of the least 64-bit integer from zero. -/
def minInt64Size : Nat := 0x8000000000000000

/-- An integer without point and exponent. Zero with a sign is a double. -/
def ofInteger (negative : Bool) (n : Nat) : Number :=
  if !negative then .nonneg n.toUInt64
  else if n ≠ 0 ∧ n ≤ minInt64Size then .negative (Int64.ofInt (-n))
  else .double (-n.toUInt64.toFloat)

/-- The number that a lexeme stands for. -/
def ofLexeme? (lexeme : Lexeme) : Option Number :=
  let (whole, dropped) := wholeDigits lexeme.whole 0
  match lexeme.fraction, lexeme.exponent with
  | none, none =>
    if dropped = 0 then some (ofInteger lexeme.negative whole)
    else ofScaled? lexeme.negative whole dropped
  | none, some (below, digits) => ofExponent? lexeme.negative whole dropped below digits
  | some fraction, exponent =>
    let (significand, used) := fractionDigits fraction whole
    let power := (dropped : Int) - used
    match exponent with
    | none => ofScaled? lexeme.negative significand power
    | some (below, digits) => ofExponent? lexeme.negative significand power below digits

end Number

/-- Skips blanks. -/
def skipBlanks : List Char → List Char
  | c :: cs => if c = ' ' || c = '\n' || c = '\t' || c = '\r' then skipBlanks cs else c :: cs
  | [] => []

/-- Takes the leading decimal digits. -/
def takeDigits : List Char → List Nat × List Char
  | c :: cs =>
    if c.isDigit then
      let (digits, rest) := takeDigits cs
      ((c.toNat - '0'.toNat) :: digits, rest)
    else ([], c :: cs)
  | [] => ([], [])

/-- Takes the digits before the point: a single zero, or digits that start with another. -/
def takeWhole? (cs : List Char) : Option (List Nat × List Char) :=
  match takeDigits cs with
  | ([], _) => none
  | (0 :: _ :: _, _) => none
  | found => some found

/-- Takes a point with the digits after it, if there is one. -/
def takeFraction? : List Char → Option (Option (List Nat) × List Char)
  | '.' :: cs =>
    match takeDigits cs with
    | ([], _) => none
    | (digits, rest) => some (some digits, rest)
  | cs => some (none, cs)

/-- Takes the sign and the digits of an exponent. -/
def takeExponentDigits? (below : Bool) (cs : List Char) :
    Option (Option (Bool × List Nat) × List Char) :=
  match takeDigits cs with
  | ([], _) => none
  | (digits, rest) => some (some (below, digits), rest)

/-- Takes an exponent, if there is one. -/
def takeExponent? : List Char → Option (Option (Bool × List Nat) × List Char)
  | c :: cs =>
    if c = 'e' || c = 'E' then
      match cs with
      | '+' :: cs => takeExponentDigits? false cs
      | '-' :: cs => takeExponentDigits? true cs
      | cs => takeExponentDigits? false cs
    else some (none, c :: cs)
  | [] => some (none, [])

/-- The value of a number as written. -/
def Lexeme.toJson (lexeme : Lexeme) : Json :=
  match Number.ofLexeme? lexeme with
  | some value => .number value
  | none => .unreadable

/-- Takes a number whose sign has been read. -/
def takeNumber? (negative : Bool) (cs : List Char) : Option (Json × List Char) := do
  let (whole, cs) ← takeWhole? cs
  let (fraction, cs) ← takeFraction? cs
  let (exponent, cs) ← takeExponent? cs
  return (Lexeme.toJson ⟨negative, whole, fraction, exponent⟩, cs)

/-- The value of a digit in base sixteen. -/
def hexDigit? (c : Char) : Option Nat :=
  if c.isDigit then some (c.toNat - '0'.toNat)
  else if 'a' ≤ c ∧ c ≤ 'f' then some (c.toNat - 'a'.toNat + 10)
  else if 'A' ≤ c ∧ c ≤ 'F' then some (c.toNat - 'A'.toNat + 10)
  else none

/-- The value of four digits in base sixteen. -/
def hexFour? (a b c d : Char) : Option Nat := do
  let a ← hexDigit? a
  let b ← hexDigit? b
  let c ← hexDigit? c
  let d ← hexDigit? d
  return ((a * 16 + b) * 16 + c) * 16 + d

/-- The character of a simple escape. -/
def simpleEscape? (c : Char) : Option Char :=
  if c = '"' then some '"'
  else if c = '\\' then some '\\'
  else if c = '/' then some '/'
  else if c = 'b' then some (Char.ofNat 8)
  else if c = 'f' then some (Char.ofNat 12)
  else if c = 'n' then some '\n'
  else if c = 'r' then some '\r'
  else if c = 't' then some '\t'
  else none

/-- Whether a number is the first half of a surrogate pair. -/
def isLeading (n : Nat) : Bool := 0xD800 ≤ n && n ≤ 0xDBFF

/-- Whether a number is the second half of a surrogate pair. -/
def isTrailing (n : Nat) : Bool := 0xDC00 ≤ n && n ≤ 0xDFFF

/-- The character that two halves of a surrogate pair stand for. -/
def ofPair (leading trailing : Nat) : Char :=
  Char.ofNat ((leading - 0xD800) * 0x400 + (trailing - 0xDC00) + 0x10000)

/-- The characters of a string read so far. -/
structure Reading where
  /-- The last character comes first. -/
  chars : List Char
  /-- The first half of a surrogate pair whose second half has to follow. -/
  half : Option Nat
  /-- Whether a half of a pair was met without the other. -/
  broken : Bool

namespace Reading

/-- Nothing read. -/
def empty : Reading := ⟨[], none, false⟩

/-- Takes in a character. -/
def addChar (read : Reading) (c : Char) : Reading :=
  ⟨c :: read.chars, none, read.broken || read.half.isSome⟩

/-- Takes in an escaped number: a character or half a surrogate pair. -/
def addUnit (read : Reading) (n : Nat) : Reading :=
  match read.half with
  | some leading =>
    if isTrailing n then ⟨ofPair leading n :: read.chars, none, read.broken⟩
    else ⟨read.chars, none, true⟩
  | none =>
    if isTrailing n then ⟨read.chars, none, true⟩
    else if isLeading n then ⟨read.chars, some n, read.broken⟩
    else read.addChar (Char.ofNat n)

/-- The text read, if every half of a pair had the other. -/
def text? (read : Reading) : Option String :=
  if read.broken || read.half.isSome then none else some (String.ofList read.chars.reverse)

end Reading

/-- Takes the rest of a string up to its closing quote. -/
def takeString? : List Char → Reading → Option (Option String × List Char)
  | [], _ => none
  | '"' :: rest, read => some (read.text?, rest)
  | '\\' :: 'u' :: a :: b :: c :: d :: rest, read =>
    match hexFour? a b c d with
    | none => none
    | some n => takeString? rest (read.addUnit n)
  | '\\' :: c :: rest, read =>
    match simpleEscape? c with
    | none => none
    | some c => takeString? rest (read.addChar c)
  | c :: rest, read => if c.toNat < 0x20 then none else takeString? rest (read.addChar c)

/-- Takes a string whose opening quote has been read. -/
def takeText? (cs : List Char) : Option (Option String × List Char) := takeString? cs .empty

/-- The value of a string. -/
def ofText : Option String → Json
  | some text => .string text
  | none => .unreadable

/-- An array or object, if it may be opened where only `room` more may be. -/
def within (room : Nat) (json : Json) : Json :=
  if room = 0 then .unreadable else json

/-- An object with the given keys and values, which needs readable keys. -/
def ofEntries (entries : List (Option String × Json)) : Json :=
  match entries.mapM fun entry => entry.1.map fun key => (key, entry.2) with
  | some entries => .object entries
  | none => .unreadable

/-- Takes a word such as `true`. -/
def takeWord? (word : List Char) (value : Json) (cs : List Char) : Option (Json × List Char) :=
  if word.isPrefixOf cs then some (value, cs.drop word.length) else none

mutual

/-- Takes one value; `room` says how many more arrays and objects may be opened. -/
def takeValue? : (fuel room : Nat) → List Char → Option (Json × List Char)
  | 0, _, _ => none
  | fuel + 1, room, cs =>
    match skipBlanks cs with
    | '"' :: rest => (takeText? rest).map fun found => (ofText found.1, found.2)
    | '-' :: rest => takeNumber? true rest
    | '[' :: rest =>
      match skipBlanks rest with
      | ']' :: rest => some (within room (.array []), rest)
      | rest =>
        (takeItems? fuel (room - 1) rest []).map fun found =>
          (within room (.array found.1), found.2)
    | '\x7b' :: rest =>
      match skipBlanks rest with
      | '\x7d' :: rest => some (within room (.object []), rest)
      | rest =>
        (takeEntries? fuel (room - 1) rest []).map fun found =>
          (within room (ofEntries found.1), found.2)
    | 'n' :: rest => takeWord? ['u', 'l', 'l'] .null rest
    | 't' :: rest => takeWord? ['r', 'u', 'e'] (.bool true) rest
    | 'f' :: rest => takeWord? ['a', 'l', 's', 'e'] (.bool false) rest
    | rest => takeNumber? false rest

/-- Takes the items of an array and its closing bracket. -/
def takeItems? : (fuel room : Nat) → List Char → (done : List Json) →
    Option (List Json × List Char)
  | 0, _, _, _ => none
  | fuel + 1, room, cs, done =>
    match takeValue? fuel room cs with
    | none => none
    | some (item, rest) =>
      match skipBlanks rest with
      | ',' :: rest => takeItems? fuel room rest (item :: done)
      | ']' :: rest => some ((item :: done).reverse, rest)
      | _ => none

/-- Takes the entries of an object and its closing brace. -/
def takeEntries? : (fuel room : Nat) → List Char → (done : List (Option String × Json)) →
    Option (List (Option String × Json) × List Char)
  | 0, _, _, _ => none
  | fuel + 1, room, cs, done =>
    match skipBlanks cs with
    | '"' :: rest =>
      match takeText? rest with
      | none => none
      | some (key, rest) =>
        match skipBlanks rest with
        | ':' :: rest =>
          match takeValue? fuel room rest with
          | none => none
          | some (value, rest) =>
            match skipBlanks rest with
            | ',' :: rest => takeEntries? fuel room rest ((key, value) :: done)
            | '\x7d' :: rest => some (((key, value) :: done).reverse, rest)
            | _ => none
        | _ => none
    | _ => none

end

/-- How many arrays and objects may be nested in a document. -/
def maxDepth : Nat := 127

/-- Reads a text that holds one value between blanks. -/
def parse? (text : String) : Option Json :=
  let cs := text.toList
  match takeValue? (2 * cs.length + 2) maxDepth cs with
  | some (json, rest) => if (skipBlanks rest).isEmpty then some json else none
  | none => none

end Json

end CallLowering
