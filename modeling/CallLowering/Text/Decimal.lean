/-!
# Shortest decimals

`Decimal.shortest` finds, for a positive number `m * 2 ^ q` with its neighbours among the
doubles, the decimal with the fewest digits that lies nearer to it than to them. Of two such
decimals the nearer wins, and of two equally near ones the larger. All arithmetic is on
naturals, so the digits are exact.

`Decimal.Style` says how the digits are laid out; `Decimal.render` writes a double in a style.
-/

namespace CallLowering

/-- The number `digits * 10 ^ exponent`. -/
structure Decimal where
  digits : Nat
  exponent : Int
  deriving DecidableEq, Inhabited

namespace Decimal

/-- A positive double in exact form: the value `mid / den`, and the ends `low / den` and
`high / den` of the reals that round to it. -/
structure Rounding where
  low : Nat
  mid : Nat
  high : Nat
  den : Nat
  /-- Whether the ends themselves round to the value. -/
  closed : Bool

/-- The rounding interval of `m * 2 ^ q`. The gap below a power of two is half as wide,
except at the bottom of the range. -/
def Rounding.ofBinary (m : Nat) (q : Int) (narrowBelow : Bool) : Rounding :=
  let scale := if q ≥ 2 then Nat.pow 2 (q - 2).toNat else 1
  { low := (4 * m - (if narrowBelow then 1 else 2)) * scale
    mid := 4 * m * scale
    high := (4 * m + 2) * scale
    den := if q ≥ 2 then 1 else Nat.pow 2 (2 - q).toNat
    closed := m % 2 = 0 }

/-- How often the numerator has to be multiplied by ten to reach the denominator. -/
def shiftsNeeded : (fuel num den : Nat) → Nat
  | 0, _, _ => 0
  | fuel + 1, num, den => if den ≤ num then 0 else shiftsNeeded fuel (10 * num) den + 1

/-- The power of ten of the leading digit of `num / den`. -/
def leadingPower (num den : Nat) : Int :=
  if den ≤ num then ((Nat.toDigits 10 (num / den)).length : Int) - 1
  else -(shiftsNeeded 400 num den : Int)

/-- Whether `count * 10 ^ power` rounds to the value. -/
def Rounding.accepts (r : Rounding) (power : Int) (count : Nat) : Bool :=
  let up := Nat.pow 10 (-power).toNat
  let down := r.den * Nat.pow 10 power.toNat
  if r.closed then r.low * up ≤ count * down && count * down ≤ r.high * up
  else r.low * up < count * down && count * down < r.high * up

/-- The nearest multiple of `10 ^ power` that rounds to the value, of two equally near ones
the larger. -/
def Rounding.onGrid? (r : Rounding) (power : Int) : Option Nat :=
  let up := Nat.pow 10 (-power).toNat
  let down := r.den * Nat.pow 10 power.toNat
  let floor := r.mid * up / down
  let rest := r.mid * up - floor * down
  let below := r.accepts power floor
  let above := r.accepts power (floor + 1)
  if below && above then some (if 2 * rest < down then floor else floor + 1)
  else if below then some floor
  else if above then some (floor + 1)
  else none

/-- Moves trailing zeros of the digits into the exponent. -/
def trim : (fuel : Nat) → Decimal → Decimal
  | 0, d => d
  | fuel + 1, d =>
    if d.digits % 10 = 0 && d.digits != 0 then trim fuel ⟨d.digits / 10, d.exponent + 1⟩ else d

/-- The decimal with the fewest digits that rounds to the value. -/
def shortest (r : Rounding) : Decimal :=
  let lead := leadingPower r.mid r.den
  let found := (List.range 17).findSome? fun (n : Nat) =>
    let power := lead - (n : Int)
    (r.onGrid? power).map fun count => trim 17 ⟨count, power⟩
  found.getD ⟨0, 0⟩

/-- How the digits of a number are laid out. -/
structure Style where
  /-- Whether a whole number keeps a fraction of zero. -/
  pointZero : Bool
  /-- Whether very small and very large numbers get an exponent. -/
  exponents : Bool

/-- The digits of a natural number. -/
def digitText (n : Nat) : String := String.ofList (Nat.toDigits 10 n)

/-- A row of zeros. -/
def zeros (n : Nat) : String := String.ofList (List.replicate n '0')

/-- Writes a decimal with a point and no exponent. -/
def positional (style : Style) (d : Decimal) : String :=
  let text := digitText d.digits
  if d.exponent ≥ 0 then
    text ++ zeros d.exponent.toNat ++ (if style.pointZero then ".0" else "")
  else
    let places := (-d.exponent).toNat
    let size := text.length
    if places < size then
      String.ofList (text.toList.take (size - places)) ++ "." ++
        String.ofList (text.toList.drop (size - places))
    else "0." ++ zeros (places - size) ++ text

/-- Writes a decimal with one digit before the point and an exponent. -/
def scientific (d : Decimal) : String :=
  let text := digitText d.digits
  let rest := text.toList.drop 1
  String.ofList (text.toList.take 1) ++
    (if rest.isEmpty then "" else "." ++ String.ofList rest) ++
    "e" ++ toString (d.exponent + (text.length : Int) - 1)

/-- Writes a positive decimal. In a style with exponents they are used below a ten-thousandth
and from ten to the sixteenth on. -/
def layout (style : Style) (d : Decimal) : String :=
  let lead := d.exponent + ((digitText d.digits).length : Int) - 1
  if style.exponents && (lead < -4 || lead ≥ 16) then scientific d else positional style d

/-- Writes a double with the fewest digits that read back as it. -/
def render (style : Style) (x : Float) : String :=
  let bits := x.toBits.toNat
  let sign := if bits / Nat.pow 2 63 = 1 then "-" else ""
  let biased : Nat := bits / Nat.pow 2 52 % Nat.pow 2 11
  let fraction := bits % Nat.pow 2 52
  if biased = 2047 then
    if fraction = 0 then sign ++ "inf" else "NaN"
  else if biased = 0 && fraction = 0 then
    sign ++ positional style ⟨0, 0⟩
  else
    let r :=
      if biased = 0 then Rounding.ofBinary fraction (-1074) false
      else Rounding.ofBinary (Nat.pow 2 52 + fraction) ((biased : Int) - 1075)
        (fraction = 0 && biased > 1)
    sign ++ layout style (shortest r)

end Decimal

end CallLowering
