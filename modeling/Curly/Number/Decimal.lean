import Curly.Number.Binary64

/-!
# Decimal numerals

Reading a decimal numeral as the nearest binary number, and writing a binary number with the
fewest digits that read back as it. `Binary64.shortest` does the latter: it tries one, two, … up
to seventeen digits, and of the two numerals of that length around the number takes one that lies
in the interval of reals that round to it, the nearer if both do.
-/

namespace Curly

/-- The number `digits * 10 ^ exponent`, with a sign. -/
structure Decimal where
  negative : Bool
  digits : Nat
  exponent : Int
deriving DecidableEq, Repr

/-- The value of a text of ASCII digits. -/
def digitsValue (cs : List Char) : Nat :=
  cs.foldl (fun n c => 10 * n + (c.toNat - '0'.toNat)) 0

namespace Decimal

/-- The digits of a number, most significant first. -/
def digitsOf (n : Nat) : List Char := Nat.toDigits 10 n

/-- Beyond this many places before the point a number is infinite, and beyond this many after it
zero; it keeps the powers of ten below within bounds. -/
def farthest : Int := 400

/-- The binary number nearest to a decimal one. -/
def toBinary64 (d : Decimal) : Binary64 :=
  let magnitude : Int := (digitsOf d.digits).length + d.exponent
  if d.digits = 0 then Binary64.ofQuotient d.negative 0 1
  else if farthest < magnitude then .infinite d.negative
  else if magnitude < -farthest then Binary64.ofQuotient d.negative 0 1
  else Binary64.ofQuotient d.negative (d.digits * Nat.pow 10 d.exponent.toNat)
    (Nat.pow 10 (-d.exponent).toNat)

/-- Reads `digits`, optionally with a point among or before them, optionally followed by `e` or
`E` and a signed exponent. The sign of the number is not part of the text. -/
def ofUnsigned? (negative : Bool) (cs : List Char) : Option Decimal := do
  let whole := cs.takeWhile Char.isDigit
  let rest := cs.dropWhile Char.isDigit
  let (fraction, rest) := match rest with
    | '.' :: rest => (rest.takeWhile Char.isDigit, rest.dropWhile Char.isDigit)
    | _ => ([], rest)
  guard (whole ≠ [] ∨ fraction ≠ [])
  let exponent : Int ← match rest with
    | [] => some 0
    | mark :: rest =>
      let (down, places) := match rest with
        | '-' :: places => (true, places)
        | '+' :: places => (false, places)
        | _ => (false, rest)
      if (mark = 'e' ∨ mark = 'E') ∧ places ≠ [] ∧ places.all Char.isDigit then
        some (if down then -(digitsValue places : Int) else digitsValue places)
      else none
  return ⟨negative, digitsValue (whole ++ fraction), exponent - fraction.length⟩

/-- Reads a numeral with an optional sign. -/
def ofText? : List Char → Option Decimal
  | '-' :: cs => ofUnsigned? true cs
  | '+' :: cs => ofUnsigned? false cs
  | cs => ofUnsigned? false cs

/-- The same number with no zero at the end of its digits. -/
def strip (d : Decimal) : Decimal :=
  let kept := ((digitsOf d.digits).reverse.dropWhile (· = '0')).reverse
  let dropped := (digitsOf d.digits).length - kept.length
  ⟨d.negative, digitsValue kept, d.exponent + dropped⟩

end Decimal

namespace Binary64

/-- The place of the first digit of `mantissa * 2 ^ exponent`, counted from the point to the left;
every positive number of the format has its first digit within 330 places after the point. -/
def leadingPlace (mantissa : Nat) (exponent : Int) : Int :=
  let raised := mantissa * Nat.pow 2 exponent.toNat * Nat.pow 10 330 / Nat.pow 2 (-exponent).toNat
  ((Decimal.digitsOf raised).length : Int) - 330

/-- The reals that round to a number, in quarters of its last binary place: the lower bound, the
number, the upper bound, and whether the bounds themselves round to it. -/
structure Interval where
  lower : Nat
  value : Nat
  upper : Nat
  closed : Bool

/-- The interval of `mantissa * 2 ^ exponent`. Below a power of two the numbers lie twice as close
as above it, save at the smallest exponent. -/
def intervalOf (mantissa : Nat) (exponent : Int) : Interval where
  lower := if mantissa = Nat.pow 2 (precision - 1) ∧ minExponent < exponent then 4 * mantissa - 1
    else 4 * mantissa - 2
  value := 4 * mantissa
  upper := 4 * mantissa + 2
  closed := mantissa % 2 == 0

/-- The multiple of `10 ^ place` in the interval that is nearest to its value, if there is one. -/
def nearestOnGrid? (i : Interval) (exponent place : Int) : Option Nat :=
  -- one quarter of the last binary place is `2 ^ (exponent - 2)`
  let scale := Nat.pow 2 (exponent - 2).toNat * Nat.pow 10 (-place).toNat
  let unit := Nat.pow 10 place.toNat * Nat.pow 2 (2 - exponent).toNat
  let value := i.value * scale
  let down := value / unit
  let up := down + 1
  let within := fun (n : Nat) =>
    if i.closed then i.lower * scale ≤ n * unit ∧ n * unit ≤ i.upper * scale
    else i.lower * scale < n * unit ∧ n * unit < i.upper * scale
  let fall := value - down * unit
  let rise := up * unit - value
  if within down ∧ (¬ within up ∨ fall < rise ∨ (fall = rise ∧ down % 2 = 0)) then some down
  else if within up then some up
  else none

/-- The numeral with the fewest digits that reads back as `mantissa * 2 ^ exponent`. -/
def shortest (negative : Bool) (mantissa : Nat) (exponent : Int) : Decimal :=
  if mantissa = 0 then ⟨negative, 0, 0⟩
  else
    let leading := leadingPlace mantissa exponent
    let interval := intervalOf mantissa exponent
    let found := (List.range 17).findSome? fun (n : Nat) =>
      let place := leading - (n + 1)
      (nearestOnGrid? interval exponent place).map fun digits =>
        Decimal.strip ⟨negative, digits, place⟩
    -- seventeen digits always suffice
    found.getD ⟨negative, mantissa, exponent⟩

end Binary64

/-- How binary numbers are written: the words for what is not finite, and the places of the first
digit, counted from the point, between which no exponent is used. -/
structure NumeralStyle where
  nan : String
  infinity : String
  minPlace : Int
  maxPlace : Int
  minExponentDigits : Nat

namespace NumeralStyle

/-- A whole number with at least `width` digits. -/
def padded (width n : Nat) : String :=
  let digits := Decimal.digitsOf n
  String.ofList (List.replicate (width - digits.length) '0' ++ digits)

/-- A decimal number without an exponent, always with a point. -/
def positional (d : Decimal) : String :=
  let digits := Decimal.digitsOf d.digits
  if 0 ≤ d.exponent then
    String.ofList (digits ++ List.replicate d.exponent.toNat '0' ++ ['.', '0'])
  else
    let places := (-d.exponent).toNat
    let digits := List.replicate (places + 1 - digits.length) '0' ++ digits
    String.ofList (digits.take (digits.length - places) ++ '.' ::
      digits.drop (digits.length - places))

/-- A decimal number with one digit before the point, the point only if digits follow it, and an
exponent with its sign. -/
def scientific (style : NumeralStyle) (d : Decimal) : String :=
  let digits := Decimal.digitsOf d.digits
  let exponent := d.exponent + digits.length - 1
  let mantissa := match digits with
    | [] => []
    | [c] => [c]
    | c :: rest => c :: '.' :: rest
  String.ofList mantissa ++ (if exponent < 0 then "e-" else "e+") ++
    padded style.minExponentDigits exponent.natAbs

/-- The text of a number: the shortest numeral that reads back, in the notation its size asks
for. -/
def write (style : NumeralStyle) : Binary64 → String
  | .nan => style.nan
  | .infinite negative => (if negative then "-" else "") ++ style.infinity
  | .finite negative mantissa exponent =>
    let d := Binary64.shortest negative mantissa exponent
    let place := d.exponent + (Decimal.digitsOf d.digits).length
    (if negative then "-" else "") ++
      if d.digits = 0 ∨ (style.minPlace ≤ place ∧ place ≤ style.maxPlace) then positional d
      else style.scientific d

end NumeralStyle

end Curly
