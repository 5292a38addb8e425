/-!
# Binary floating point of 64 bits

A number of the format is not a number, an infinity, or `mantissa * 2 ^ exponent` with a sign.
Everything here is exact arithmetic on natural numbers; `ofQuotient` is the one place where a
value is rounded, to the nearest number of the format and from a tie to the even one.
-/

namespace Curly

/-- A binary64 number. The finite ones are kept with the least exponent that their mantissa of at
most 53 bits allows. -/
inductive Binary64 where
  | nan
  | infinite (negative : Bool)
  | finite (negative : Bool) (mantissa : Nat) (exponent : Int)
deriving DecidableEq, Repr, Inhabited

namespace Binary64

/-- The bits of a mantissa. -/
def precision : Nat := 53

/-- The exponent of the smallest positive number. -/
def minExponent : Int := -1074

/-- The exponent of the greatest finite number. -/
def maxExponent : Int := 971

/-- `num / den` rounded to a whole number, a tie going to the even neighbour. -/
def roundDiv (num den : Nat) : Nat :=
  let quotient := num / den
  let twice := 2 * (num % den)
  if twice < den then quotient
  else if den < twice then quotient + 1
  else quotient + quotient % 2

/-- `num / (den * 2 ^ exponent)` rounded to a whole number. -/
def scaledRound (num den : Nat) (exponent : Int) : Nat :=
  roundDiv (num * Nat.pow 2 (-exponent).toNat) (den * Nat.pow 2 exponent.toNat)

/-- The exponent at which `num / den` has a mantissa of 53 bits, or the smallest exponent if that
is greater. -/
def exponentFor (num den : Nat) : Int :=
  let guess : Int := (num.log2 : Int) - den.log2 - (precision - 1)
  let below :=
    num * Nat.pow 2 (-guess).toNat < den * Nat.pow 2 guess.toNat * Nat.pow 2 (precision - 1)
  max minExponent (if below then guess - 1 else guess)

/-- The number of the format nearest to `num / den`, a tie going to the even mantissa. -/
def ofQuotient (negative : Bool) (num den : Nat) : Binary64 :=
  if num = 0 then finite negative 0 minExponent
  else
    let exponent := exponentFor num den
    let mantissa := scaledRound num den exponent
    let (mantissa, exponent) :=
      if mantissa = Nat.pow 2 precision then (Nat.pow 2 (precision - 1), exponent + 1)
      else (mantissa, exponent)
    if maxExponent < exponent then infinite negative else finite negative mantissa exponent

/-- Whether a number is zero, of either sign. -/
def isZero : Binary64 → Bool
  | finite _ mantissa _ => mantissa == 0
  | _ => false

/-- Whether a number is neither infinite nor not a number. -/
def isFinite : Binary64 → Bool
  | finite .. => true
  | _ => false

/-- The whole number that a finite number without a fraction is. -/
def toInt? : Binary64 → Option Int
  | finite negative mantissa exponent =>
    let scale := Nat.pow 2 (-exponent).toNat
    if mantissa % scale = 0 then
      let size : Nat := mantissa / scale * Nat.pow 2 exponent.toNat
      some (if negative then -(size : Int) else size)
    else none
  | _ => none

/-- Whether two numbers are numerically equal: the two zeros are, and a number that is none is
equal to nothing. -/
def equal : Binary64 → Binary64 → Bool
  | finite n m e, finite n' m' e' =>
    (m == 0 && m' == 0) ||
      (n == n' && m * Nat.pow 2 (e - e').toNat == m' * Nat.pow 2 (e' - e).toNat)
  | infinite n, infinite n' => n == n'
  | _, _ => false

end Binary64

end Curly
