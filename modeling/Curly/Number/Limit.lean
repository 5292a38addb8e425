import Curly.Number.Decimal

/-!
# The limit of whole numerals

A whole number is read from decimal digits, and written in them, up to a number of digits
(`digitLimit`). Reading counts the digits that are there, zeros in front too. Numbers with a point
know no such limit, and neither do digits of other bases.
-/

namespace Curly

/-- The most digits of a whole number that are read or written. -/
def digitLimit : Nat := 4300

/-- Why a whole number cannot be read from digits, or be written in them. -/
inductive NumeralFault where
  /-- There are too many digits, and so many. -/
  | tooLongToRead (digits : Nat)
  /-- The number has too many digits. -/
  | tooLongToWrite
deriving DecidableEq, Repr

/-- The wording of a fault. -/
def NumeralFault.message (fault : NumeralFault) : String :=
  "Exceeds the limit (" ++ toString digitLimit ++ " digits) for integer string conversion" ++
    (match fault with
      | tooLongToRead digits => ": value has " ++ toString digits ++ " digits"
      | tooLongToWrite => "") ++ "; use sys.set_int_max_str_digits() to increase the limit"

namespace Numeral

/-- The number that ASCII digits stand for. -/
def read (digits : List Char) : Except NumeralFault Nat :=
  if digits.length ≤ digitLimit then .ok (digitsValue digits)
  else .error (.tooLongToRead digits.length)

/-- Whether a whole number has few enough digits to be written. -/
def fits (n : Int) : Bool := (Decimal.digitsOf n.natAbs).length ≤ digitLimit

/-- The digits of a whole number, with a minus before them if it is negative. -/
def write (n : Int) : Except NumeralFault String :=
  if fits n then .ok (toString n) else .error .tooLongToWrite

/-- The least number with more than so many digits. -/
def bound (digits : Nat) : Nat := Nat.pow 10 digits

theorem bound_succ (digits : Nat) : bound (digits + 1) = bound digits * 10 := rfl

theorem bound_mono {digits more : Nat} (h : digits ≤ more) : bound digits ≤ bound more :=
  Nat.pow_le_pow_right (by decide) h

theorem length_digitsOf_le_iff {n digits : Nat} (h : 0 < digits) :
    (Decimal.digitsOf n).length ≤ digits ↔ n < bound digits :=
  Nat.length_toDigits_le_iff (by decide) h

/-- The numbers with few enough digits are those below a power of ten. -/
theorem fits_iff (n : Int) : fits n = true ↔ n.natAbs < bound digitLimit := by
  rw [fits, decide_eq_true_iff]
  exact length_digitsOf_le_iff (by decide)

theorem write_of_fits {n : Int} (h : fits n) : write n = .ok (toString n) := if_pos h

theorem write_of_not_fits {n : Int} (h : fits n = false) : write n = .error .tooLongToWrite := by
  rw [write, h, if_neg Bool.false_ne_true]

end Numeral

end Curly
