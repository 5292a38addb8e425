import Curly.Number.Limit

/-!
# Faults of data files

Why a text gives no value. Nearly every cause is that the text is no data file, or holds more than
one value; the others are a numeral without a digit or with too many, and a key made of what no key
is made of.
-/

namespace Curly.Yaml

/-- Why a text gives no value. -/
inductive Fault where
  /-- The text does not hold exactly one value. -/
  | malformed
  /-- A whole number of a base has underscores for all its digits. -/
  | noDigits (base : Nat)
  /-- A whole number has too many digits. -/
  | numeral (fault : NumeralFault)
  /-- A number with a point has no digit; its text without sign and underscores. -/
  | noNumber (text : String)
  /-- A key has an item of a type that no key has. -/
  | badKey (typeName : String)
deriving DecidableEq, Repr

/-- The wording of a fault. -/
def Fault.message : Fault → String
  | malformed => "not a single value"
  | noDigits base => "invalid literal for int() with base " ++ toString base ++ ": ''"
  | numeral fault => fault.message
  | noNumber text => "could not convert string to float: '" ++ text ++ "'"
  | badKey typeName => "unhashable type: '" ++ typeName ++ "'"

end Curly.Yaml
