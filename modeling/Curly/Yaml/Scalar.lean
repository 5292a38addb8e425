import Curly.Text.Hex
import Curly.Value.Basic
import Curly.Yaml.Fault

/-!
# Plain scalars as values

A scalar without quotes is null, a truth value, a whole number or a number with a point or an
exponent if it is written like one, and a text otherwise. `yes`, `no`, `on` and `off` are texts,
and zeros before a number do not change its base. Underscores between digits do not count. Only
whole numbers with decimal digits know a limit of digits.
-/

namespace Curly.Yaml

/-! ## Numerals -/

/-- Whether a text begins with a minus, and the text without the sign it may begin with. -/
def splitSign : List Char → Bool × List Char
  | '-' :: cs => (true, cs)
  | '+' :: cs => (false, cs)
  | cs => (false, cs)

/-- A text without its underscores. -/
def withoutUnderscores (cs : List Char) : List Char := cs.filter (· ≠ '_')

/-- Whether a text is one or more characters of a class or underscores. -/
def isRun (digit : Char → Bool) (cs : List Char) : Bool :=
  !cs.isEmpty && cs.all fun c => c == '_' || digit c

/-- A digit below eight. -/
def isOctal (c : Char) : Bool := '0' ≤ c && c ≤ '7'

/-- The base and the digits of a whole number without its sign. -/
def wholeDigits? : List Char → Option (Nat × List Char)
  | '0' :: 'b' :: cs => if isRun (fun c => c == '0' || c == '1') cs then some (2, cs) else none
  | '0' :: 'o' :: cs => if isRun isOctal cs then some (8, cs) else none
  | '0' :: 'x' :: cs => if isRun (fun c => (Text.hexDigit? c).isSome) cs then some (16, cs) else none
  | cs => if isRun Char.isDigit cs then some (10, cs) else none

/-- The number that digits of a base stand for. -/
def valueOfDigits (base : Nat) (cs : List Char) : Nat :=
  cs.foldl (fun n c => base * n + (Text.hexDigit? c).getD 0) 0

/-- The size of a whole number by the digits of its base. -/
def sizeOf (base : Nat) (digits : List Char) : Except Fault Nat :=
  if digits = [] then .error (.noDigits base)
  else if base = 10 then (Numeral.read digits).mapError .numeral
  else .ok (valueOfDigits base digits)

/-- The whole number that a text is written like. -/
def int? (cs : List Char) : Option (Except Fault Int) :=
  let (negative, unsigned) := splitSign cs
  match cs.head?, wholeDigits? unsigned with
  | some '_', _ => none
  | _, none => none
  | _, some (base, run) => some <| (sizeOf base (withoutUnderscores run)).map fun size =>
      if negative then -(size : Int) else size

/-- Whether a text is the exponent of a number, or nothing where none is needed. It may need a
sign. -/
def isExponent (optional signed : Bool) : List Char → Bool
  | [] => optional
  | mark :: cs =>
    let (_, digits) := splitSign cs
    (mark == 'e' || mark == 'E') && (!signed || digits.length != cs.length) &&
      digits != [] && digits.all Char.isDigit

/-- Whether a text without a sign is written like a number with a point or an exponent. After a
point without digits before it, an exponent has a sign. -/
def isFloat (cs : List Char) : Bool :=
  let digit := fun c : Char => c == '_' || c.isDigit
  let rest := cs.dropWhile digit
  match cs.head?.any Char.isDigit, rest with
  | true, '.' :: rest => isExponent true false (rest.dropWhile digit)
  | true, rest => isExponent false false rest
  | false, '.' :: rest =>
    rest.length == cs.length - 1 && rest.head?.any digit &&
      isExponent true true (rest.dropWhile digit)
  | false, _ => false

/-- The number with a point or an exponent that a text is written like. -/
def float? (cs : List Char) : Option (Except Fault Binary64) :=
  let (negative, unsigned) := splitSign cs
  let word := String.ofList unsigned
  if word ∈ [".inf", ".Inf", ".INF"] then some (.ok (.infinite negative))
  else if String.ofList cs ∈ [".nan", ".NaN", ".NAN"] then some (.ok .nan)
  else if isFloat unsigned then some <|
    let digits := withoutUnderscores unsigned
    match Decimal.ofUnsigned? negative digits with
    | some d => .ok d.toBinary64
    | none => .error (.noNumber (String.ofList (digits.map Char.toLower)))
  else none

/-! ## Values and keys -/

/-- The texts that stand for parts of mappings, and have no value of their own. -/
def isReserved (text : String) : Bool := text == "=" || text == "<<"

/-- The value of a plain scalar. -/
def plainValue (text : String) : Except Fault Value :=
  if text ∈ ["", "~", "null", "Null", "NULL"] then .ok .null
  else if text ∈ ["true", "True", "TRUE"] then .ok (.bool true)
  else if text ∈ ["false", "False", "FALSE"] then .ok (.bool false)
  else if isReserved text then .error .malformed
  else match int? text.toList, float? text.toList with
    | some n, _ => n.map .int
    | _, some x => x.map .float
    | _, _ => .ok (.str text)

end Curly.Yaml
