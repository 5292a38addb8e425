import Curly.Number.Decimal
import Curly.Text.Hex
import Curly.Value.Basic

/-!
# Reading JSON

A decoder of JSON texts as RFC 8259 defines them: white space around the tokens, all escapes of
strings with surrogate pairs, numbers with a fraction or an exponent, and nesting of any depth.
`Json.decode?` gives the value of a text, if it is a JSON text. A number without a fraction and
without an exponent is a whole number, arrays are lists, and of two members with one name the later
one counts.

Each reader gives what it read and what follows it in the text. The readers of values call one
another, and each reads on only from a place after the one it began at.
-/

namespace Curly.Json

/-! ## White space -/

/-- A character of white space between tokens. -/
def isSpace (c : Char) : Bool := c == ' ' || c == '\t' || c == '\n' || c == '\r'

/-- A text without the white space at its start. -/
def skip (cs : List Char) : List Char := cs.dropWhile isSpace

/-- The first character after white space. -/
def next? (cs : List Char) : Option Char := (skip cs).head?

/-- What follows the first character after white space. -/
def afterNext (cs : List Char) : List Char := (skip cs).tail

/-! ## Strings -/

/-- The number that four hexadecimal digits stand for. -/
def unit? (cs : List Char) : Option (Nat × List Char) :=
  if 4 ≤ cs.length then (Text.hexValue? (cs.take 4)).map fun n => (n, cs.drop 4) else none

/-- The character of an escape after its `u`: four hexadecimal digits, or two such escapes that are
the two halves of a surrogate pair. -/
def unicodeEscape? (cs : List Char) : Option (Char × List Char) := do
  let (high, rest) ← unit? cs
  if high < 0xD800 ∨ 0xE000 ≤ high then return (Char.ofNat high, rest)
  match rest with
  | '\\' :: 'u' :: rest =>
    let (low, rest) ← unit? rest
    guard (high < 0xDC00 ∧ 0xDC00 ≤ low ∧ low < 0xE000)
    return (Char.ofNat (0x10000 + (high - 0xD800) * 0x400 + (low - 0xDC00)), rest)
  | _ => none

/-- The characters that a backslash stands before, and those that they stand for then. -/
def shortEscapes : List (Char × Char) :=
  [('"', '"'), ('\\', '\\'), ('/', '/'), ('b', '\x08'), ('f', '\x0c'), ('n', '\n'), ('r', '\r'),
   ('t', '\t')]

/-- A character of a string: an escape, or a character that needs none. -/
def char? : List Char → Option (Char × List Char)
  | '\\' :: 'u' :: rest => unicodeEscape? rest
  | '\\' :: c :: rest => (shortEscapes.lookup c).map fun d => (d, rest)
  | c :: rest => if c.toNat < 0x20 ∨ c = '"' ∨ c = '\\' then none else some (c, rest)
  | [] => none

/-- The characters of a string up to its closing quote. -/
def string? (cs : List Char) : Option (List Char × List Char) :=
  if cs.head? = some '"' then some ([], cs.tail)
  else
    (char? cs).bind fun (c, rest) =>
      if rest.length < cs.length then
        (string? rest).map fun (content, after) => (c :: content, after)
      else none
  termination_by cs.length

/-! ## Numbers -/

/-- The digits of a fraction, if a point and digits come next. -/
def fraction : List Char → List Char × List Char
  | '.' :: rest =>
    if rest.takeWhile Char.isDigit = [] then ([], '.' :: rest)
    else (rest.takeWhile Char.isDigit, rest.dropWhile Char.isDigit)
  | cs => ([], cs)

/-- The exponent, if a mark, perhaps a sign, and digits come next. -/
def exponent? (cs : List Char) : Option Int × List Char :=
  match cs with
  | [] => (none, [])
  | mark :: rest =>
    let (down, rest) := match rest with
      | '-' :: rest => (true, rest)
      | '+' :: rest => (false, rest)
      | _ => (false, rest)
    let digits := rest.takeWhile Char.isDigit
    if (mark = 'e' ∨ mark = 'E') ∧ digits ≠ [] then
      (some (if down then -(digitsValue digits : Int) else digitsValue digits),
        rest.dropWhile Char.isDigit)
    else (none, cs)

/-- A number without its sign; a zero is the first of several digits in no number. -/
def unsigned? (negative : Bool) (cs : List Char) : Option (Value × List Char) :=
  let whole := cs.takeWhile Char.isDigit
  let (places, afterFraction) := fraction (cs.dropWhile Char.isDigit)
  let (exponent, rest) := exponent? afterFraction
  if whole = [] ∨ (whole.head? = some '0' ∧ whole ≠ ['0']) then none
  else if places = [] ∧ exponent = none then
    some (.int (if negative then -(digitsValue whole : Int) else digitsValue whole), rest)
  else
    let number : Decimal :=
      ⟨negative, digitsValue (whole ++ places), exponent.getD 0 - places.length⟩
    some (.float number.toBinary64, rest)

/-- A number. -/
def number? : List Char → Option (Value × List Char)
  | '-' :: cs => unsigned? true cs
  | cs => unsigned? false cs

/-! ## Values -/

/-- One of the three words that are values. -/
def word? (cs : List Char) : Option (Value × List Char) :=
  ("null".toList.isPrefixOf? cs).map (Value.null, ·)
  <|> ("true".toList.isPrefixOf? cs).map (Value.bool true, ·)
  <|> ("false".toList.isPrefixOf? cs).map (Value.bool false, ·)

mutual

/-- A value, after white space. -/
def value? (cs : List Char) : Option (Value × List Char) :=
  let rest := afterNext cs
  if next? cs = some '[' then
    if next? rest = some ']' then some (.list [], afterNext rest)
    else if rest.length < cs.length then
      (items? rest).map fun (items, after) => (.list items, after)
    else none
  else if next? cs = some '\x7b' then
    if next? rest = some '\x7d' then some (.dict [], afterNext rest)
    else if rest.length < cs.length then
      (members? rest).map fun (members, after) => (.dict (Entries.ofList members), after)
    else none
  else if next? cs = some '"' then
    (string? rest).map fun (content, after) => (.str (String.ofList content), after)
  else word? (skip cs) <|> number? (skip cs)
  termination_by (cs.length, 0)

/-- The items of an array up to its closing bracket; there is at least one. -/
def items? (cs : List Char) : Option (List Value × List Char) :=
  (value? cs).bind fun (v, after) =>
    if next? after = some ']' then some ([v], afterNext after)
    else if next? after = some ',' ∧ (afterNext after).length < cs.length then
      (items? (afterNext after)).map fun (items, after) => (v :: items, after)
    else none
  termination_by (cs.length, 1)

/-- The members of an object up to its closing brace; there is at least one. -/
def members? (cs : List Char) : Option (List (Key × Value) × List Char) :=
  if next? cs = some '"' then
    (string? (afterNext cs)).bind fun (name, after) =>
      if next? after = some ':' ∧ (afterNext after).length < cs.length then
        (value? (afterNext after)).bind fun (v, after) =>
          let member := (Key.str (String.ofList name), v)
          if next? after = some '\x7d' then some ([member], afterNext after)
          else if next? after = some ',' ∧ (afterNext after).length < cs.length then
            (members? (afterNext after)).map fun (members, after) => (member :: members, after)
          else none
      else none
  else none
  termination_by (cs.length, 1)

end

/-- The value of a JSON text: a value with nothing but white space around it. -/
def decode? (text : String) : Option Value :=
  (value? text.toList).bind fun (v, rest) => if skip rest = [] then some v else none

example : decode? " [-1, \"\\ud83d\\ude00\\/\", \x7b\"a\" : null, \"a\":true\x7d] " =
    some (.list [.int (-1), .str "😀/", .dict [(.str "a", .bool true)]]) := by
  cbv

example : decode? "[1,]" = none := by
  cbv

end Curly.Json
