import Curly.Number.Limit
import Curly.Text.Hex
import Curly.Text.Quoted
import Curly.Text.Substitution
import Curly.Value.Basic

/-!
# Values as JSON

Compact JSON, in the order of the entries. There are two ways to treat what JSON has no form for
(`Json.Mode`): `strict` refuses it, `lenient` writes a value as the string of its plain text and
a number that is not finite as a word. Both refuse a key that is no scalar, and a whole number with
more digits than the limit. The first fault met, in the order of writing and a key before its value,
is the one reported.

`Json.scriptSafe` is the text to put into a script element: strict JSON in which the characters
that could end a script or an attribute are escapes.
-/

namespace Curly

/-! ## Plain texts -/

/-- The plain text of a number: the fewest digits that read back. -/
def Binary64.plain (x : Binary64) : String := NumeralStyle.write ⟨"nan", "inf", -3, 16, 2⟩ x

/-- The plain text of a range. -/
def rangeText (start stop : Int) : Except NumeralFault String := do
  return "range(" ++ (← Numeral.write start) ++ ", " ++ (← Numeral.write stop) ++ ")"

/-- The text of items between brackets, where a single item of a tuple has a comma after it. -/
def tupleText : List String → String
  | [text] => "(" ++ text ++ ",)"
  | texts => "(" ++ ", ".intercalate texts ++ ")"

mutual

/-- The text of a key inside the text of a container. -/
def Key.inner : Key → Except NumeralFault String
  | .null => .ok "None"
  | .bool b => .ok (if b then "True" else "False")
  | .int n => Numeral.write n
  | .float x => .ok x.plain
  | .str s => .ok (Text.quoted s)
  | .tuple items => do return tupleText (← Key.innerAll items)
  | .bytes octets => .ok (Text.quotedBytes octets)
  | .range start stop => rangeText start stop
  | .object text => .ok text

/-- The texts of keys inside the text of a container. -/
def Key.innerAll : List Key → Except NumeralFault (List String)
  | [] => .ok []
  | k :: rest => do
    let text ← k.inner
    return text :: (← Key.innerAll rest)

end

mutual

/-- The text of a value inside the text of a container, where a text stands between quotes. -/
def Value.inner : Value → Except NumeralFault String
  | .null => .ok "None"
  | .bool b => .ok (if b then "True" else "False")
  | .int n => Numeral.write n
  | .float x => .ok x.plain
  | .str s => .ok (Text.quoted s)
  | .list items => do return "[" ++ ", ".intercalate (← Value.innerAll items) ++ "]"
  | .tuple items => do return tupleText (← Value.innerAll items)
  | .dict entries => do
    return "\x7b" ++ ", ".intercalate (← Value.innerEntries entries) ++ "\x7d"
  | .view _ => .ok "ReadOnlyMap"
  | .bytes octets => .ok (Text.quotedBytes octets)
  | .range start stop => rangeText start stop
  | .object text => .ok text

/-- The texts of items inside the text of a container. -/
def Value.innerAll : List Value → Except NumeralFault (List String)
  | [] => .ok []
  | v :: rest => do
    let text ← v.inner
    return text :: (← Value.innerAll rest)

/-- The texts of entries inside the text of a mapping. -/
def Value.innerEntries : List (Key × Value) → Except NumeralFault (List String)
  | [] => .ok []
  | (k, v) :: rest => do
    let name ← k.inner
    let text ← v.inner
    return (name ++ ": " ++ text) :: (← Value.innerEntries rest)

end

/-- The plain text of a value. -/
def Value.plain : Value → Except NumeralFault String
  | .str s => .ok s
  | v => v.inner

/-! ## JSON -/

namespace Json

/-- How JSON is written for what it has no form for. -/
inductive Mode where
  | strict
  | lenient
deriving DecidableEq, Repr

/-- Why a value has no JSON text. -/
inductive Fault where
  /-- A key that is not a scalar, by its type. -/
  | badKey (typeName : String)
  /-- A value of a type that JSON does not have. -/
  | unsupported (typeName : String)
  /-- A number that is infinite or none. -/
  | notFinite
  /-- A whole number that cannot be written in digits. -/
  | numeral (fault : NumeralFault)
deriving DecidableEq, Repr

/-- The wording of a fault. -/
def Fault.message : Fault → String
  | badKey typeName => "keys must be str, int, float, bool or None, not " ++ typeName
  | unsupported typeName => "Object of type " ++ typeName ++ " is not JSON serializable"
  | notFinite => "Out of range float values are not JSON compliant"
  | numeral fault => fault.message

/-- Numbers are written with the fewest digits that read back, without an exponent from 0.0001 up
to 10 ^ 16. -/
def numeralStyle : NumeralStyle := ⟨"NaN", "Infinity", -3, 16, 2⟩

/-- A character inside a JSON string. Only the quote, the backslash and the controls below the
space are escaped. -/
def escapeChar (c : Char) : List Char :=
  if c = '"' then ['\\', '"']
  else if c = '\\' then ['\\', '\\']
  else if c = '\n' then ['\\', 'n']
  else if c = '\r' then ['\\', 'r']
  else if c = '\t' then ['\\', 't']
  else if c = '\x0c' then ['\\', 'f']
  else if c = '\x08' then ['\\', 'b']
  else if c.toNat < 0x20 then '\\' :: 'u' :: Text.hex 4 c.toNat
  else [c]

/-- A JSON string. -/
def string (s : String) : String :=
  String.ofList ('"' :: s.toList.flatMap escapeChar ++ ['"'])

/-- A number, or the word for one that is not finite where that is allowed. -/
def number (mode : Mode) (x : Binary64) : Except Fault String :=
  if mode = .strict ∧ ¬ x.isFinite then .error .notFinite else .ok (numeralStyle.write x)

/-- A whole number. -/
def whole (n : Int) : Except Fault String := (Numeral.write n).mapError .numeral

/-- The text between the quotes of a key: scalars are written as they are as values. -/
def key (mode : Mode) : Key → Except Fault String
  | .str s => .ok s
  | .int n => whole n
  | .bool b => .ok (if b then "true" else "false")
  | .null => .ok "null"
  | .float x => number mode x
  | k => .error (.badKey k.typeName)

/-- A value that JSON has no form for. -/
def foreign (mode : Mode) (v : Value) : Except Fault String :=
  match mode with
  | .strict => .error (.unsupported v.typeName)
  | .lenient => (v.plain.mapError .numeral).map string

mutual

/-- The JSON text of a value. A read-only mapping is no JSON object here. -/
def write (mode : Mode) : Value → Except Fault String
  | .null => .ok "null"
  | .bool b => .ok (if b then "true" else "false")
  | .int n => whole n
  | .float x => number mode x
  | .str s => .ok (string s)
  | .list items => do return "[" ++ ",".intercalate (← writeItems mode items) ++ "]"
  | .tuple items => do return "[" ++ ",".intercalate (← writeItems mode items) ++ "]"
  | .dict entries => do return "\x7b" ++ ",".intercalate (← writeEntries mode entries) ++ "\x7d"
  | .view entries => foreign mode (.view entries)
  | .bytes octets => foreign mode (.bytes octets)
  | .range start stop => foreign mode (.range start stop)
  | .object text => foreign mode (.object text)

/-- The texts of the items of an array. -/
def writeItems (mode : Mode) : List Value → Except Fault (List String)
  | [] => .ok []
  | v :: rest => do
    let text ← write mode v
    return text :: (← writeItems mode rest)

/-- The texts of the members of an object. -/
def writeEntries (mode : Mode) : List (Key × Value) → Except Fault (List String)
  | [] => .ok []
  | (k, v) :: rest => do
    let name ← key mode k
    let text ← write mode v
    return (string name ++ ":" ++ text) :: (← writeEntries mode rest)

end

/-- A mapping of either kind at the top is a JSON object. -/
def asObject : Value → Value
  | .view entries => .dict entries
  | v => v

/-- The characters that could end a script element or an attribute, and their JSON escapes. -/
def scriptEscapes : List (Char × String) :=
  [('&', "\\u0026"), ('<', "\\u003c"), ('>', "\\u003e"), ('\'', "\\u0027")]

/-- The JSON text of a value, to be put into a script element. -/
def scriptSafe (v : Value) : Except Fault String := do
  let text ← write .strict (asObject v)
  return String.ofList (Text.substitute scriptEscapes text.toList)

end Json

end Curly
