import Curly.Text.Hex
import Curly.Yaml.Cursor

/-!
# Quoted scalars

Between single quotes a quote is written twice and all else stands for itself; between double
quotes a backslash begins an escape. Line ends are folded between both. Escapes give code points,
and the two halves of a surrogate pair are one character (`joinPairs?`).
-/

namespace Curly.Yaml

/-- The text of code points, where a pair of surrogates is one character. -/
def joinPairs? : List Nat → Option (List Char)
  | [] => some []
  | [n] => if n.isValidChar then some [Char.ofNat n] else none
  | n :: m :: rest =>
    if n.isValidChar then (joinPairs? (m :: rest)).map (Char.ofNat n :: ·)
    else if 0xD800 ≤ n ∧ n < 0xDC00 ∧ 0xDC00 ≤ m ∧ m < 0xE000 then
      (joinPairs? rest).map
        (Char.ofNat (0x10000 + 0x400 * (n - 0xD800) + (m - 0xDC00)) :: ·)
    else none

/-- The character that a letter after a backslash stands for. -/
def shortEscape? (c : Char) : Option Char :=
  [('0', '\x00'), ('a', '\x07'), ('b', '\x08'), ('t', '\t'), ('\t', '\t'), ('n', '\n'),
   ('v', '\x0b'), ('f', '\x0c'), ('r', '\r'), ('e', '\x1b'), (' ', ' '), ('"', '"'), ('/', '/'),
   ('\\', '\\'), ('N', '\u0085'), ('_', '\u00a0'), ('L', '\u2028'), ('P', '\u2029')].lookup c

/-- The digits of an escape by code point. -/
def escapeWidth? (c : Char) : Option Nat := [('x', 2), ('u', 4), ('U', 8)].lookup c

/-- The code points of characters. -/
def codePoints (cs : List Char) : List Nat := cs.map Char.toNat

/-- What the text after a backslash stands for, and the length of the escape. A line end is left
out with the blanks after it, but the empty lines after it are not. -/
def escape? : List Char → Option (List Nat × Nat)
  | [] => none
  | c :: rest =>
    match shortEscape? c, escapeWidth? c, feed? c with
    | some d, _, _ => some ([d.toNat], 1)
    | _, some width, _ => do
      let digits := rest.take width
      guard (digits.length = width)
      return ([← Text.hexValue? digits], width + 1)
    | _, _, some _ =>
      let f := fold isBlank rest
      if f.marked then none else some (codePoints f.feeds, f.length + 1)
    | _, _, _ => none

/-- What the blanks and line ends that a text begins with amount to, and their length. -/
def quotedGap? (cs : List Char) : Option (List Nat × Nat) :=
  let blanks := cs.takeWhile isBlank
  match cs.drop blanks.length with
  | [] => none
  | c :: rest => match feed? c with
    | none => some (codePoints blanks, blanks.length)
    | some first =>
      let f := fold isBlank rest
      if f.marked then none
      else some (codePoints (folded first f.feeds), blanks.length + 1 + f.length)

/-- What a text inside quotes begins with, and its length. -/
def quotedPart? (quote c : Char) (rest : List Char) : Option (List Nat × Nat) :=
  if c = quote then some ([c.toNat], 2)
  else if c = '\\' ∧ quote = '"' then
    (escape? rest).map fun (codes, length) => (codes, length + 1)
  else if isBlank c ∨ (feed? c).isSome then quotedGap? (c :: rest)
  else some ([c.toNat], 1)

/-- Whether a quoted scalar ends with a character in front of a text. -/
def closesQuote (quote c : Char) (rest : List Char) : Bool :=
  c == quote && (quote == '"' || rest.head? != some quote)

/-- The code points of a quoted scalar after its opening quote, and its length with the closing one.
The text has fewer characters than steps are given. -/
def quotedFrom? (quote : Char) : Nat → List Char → Option (List Nat × Nat)
  | 0, _ => none
  | _, [] => none
  | fuel + 1, c :: rest => do
    if closesQuote quote c rest then return ([], 1)
    let (codes, length) ← quotedPart? quote c rest
    let (more, length') ← quotedFrom? quote fuel ((c :: rest).drop length)
    return (codes ++ more, length + length')

/-- The contents of a quoted scalar after its opening quote, and its length with the closing one. -/
def quoted? (quote : Char) (fuel : Nat) (cs : List Char) : Option (String × Nat) := do
  let (codes, length) ← quotedFrom? quote fuel cs
  return (String.ofList (← joinPairs? codes), length)

end Curly.Yaml
