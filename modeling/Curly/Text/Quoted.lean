import Curly.Text.Hex
import Curly.Text.Printable

/-!
# Quoted texts

How a text or a string of bytes is shown on one line between quotes: the quote is the single one
unless the text holds it and not the double one, and what cannot be shown is written as an escape.
-/

namespace Curly.Text

/-- The quote to put around a text. -/
def quoteFor (cs : List Char) : Char :=
  if cs.contains '\'' && !cs.contains '"' then '"' else '\''

/-- The escapes of one letter. -/
def shortEscape? : Char → Option (List Char)
  | '\t' => some ['\\', 't']
  | '\n' => some ['\\', 'n']
  | '\r' => some ['\\', 'r']
  | '\\' => some ['\\', '\\']
  | _ => none

/-- The escape of a character by its code point, in two, four or eight digits. -/
def codeEscape (c : Char) : List Char :=
  if c.toNat < 0x100 then '\\' :: 'x' :: hex 2 c.toNat
  else if c.toNat < 0x10000 then '\\' :: 'u' :: hex 4 c.toNat
  else '\\' :: 'U' :: hex 8 c.toNat

/-- A character as it stands between `quote`s, where `shown` tells which characters stand for
themselves. -/
def quoteChar (shown : Char → Bool) (quote c : Char) : List Char :=
  match shortEscape? c with
  | some escape => escape
  | none => if c = quote then ['\\', c] else if shown c then [c] else codeEscape c

/-- A text between quotes. -/
def quoted (s : String) : String :=
  let quote := quoteFor s.toList
  String.ofList (quote :: s.toList.flatMap (quoteChar isPrintable quote) ++ [quote])

/-- A string of bytes between quotes after the letter `b`; only ASCII is shown as itself. -/
def quotedBytes (bytes : List UInt8) : String :=
  let cs := bytes.map fun b => Char.ofNat b.toNat
  let quote := quoteFor cs
  let shown := fun c : Char => decide (0x20 ≤ c.toNat ∧ c.toNat < 0x7F)
  String.ofList ('b' :: quote :: cs.flatMap (quoteChar shown quote) ++ [quote])

end Curly.Text
