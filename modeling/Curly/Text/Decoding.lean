/-!
# Texts from bytes

Reading a file gives its bytes as text in one of three encodings, with every kind of line end made
a line feed.
-/

namespace Curly.Text

/-- How a text is written as bytes. -/
inductive Encoding where
  | utf8
  | ascii
  | latin1
deriving DecidableEq, Repr

/-- The name of an encoding. -/
def Encoding.name : Encoding → String
  | utf8 => "utf-8"
  | ascii => "ascii"
  | latin1 => "latin-1"

/-- The encoding of a name. -/
def Encoding.ofName? (name : String) : Option Encoding :=
  [utf8, ascii, latin1].find? fun encoding => encoding.name == name

/-- The text that bytes stand for, if they stand for one. -/
def decode? (encoding : Encoding) (bytes : ByteArray) : Option String :=
  match encoding with
  | .utf8 => String.fromUTF8? bytes
  | .ascii =>
    if bytes.toList.all (· < 0x80) then
      some (String.ofList (bytes.toList.map fun b => Char.ofNat b.toNat))
    else none
  | .latin1 => some (String.ofList (bytes.toList.map fun b => Char.ofNat b.toNat))

/-- The text with a line feed for every carriage return, alone or before a line feed. -/
def unixLines : List Char → List Char
  | '\r' :: '\n' :: rest => '\n' :: unixLines rest
  | '\r' :: rest => '\n' :: unixLines rest
  | c :: rest => c :: unixLines rest
  | [] => []

/-- Reads bytes as a text. -/
def read? (encoding : Encoding) (bytes : ByteArray) : Option String :=
  (decode? encoding bytes).map fun text => String.ofList (unixLines text.toList)

/-- What is said of bytes that are no text. -/
def undecodable (encoding : Encoding) : String :=
  "'" ++ encoding.name ++ "' codec can't decode the bytes"

end Curly.Text
