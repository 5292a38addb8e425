import Curly.Template.Tag
import Curly.Text.Quoted

/-!
# Tokens

A template's text is cut into tags and the runs of text between them: `pieces` finds the tags
from the left, and `locate` gives each piece its place. Braces that belong to no tag are text.
-/

namespace Curly

/-- A place in a text: the characters before it, its line and its column. Lines and columns are
counted from one, and only a line feed ends a line. -/
structure Location where
  offset : Nat
  line : Nat
  column : Nat
deriving DecidableEq, Repr

namespace Location

/-- The start of a text. -/
def start : Location := ⟨0, 1, 1⟩

/-- The place after one more character. -/
def next (l : Location) (c : Char) : Location :=
  if c = '\n' then ⟨l.offset + 1, l.line + 1, 1⟩ else ⟨l.offset + 1, l.line, l.column + 1⟩

/-- The place after a text. -/
def after (l : Location) (cs : List Char) : Location := cs.foldl next l

end Location

/-- A part of a template: a run of text, or a tag with its body. -/
inductive Piece where
  | text (cs : List Char)
  | tag (body : List Char) (tag : Tag)
deriving DecidableEq, Repr

namespace Piece

/-- The text of a piece. -/
def source : Piece → List Char
  | text cs => cs
  | tag body _ => Tag.wrap body

/-- Pieces with one more character of text before them. -/
def consChar (c : Char) : List Piece → List Piece
  | text cs :: rest => text (c :: cs) :: rest
  | ps => text [c] :: ps

end Piece

/-- The pieces of a text: the tag at its start if there is one, else its first character as text. -/
def pieces (cs : List Char) : List Piece :=
  match h : Tag.read? cs with
  | some (body, tag, rest) =>
    have := Tag.length_lt_of_read? h
    .tag body tag :: pieces rest
  | none =>
    match cs with
    | [] => []
    | c :: rest => Piece.consChar c (pieces rest)
  termination_by cs.length

/-- What a token is. -/
inductive TokenForm where
  | text
  | tag (tag : Tag)
  | stop
deriving DecidableEq, Repr

/-- A part of a template with its text and its place. -/
structure Token where
  form : TokenForm
  source : String
  location : Location
deriving DecidableEq, Repr

namespace Token

/-- Whether a token is a tag that gives the template its shape. -/
def isBoundary (t : Token) : Bool :=
  match t.form with
  | .tag tag => tag.isBoundary
  | _ => false

/-- The arguments of a tag. -/
def arguments (t : Token) : List String :=
  match t.form with
  | .tag tag => tag.arguments
  | _ => []

/-- The name of a token's kind. -/
def kindName (t : Token) : String :=
  match t.form with
  | .text => "TEXT"
  | .stop => "EOF"
  | .tag tag => match tag with
    | .value _ => "VARIABLE"
    | .json _ => "JSON"
    | .html _ => "HTML"
    | .ifOpen _ => "IF"
    | .eachOpen .. => "EACH"
    | .embed _ => "INCLUDE"
    | .elseMark => "ELSE"
    | .close _ => "END"

/-- A token with its kind, its text and its place, on one line. -/
def describe (t : Token) : String :=
  "Token(" ++ t.kindName ++ ", " ++ Text.quoted t.source ++ ", " ++ toString t.location.line ++ ":" ++
    toString t.location.column ++ ")"

end Token

/-- The token of a piece at a place. -/
def Piece.token (p : Piece) (l : Location) : Token where
  form := match p with
    | .text _ => .text
    | .tag _ found => .tag found
  source := String.ofList p.source
  location := l

/-- The tokens of pieces that follow one another from a place on; the last one marks the end. -/
def locate (l : Location) : List Piece → List Token
  | [] => [⟨.stop, "", l⟩]
  | p :: rest => p.token l :: locate (l.after p.source) rest

/-- The tokens of a template's text. -/
def Token.ofText (text : String) : List Token := locate .start (pieces text.toList)

end Curly
