import Curly.Text.Substitution

/-!
# Texts inside markup

`escape` makes a text safe to stand in markup, in an attribute and in a script; `dropDashes`
takes out what could end a comment.
-/

namespace Curly.Text

/-- The characters with a meaning in markup or in a script, and their entities. The ampersand is
first: it begins the entities that the later replacements put in. -/
def markupEntities : List (Char × String) :=
  [('&', "&amp;"), ('<', "&lt;"), ('>', "&gt;"), ('"', "&quot;"), ('\'', "&#39;"), ('/', "&#x2F;"),
   ('\x60', "&#96;")]

/-- The text with an entity for every character that has one. -/
def escape (s : String) : String := String.ofList (substitute markupEntities s.toList)

/-- What a single character of the text becomes. -/
def entity (c : Char) : List Char :=
  match markupEntities.lookup c with
  | some entity => entity.toList
  | none => [c]

/-- The text without its pairs of dashes, taken from the left. -/
def dropDashes : List Char → List Char
  | '-' :: '-' :: rest => dropDashes rest
  | c :: rest => c :: dropDashes rest
  | [] => []

end Curly.Text
