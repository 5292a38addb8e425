import Curly.Path
import Curly.Text.Word

/-!
# Tags

A tag is an opening brace, a body without braces that fits one of seven forms, and a closing
brace. `Tag.ofBody?` reads a body and `Tag.read?` the tag at the start of a text. Whether a tag
stands at a place is decided by the characters up to the next brace alone, so what comes after a
tag never changes it.

| body                              | tag                                        |
|-----------------------------------|--------------------------------------------|
| `path`                            | the value at the path, escaped             |
| `@json path`, `@html path`        | the value as JSON, the value as it is      |
| `#if condition`                   | opens an `if` block                        |
| `#each path as item, index`       | opens an `each` block; names are optional  |
| `#include "name"`                 | the template of that name                  |
| `:else`                           | begins the other branch of an `if` block   |
| `/if`, `/each`                    | closes a block                             |
-/

namespace Curly

/-- The kinds of blocks. -/
inductive BlockKind where
  | cond
  | each
deriving DecidableEq, Repr

/-- The word that opens and closes a block. -/
def BlockKind.word : BlockKind → String
  | cond => "if"
  | each => "each"

/-- A tag of a template. -/
inductive Tag where
  | value (path : String)
  | json (path : String)
  | html (path : String)
  | ifOpen (condition : String)
  | eachOpen (collection item index : String)
  | embed (name : String)
  | elseMark
  | close (kind : BlockKind)
deriving DecidableEq, Repr

namespace Tag

/-- The name of a loop's item when the tag gives none. -/
def defaultItem : String := "item"

/-- Whether a tag gives a template its shape, as opposed to showing a value. -/
def isBoundary : Tag → Bool
  | value _ | json _ | html _ => false
  | _ => true

/-- What a tag was given: its path, condition, names or kind. -/
def arguments : Tag → List String
  | value path | json path | html path => [path]
  | ifOpen condition => [condition]
  | eachOpen collection item index => [collection, item, index]
  | embed name => [name]
  | elseMark => []
  | close kind => [kind.word]

/-! ## Reading a body -/

/-- What follows a run of blanks, of which there is at least one. -/
def afterBlanks? : List Char → Option (List Char)
  | c :: rest => if Text.isBlank c then some (rest.dropWhile Text.isBlank) else none
  | [] => none

/-- What follows a word at the start of a body and the blanks after the word. -/
def after? (word : String) (body : List Char) : Option (List Char) :=
  (word.toList.isPrefixOf? body).bind afterBlanks?

/-- Whether a body is a word with nothing but blanks after it. -/
def isAlone (word : String) (body : List Char) : Bool :=
  (word.toList.isPrefixOf? body).any Text.allBlank

/-- A run of characters of a class, not empty, and what follows it. -/
def run? (p : Char → Bool) (cs : List Char) : Option (String × List Char) :=
  let run := cs.takeWhile p
  if run = [] then none else some (String.ofList run, cs.dropWhile p)

/-- A path with nothing but blanks after it. -/
def path? (cs : List Char) : Option String := do
  let (path, rest) ← run? Path.isPathChar cs
  guard (Text.allBlank rest)
  return path

/-- The names that a loop gives to its item and its index. -/
def names? (cs : List Char) : Option (String × String) := do
  let (item, rest) ← run? Text.isWord cs
  match rest.dropWhile Text.isBlank with
  | [] => return (item, "")
  | ',' :: more =>
    let (index, rest) ← run? Text.isWord (more.dropWhile Text.isBlank)
    guard (Text.allBlank rest)
    return (item, index)
  | _ => none

/-- The collection of a loop and the names it gives. -/
def each? (cs : List Char) : Option Tag := do
  let (collection, rest) ← run? Path.isPathChar cs
  if Text.allBlank rest then return eachOpen collection defaultItem ""
  let (item, index) ← ((afterBlanks? rest).bind (after? "as")).bind names?
  return eachOpen collection item index

/-- A character of a name that stands without quotes. -/
def isNameChar (c : Char) : Bool := Text.isWord c || c == '.' || c == '/' || c == '-'

/-- The name of a template, between quotes of either kind or without, with nothing but blanks
after it. -/
def name? (cs : List Char) : Option String := do
  let quotedBy := fun (quote : Char) (cs : List Char) =>
    match cs.dropWhile (· ≠ quote) with
    | _ :: rest => some (String.ofList (cs.takeWhile (· ≠ quote)), rest)
    | [] => none
  let (name, rest) ← match cs with
    | '"' :: cs => quotedBy '"' cs
    | '\'' :: cs => quotedBy '\'' cs
    | cs => run? isNameChar cs
  guard (Text.allBlank rest)
  return name

/-- The tag of a body. The first character tells the forms apart, so at most one of them fits. -/
def ofBody? (body : List Char) : Option Tag :=
  (path? (body.dropWhile Text.isBlank)).map value
  <|> ((after? "@json" body).bind path?).map json
  <|> ((after? "@html" body).bind path?).map html
  <|> (after? "#if" body).map (fun cs => ifOpen (String.ofList (Text.trimEnd cs)))
  <|> (after? "#each" body).bind each?
  <|> ((after? "#include" body).bind name?).map embed
  <|> (if isAlone ":else" body then some elseMark else none)
  <|> (if isAlone "/if" body then some (close .cond) else none)
  <|> (if isAlone "/each" body then some (close .each) else none)

/-! ## Finding a body -/

/-- A character that no body holds. -/
def isBrace (c : Char) : Bool := c == '\x7b' || c == '\x7d'

/-- The body of a tag and the tag, if the text begins with one, and what follows it. -/
def read? : List Char → Option (List Char × Tag × List Char)
  | '\x7b' :: cs =>
    let body := cs.takeWhile (!isBrace ·)
    match cs.dropWhile (!isBrace ·) with
    | '\x7d' :: rest => (ofBody? body).map fun tag => (body, tag, rest)
    | _ => none
  | _ => none

/-- The text of a tag with a body. -/
def wrap (body : List Char) : List Char := '\x7b' :: body ++ ['\x7d']

/-- A text that begins with a tag is the tag's text and what follows it. -/
theorem eq_of_read? {cs body rest : List Char} {tag : Tag} (h : read? cs = some (body, tag, rest)) :
    cs = wrap body ++ rest := by
  unfold read? at h
  split at h
  case h_2 => simp at h
  case h_1 cs =>
    dsimp only at h
    split at h
    case h_2 => simp at h
    case h_1 after heq =>
      simp only [Option.map_eq_some_iff, Prod.mk.injEq] at h
      obtain ⟨_, _, rfl, _, rfl⟩ := h
      have := List.takeWhile_append_dropWhile (p := (!isBrace ·)) (l := cs)
      simp [wrap, ← heq, this]

theorem length_lt_of_read? {cs body rest : List Char} {tag : Tag}
    (h : read? cs = some (body, tag, rest)) : rest.length < cs.length := by
  rw [eq_of_read? h]
  simp [wrap]
  omega

end Tag

end Curly
