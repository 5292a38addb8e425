import Curly.Text.Split

/-!
# File paths

A path is a list of segments, from the root or from where one stands. Empty segments and single
dots do not count; a double dot does, since what it leads to depends on where one stands.
`FilePath.normalize` is where a path leads if each double dot undoes the segment before it.

A path that begins with exactly two slashes keeps them, since systems may give them a meaning; any
other number of slashes at the beginning is the root.
-/

namespace Curly

/-- Where a path begins. -/
inductive Anchor where
  | here
  | root
  | doubleRoot
deriving DecidableEq, Repr

/-- The slashes at the beginning of a path. -/
def Anchor.text : Anchor → String
  | here => ""
  | root => "/"
  | doubleRoot => "//"

/-- A path of files. -/
structure FilePath where
  anchor : Anchor
  segments : List String
deriving DecidableEq, Repr

namespace FilePath

/-- The segments of a text that count. -/
def segmentsOf (text : String) : List String :=
  ((Text.splitList '/' text.toList).map String.ofList).filter fun s => s ≠ "" ∧ s ≠ "."

/-- Where a text that gives a path begins. -/
def anchorOf (text : String) : Anchor :=
  match (text.toList.takeWhile (· = '/')).length with
  | 0 => .here
  | 2 => .doubleRoot
  | _ => .root

/-- The path that a text gives. -/
def ofText (text : String) : FilePath := ⟨anchorOf text, segmentsOf text⟩

/-- Whether a path begins at the root. -/
def isAbsolute (p : FilePath) : Bool := p.anchor != .here

/-- The text of a path. -/
def toText (p : FilePath) : String :=
  if p.anchor = .here ∧ p.segments = [] then "."
  else p.anchor.text ++ "/".intercalate p.segments

/-- A path seen from another; an absolute path stays what it is. -/
def join (base p : FilePath) : FilePath :=
  if p.isAbsolute then p else { base with segments := base.segments ++ p.segments }

/-- The path without its last segment. -/
def parent (p : FilePath) : FilePath := { p with segments := p.segments.dropLast }

/-- One segment further; a double dot goes back by one, and stays at the root. -/
def enter (place : List String) (segment : String) : List String :=
  if segment = ".." then place.dropLast else place ++ [segment]

/-- Where segments lead from a place. -/
def normalize (place segments : List String) : List String := segments.foldl enter place

/-- The path of a place given by the segments from the root. -/
def ofPlace (place : List String) : FilePath := ⟨.root, place⟩

/-- The text of a place given by the segments from the root. -/
def placeText (place : List String) : String := (ofPlace place).toText

/-- Whether the character NUL is in a path. No system has a name for such a path. -/
def hasNul (p : FilePath) : Bool := p.segments.any fun segment => segment.toList.contains '\x00'

end FilePath

end Curly
