/-!
# Places in a data file

A cursor is a place in a text, with what is still to be read there. Only a line feed begins a new
line for the counting of lines and columns, but four characters end a line of text (`feed?`): what
they amount to between two words is `folded`, and `fold` reads the empty lines that follow one.
-/

namespace Curly.Yaml

/-- A character that a data file may hold. -/
def isAllowed (c : Char) : Bool :=
  let n := c.toNat
  c == '\t' || c == '\n' || c == '\r' || (0x20 ≤ n && n ≤ 0x7E) || n == 0x85 ||
    (0xA0 ≤ n && n ≤ 0xFFFD) || 0x10000 ≤ n

/-- A space or a tab. -/
def isBlank (c : Char) : Bool := c == ' ' || c == '\t'

/-- The line end that a character is. The next-line character is as good as a line feed; the line
and the paragraph separator stay what they are. -/
def feed? (c : Char) : Option Char :=
  if c = '\n' ∨ c = '\u0085' then some '\n'
  else if c = '\u2028' ∨ c = '\u2029' then some c
  else none

/-- A character that ends a comment. -/
def endsComment (c : Char) : Bool := c == '\n' || c == '\u0085'

/-- Whether a text is at its end or goes on with a character that ends a mark. -/
def atGap (cs : List Char) : Bool := cs.head?.all fun c => isBlank c || endsComment c

/-- Whether a text begins with a marker of the beginning or the end of a document. -/
def atMarker (cs : List Char) : Bool :=
  (cs.take 3 == ['-', '-', '-'] || cs.take 3 == ['.', '.', '.']) && atGap (cs.drop 3)

/-! ## Cursors -/

/-- A place in a text and what follows it; lines and columns are counted from zero. -/
structure Cursor where
  rest : List Char
  index : Nat
  line : Nat
  column : Nat
deriving Repr

namespace Cursor

/-- The place one character further. A byte order mark takes no column. -/
def next (k : Cursor) : Cursor :=
  match k.rest with
  | [] => k
  | c :: rest =>
    if c = '\n' then ⟨rest, k.index + 1, k.line + 1, 0⟩
    else ⟨rest, k.index + 1, k.line, if c = '\uFEFF' then k.column else k.column + 1⟩

/-- The place some characters further. -/
def skip : Nat → Cursor → Cursor
  | 0, k => k
  | n + 1, k => skip n k.next

end Cursor

/-! ## Gaps -/

/-- The number of characters in the blanks, the comments and the line ends that a text begins with,
and whether a line ended among them. Tabs are blanks only inside brackets (`flow`); `comment` tells
whether the text begins inside a comment. -/
def gapLength (flow : Bool) : Bool → List Char → Nat × Bool
  | _, [] => (0, false)
  | comment, c :: rest =>
    let passed := fun (comment ended : Bool) =>
      let (length, later) := gapLength flow comment rest
      (length + 1, ended || later)
    if comment && !endsComment c then passed true false
    else if c == ' ' || (flow && c == '\t') then passed false false
    else if c == '#' then passed true false
    else if (feed? c).isSome then passed false true
    else (0, false)

/-- The empty lines after a line end. -/
structure Fold where
  /-- The line ends. -/
  feeds : List Char
  /-- The number of characters in the lines, and in the blanks after them. -/
  length : Nat
  /-- Whether a marker of a document follows one of the line ends, where the reading stops. -/
  marked : Bool

/-- One more character in front of empty lines, which may be a line end. -/
def Fold.after (feeds : List Char) (f : Fold) : Fold := ⟨feeds ++ f.feeds, f.length + 1, f.marked⟩

/-- Reads empty lines, which may hold blanks. -/
def foldLines (isBlank : Char → Bool) : List Char → Fold
  | [] => ⟨[], 0, false⟩
  | c :: rest =>
    if isBlank c then (foldLines isBlank rest).after []
    else match feed? c with
      | none => ⟨[], 0, false⟩
      | some feed => (if atMarker rest then ⟨[], 0, true⟩ else foldLines isBlank rest).after [feed]

/-- Reads the empty lines after a line end. -/
def fold (isBlank : Char → Bool) (cs : List Char) : Fold :=
  if atMarker cs then ⟨[], 0, true⟩ else foldLines isBlank cs

/-- What a line end and those of the empty lines after it amount to: a single line feed is a space,
and of several line ends the first one is dropped if it is a line feed. -/
def folded (first : Char) (others : List Char) : List Char :=
  if first ≠ '\n' then first :: others
  else if others = [] then [' ']
  else others

end Curly.Yaml
