import Curly.Yaml.Cursor

/-!
# Plain scalars

A plain scalar has no quotes around it. It goes on over spaces, and over line ends as long as the
next line is indented far enough, up to a comment, a colon before a gap or, inside brackets, a
character with a meaning there.
-/

namespace Curly.Yaml

/-- A character that separates items inside brackets. -/
def isFlowMark (c : Char) : Bool :=
  c == ',' || c == '[' || c == ']' || c == '\x7b' || c == '\x7d'

/-- A character that no plain scalar begins with, except as `startsPlain` says. -/
def isIndicator (c : Char) : Bool :=
  isBlank c || (feed? c).isSome || isFlowMark c || "-?:#&*!|>'\"%@\x60".toList.contains c

/-- Whether a plain scalar begins with a character in front of a text. -/
def startsPlain (flow : Bool) (c : Char) (rest : List Char) : Bool :=
  !isIndicator c || (c == '-' && !atGap rest) ||
    (if flow then c == ':' && !rest.head?.any isBlank
     else (c == '?' || c == ':') && !atGap rest)

/-- The characters of a plain scalar up to a gap or to its end. -/
def plainWord (flow : Bool) : List Char → List Char
  | [] => []
  | c :: rest =>
    if atGap [c] || (c == ':' && atGap rest) || (flow && isFlowMark c) then []
    else c :: plainWord flow rest

/-- The gap after a word of a plain scalar. -/
structure PlainGap where
  /-- What it amounts to between two words; nothing if the scalar ends there for sure. -/
  text : List Char
  /-- Whether it has a line end. -/
  ended : Bool
  /-- The number of its characters. -/
  length : Nat

/-- Reads the gap after a word. -/
def plainGap (cs : List Char) : PlainGap :=
  let spaces := cs.takeWhile (· = ' ')
  match cs.drop spaces.length with
  | [] => ⟨spaces, false, spaces.length⟩
  | c :: rest => match feed? c with
    | none => ⟨spaces, false, spaces.length⟩
    | some first =>
      let f := fold (· = ' ') rest
      ⟨if f.marked then [] else folded first f.feeds, true, spaces.length + 1 + f.length⟩

/-- A plain scalar as it is read. -/
structure PlainRun where
  text : List Char
  /-- Whether a line end was read after the last word. -/
  ended : Bool
  after : Cursor

/-- Reads a plain scalar whose further lines begin at the column `least` or beyond it, unless it is
inside brackets. The text has fewer characters than steps are given. -/
def plainRun (flow : Bool) (least : Nat) : Nat → Cursor → PlainRun
  | 0, k => ⟨[], false, k⟩
  | fuel + 1, k =>
    let word := plainWord flow k.rest
    let k := k.skip word.length
    let gap := plainGap k.rest
    let k := k.skip gap.length
    let goesOn := gap.text ≠ [] ∧ k.rest.head? ≠ some '#' ∧ (flow ∨ least ≤ k.column) ∧
      plainWord flow k.rest ≠ []
    if goesOn then
      let run := plainRun flow least fuel k
      { run with text := word ++ gap.text ++ run.text }
    else ⟨word, gap.ended, k⟩

end Curly.Yaml
