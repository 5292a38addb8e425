/-!
# Blank characters

The characters that separate words: `isBlank` is the class, `trim` takes a run of them off both
ends of a text, and `allBlank` is the test for a text made of nothing else. The class holds the
separators of every script, so it is wider than the ASCII one.
-/

namespace Curly.Text

/-- A character that separates words: the ASCII controls from tab to carriage return and from
file to unit separator, the space, and the line, paragraph and width separators beyond ASCII. -/
def isBlank (c : Char) : Bool :=
  let n := c.toNat
  (0x09 ≤ n && n ≤ 0x0D) || (0x1C ≤ n && n ≤ 0x20) || n == 0x85 || n == 0xA0 || n == 0x1680 ||
    (0x2000 ≤ n && n ≤ 0x200A) || n == 0x2028 || n == 0x2029 || n == 0x202F || n == 0x205F ||
    n == 0x3000

/-- The text without the blank run at its end. -/
def trimEnd (cs : List Char) : List Char :=
  cs.foldr (fun c rest => if rest.isEmpty && isBlank c then [] else c :: rest) []

/-- The text without the blank runs at its two ends. -/
def trim (cs : List Char) : List Char := trimEnd (cs.dropWhile isBlank)

/-- Whether a text is blank throughout; the empty text is. -/
def allBlank (cs : List Char) : Bool := cs.all isBlank

end Curly.Text
