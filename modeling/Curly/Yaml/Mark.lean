import Curly.Yaml.Plain
import Curly.Yaml.Quoted

/-!
# Marks of a data file

A text is read into marks: scalars, brackets, and the beginnings, the ends and the parts of the
block collections that its columns show. Whether a scalar or a bracket is a key is not known before
the colon after it, so what may be one is kept as a candidate, and its mark of a key is put in front
of it later. A key stands on one line with its colon, and not too far before it.

Anchors, tags, directives and block scalars are not read.
-/

namespace Curly.Yaml

/-- A part of a data file. -/
inductive Mark where
  /-- The marker at the beginning of a document. -/
  | document
  /-- The marker at the end of a document. -/
  | documentEnd
  | openBlockList
  | openBlockMap
  | closeBlock
  /-- The dash before an item. -/
  | entry
  | key
  | value
  | openList
  | closeList
  | openMap
  | closeMap
  | comma
  | plain (text : String)
  | quoted (text : String)
deriving DecidableEq, Repr

/-- An open bracket. -/
inductive Bracket where
  | list
  | map
deriving DecidableEq, Repr

/-- What may turn out to be a key. -/
structure Candidate where
  /-- The brackets that are open around it. -/
  depth : Nat
  /-- The marks before it. -/
  number : Nat
  place : Cursor
  /-- Whether there is no other way to read it. -/
  required : Bool
deriving Repr

/-- The farthest that a key reaches before its colon. -/
def keyReach : Nat := 1024

/-- Whether a candidate is too far before a cursor to be a key. -/
def Candidate.isStale (c : Candidate) (k : Cursor) : Bool :=
  c.place.line != k.line || c.place.index + keyReach < k.index

/-- The reading of marks. -/
structure Reading where
  cursor : Cursor
  marks : Array Mark
  /-- The columns of the open block collections, the innermost first. -/
  columns : List Nat
  /-- The open brackets, the innermost first. -/
  brackets : List Bracket
  /-- Whether a key or an item of a block collection may begin. -/
  keyAllowed : Bool
  candidates : List Candidate
deriving Repr

namespace Reading

/-- The beginning of a text. A byte order mark at the very beginning is no part of it. -/
def start (cs : List Char) : Reading :=
  let cursor : Cursor := ⟨cs, 0, 0, 0⟩
  ⟨if cs.head? = some '\uFEFF' then cursor.next else cursor, #[], [], [], true, []⟩

/-- Whether a bracket is open. -/
def inFlow (r : Reading) : Bool := !r.brackets.isEmpty

/-- One more mark. -/
def emit (mark : Mark) (r : Reading) : Reading := { r with marks := r.marks.push mark }

/-- Moves on by some characters. -/
def skip (n : Nat) (r : Reading) : Reading := { r with cursor := r.cursor.skip n }

/-! ## Candidates -/

/-- Gives up the candidates that are too far away; one that is required must not be. -/
def dropStale? (r : Reading) : Option Reading :=
  let (stale, fresh) := r.candidates.partition fun c => c.isStale r.cursor
  if stale.any Candidate.required then none else some { r with candidates := fresh }

/-- The candidate among the open brackets. -/
def candidate? (r : Reading) : Option Candidate :=
  let depth := r.brackets.length
  r.candidates.find? fun c => c.depth == depth

/-- The reading without that candidate. -/
def withoutCandidate (r : Reading) : Reading :=
  let depth := r.brackets.length
  { r with candidates := r.candidates.filter fun c => c.depth != depth }

/-- Gives up that candidate, unless it is required. -/
def dropCandidate? (r : Reading) : Option Reading :=
  if r.candidate?.any Candidate.required then none else some r.withoutCandidate

/-- Keeps what begins here as a candidate, if a key may begin. -/
def keepCandidate? (r : Reading) : Option Reading :=
  if r.keyAllowed then do
    let required := !r.inFlow && r.columns.head? == some r.cursor.column
    let r ← r.dropCandidate?
    let c : Candidate := ⟨r.brackets.length, r.marks.size, r.cursor, required⟩
    return { r with candidates := c :: r.candidates }
  else some r

/-! ## Block collections -/

/-- Ends the block collections whose columns are not wanted. Inside brackets none ends. -/
def closeBlocks (ends : Nat → Bool) (r : Reading) : Reading :=
  if r.inFlow then r
  else
    let closed := r.columns.takeWhile ends
    { r with
      columns := r.columns.drop closed.length
      marks := closed.foldl (fun marks _ => marks.push .closeBlock) r.marks }

/-- Begins a block collection at a column, unless there is one, in front of the mark of a number.
Inside brackets none begins. -/
def openBlock (mark : Mark) (column number : Nat) (r : Reading) : Reading :=
  if !r.inFlow && r.columns.head?.all (· < column) then
    { r with columns := column :: r.columns, marks := r.marks.insertIdxIfInBounds number mark }
  else r

/-! ## Marks -/

/-- Reads a bracket that opens. -/
def bracket? (b : Bracket) (r : Reading) : Option Reading := do
  let r ← r.keepCandidate?
  let r := { r with brackets := b :: r.brackets, keyAllowed := true }
  return (r.emit (match b with | .list => .openList | .map => .openMap)).skip 1

/-- Reads a bracket that closes. -/
def unbracket? (mark : Mark) (r : Reading) : Option Reading := do
  let r ← r.dropCandidate?
  return ({ r with brackets := r.brackets.drop 1, keyAllowed := false }.emit mark).skip 1

/-- Reads a comma. -/
def comma? (r : Reading) : Option Reading := do
  let r ← r.dropCandidate?
  return ({ r with keyAllowed := true }.emit .comma).skip 1

/-- Reads the dash of an item or the mark of a key, which may begin a block collection. -/
def part? (mark begin : Mark) (keyAllowed : Bool) (r : Reading) : Option Reading := do
  guard (r.inFlow ∨ r.keyAllowed)
  let r := r.openBlock begin r.cursor.column r.marks.size
  let r ← r.dropCandidate?
  return ({ r with keyAllowed }.emit mark).skip 1

/-- Reads a colon that marks a value. If there is a candidate, it is the key. -/
def value? (r : Reading) : Option Reading :=
  match r.candidate? with
  | none => r.part? .value .openBlockMap (!r.inFlow)
  | some c =>
    let r := { r.withoutCandidate with
      marks := r.marks.insertIdxIfInBounds c.number .key, keyAllowed := false }
    some (((r.openBlock .openBlockMap c.place.column c.number).emit .value).skip 1)

/-- Reads the marker of the beginning or the end of a document. -/
def marker? (mark : Mark) (r : Reading) : Option Reading := do
  let r ← (r.closeBlocks fun _ => true).dropCandidate?
  return ({ r with keyAllowed := false }.emit mark).skip 3

/-- Reads a quoted scalar, whose opening quote stands in front of a text. -/
def quoted? (quote : Char) (fuel : Nat) (rest : List Char) (r : Reading) : Option Reading := do
  let r ← r.keepCandidate?
  let (text, length) ← Yaml.quoted? quote fuel rest
  return ({ r with keyAllowed := false }.emit (.quoted text)).skip (length + 1)

/-- Reads a plain scalar. After a line end a key may begin again. -/
def plain? (fuel : Nat) (r : Reading) : Option Reading := do
  let r ← r.keepCandidate?
  let run := plainRun r.inFlow (r.columns.head?.elim 0 (· + 1)) fuel r.cursor
  return { r.emit (.plain (String.ofList run.text)) with
    cursor := run.after, keyAllowed := run.ended }

/-- Whether a colon in front of a text marks a value. It does before a gap; directly inside the
brackets of a mapping it always does, unless one was marked just before and what was read there
waits for a candidate. -/
def marksValue (r : Reading) (waiting : Bool) (rest : List Char) : Bool :=
  atGap rest ||
    (r.brackets.head? == some .map && !(waiting && r.marks.back? == some .value))

/-- Reads the mark that begins with a character in front of a text, which has fewer characters than
steps are given. -/
def mark? (r : Reading) (fuel : Nat) (waiting : Bool) (c : Char) (rest : List Char) :
    Option Reading :=
  if r.cursor.column = 0 ∧ atMarker (c :: rest) then
    r.marker? (if c = '-' then .document else .documentEnd)
  else if c = '[' then r.bracket? .list
  else if c = '\x7b' then r.bracket? .map
  else if c = ']' then r.unbracket? .closeList
  else if c = '\x7d' then r.unbracket? .closeMap
  else if c = ',' then r.comma?
  else if c = '-' ∧ atGap rest then r.part? .entry .openBlockList true
  else if c = '?' ∧ (r.inFlow ∨ atGap rest) then r.part? .key .openBlockMap (!r.inFlow)
  else if c = ':' ∧ r.marksValue waiting rest then r.value?
  else if c = '\'' ∨ c = '"' then r.quoted? c fuel rest
  else if startsPlain r.inFlow c rest then r.plain? fuel
  else none

/-- Moves on to the next mark. The end of a line lets a key begin, except inside brackets. -/
def toMark (r : Reading) : Reading :=
  let (length, ended) := gapLength r.inFlow false r.cursor.rest
  { r with
    cursor := r.cursor.skip length
    keyAllowed := r.keyAllowed || (ended && !r.inFlow) }

/-- Reads the marks up to the end of the text, which has fewer characters than steps are given. -/
def toEnd? : Nat → Reading → Option (Array Mark)
  | 0, _ => none
  | fuel + 1, r => do
    let r ← r.dropStale?
    let waiting := !r.candidates.isEmpty
    let r ← r.toMark.dropStale?
    match r.cursor.rest with
    | [] => return (← (r.closeBlocks fun _ => true).dropCandidate?).marks
    | c :: rest =>
      let column := r.cursor.column
      toEnd? fuel (← (r.closeBlocks (column < ·)).mark? (fuel + 1) waiting c rest)

end Reading

/-- The marks of a text. -/
def marks? (cs : List Char) : Option (List Mark) :=
  if cs.all isAllowed then
    ((Reading.start cs).toEnd? (cs.length + 1)).map Array.toList
  else none

end Curly.Yaml
