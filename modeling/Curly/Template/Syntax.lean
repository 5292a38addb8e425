import Curly.Template.Token
import Curly.Template.Tree

/-!
# From tokens to trees

`compile` reads a text as a template. Its blocks must be closed in the order opposite to that of
their opening, and an `else` stands at most once in an `if` block, directly in it. The first token
that breaks the rule is the one blamed; if the text merely ends inside blocks, the outermost is.

Text of blanks without a line feed that stands between two tags that give the template its shape is
a gap, and is dropped (`dropGaps`) unless the template is compiled with all its text.
-/

namespace Curly

/-! ## Faults -/

/-- Why a text is no template. -/
inductive TemplateFault where
  /-- An `else` that does not stand directly in an `if` block. -/
  | strayElse
  /-- A second `else` in an `if` block, given by its tag and that tag's place. -/
  | repeatedElse (opening : String) (opened : Location)
  /-- A closing tag outside all blocks. -/
  | strayClose (kind : BlockKind)
  /-- A closing tag for another kind than that of the innermost block. -/
  | mismatch (kind innermost : BlockKind) (opened : Location)
  /-- Blocks that are open at the end, from the outermost to the innermost. -/
  | unclosed (kinds : List BlockKind)
deriving DecidableEq, Repr

/-- The line and the column of a place. -/
def Location.describe (l : Location) : String := toString l.line ++ ":" ++ toString l.column

/-- The wording of a fault, without the place and the template. -/
def TemplateFault.message : TemplateFault → String
  | strayElse => "'\x7b:else\x7d' found without a preceding '\x7b#if\x7d' block"
  | repeatedElse opening opened =>
    "Duplicate '\x7b:else\x7d' in '" ++ opening ++ "' block (opened at " ++ opened.describe ++ ")"
  | strayClose kind =>
    "'\x7b/" ++ kind.word ++ "\x7d' found without a matching '\x7b#" ++ kind.word ++ "\x7d' block"
  | mismatch kind innermost opened =>
    "'\x7b/" ++ kind.word ++ "\x7d' does not match the open '\x7b#" ++ innermost.word ++
      "\x7d' block (opened at " ++ opened.describe ++ ")"
  | unclosed kinds => "Unclosed blocks remaining: " ++ ", ".intercalate (kinds.map BlockKind.word)

/-- A fault, the place of the token to blame, and the name of the template. -/
structure TemplateError where
  fault : TemplateFault
  location : Location
  template : String
deriving DecidableEq, Repr

/-- A message with a place, unless the line is zero, and a template, unless it has no name. -/
def located (message : String) (line column : Int) (template : String) : String :=
  message ++ (if line = 0 then "" else " at " ++ toString line ++ ":" ++ toString column) ++
    (if template = "" then "" else " in '" ++ template ++ "'")

/-- The wording of an error. -/
def TemplateError.message (e : TemplateError) : String :=
  located e.fault.message e.location.line e.location.column e.template

/-! ## Gaps -/

/-- Text of blanks without a line feed. -/
def Token.isBlankText (t : Token) : Bool :=
  t.form == .text && Text.allBlank t.source.toList && !t.source.toList.contains '\n'

/-- The tokens without the blank texts between two boundaries, where `before` tells whether the
token before them is a boundary. -/
def dropGaps (before : Bool) : List Token → List Token
  | [] => []
  | t :: rest =>
    let kept := dropGaps t.isBoundary rest
    if before && t.isBlankText && rest.head?.any Token.isBoundary then kept else t :: kept

/-! ## Blocks -/

/-- The opening of a block, as its tag gives it. -/
inductive Opening where
  | cond (condition : String)
  | each (collection item index : String)
deriving DecidableEq, Repr

/-- The kind of block that an opening opens. -/
def Opening.kind : Opening → BlockKind
  | cond _ => .cond
  | each .. => .each

/-- A block that is still open: its tag, and the nodes read so far of its body and, after an
`else`, of its other branch. -/
structure PendingBlock where
  opening : Opening
  source : String
  location : Location
  body : Array Node
  otherwise : Option (Array Node)

namespace PendingBlock

/-- The block that a tag opens. -/
def ofTag (opening : Opening) (t : Token) : PendingBlock := ⟨opening, t.source, t.location, #[], none⟩

/-- The block with one more node, in the branch that is being read. -/
def push (b : PendingBlock) (n : Node) : PendingBlock :=
  match b.otherwise with
  | none => { b with body := b.body.push n }
  | some nodes => { b with otherwise := some (nodes.push n) }

/-- The node of a block that is closed. -/
def node (b : PendingBlock) : Node :=
  match b.opening with
  | .cond condition =>
    .cond condition (Condition.ofText condition) b.body.toList (b.otherwise.map Array.toList)
  | .each collection item index => .each collection item index b.body.toList

end PendingBlock

/-- A template that is being read: the nodes outside all blocks, and the open blocks from the
innermost to the outermost. -/
structure Reading where
  root : Array Node
  blocks : List PendingBlock

namespace Reading

/-- Nothing read yet. -/
def empty : Reading := ⟨#[], []⟩

/-- One more node, in the innermost block. -/
def push (r : Reading) (n : Node) : Reading :=
  match r.blocks with
  | [] => { r with root := r.root.push n }
  | b :: outer => { r with blocks := b.push n :: outer }

/-- One more open block. -/
def beginBlock (r : Reading) (b : PendingBlock) : Reading := { r with blocks := b :: r.blocks }

/-- Begins the other branch of the innermost block. -/
def beginElse (r : Reading) : Except TemplateFault Reading :=
  match r.blocks with
  | [] => .error .strayElse
  | b :: outer =>
    if b.opening.kind ≠ .cond then .error .strayElse
    else if b.otherwise.isSome then .error (.repeatedElse b.source b.location)
    else .ok { r with blocks := { b with otherwise := some #[] } :: outer }

/-- Closes the innermost block, which must be of the kind. -/
def closeBlock (r : Reading) (kind : BlockKind) : Except TemplateFault Reading :=
  match r.blocks with
  | [] => .error (.strayClose kind)
  | b :: outer =>
    if b.opening.kind ≠ kind then .error (.mismatch kind b.opening.kind b.location)
    else .ok (push { r with blocks := outer } b.node)

/-- Reads a tag. -/
def readTag (r : Reading) (t : Token) : Tag → Except TemplateFault Reading
  | .value path => .ok (r.push (.value path))
  | .json path => .ok (r.push (.json path))
  | .html path => .ok (r.push (.html path))
  | .embed name => .ok (r.push (.embed name))
  | .ifOpen condition => .ok (r.beginBlock (.ofTag (.cond condition) t))
  | .eachOpen collection item index => .ok (r.beginBlock (.ofTag (.each collection item index) t))
  | .elseMark => r.beginElse
  | .close kind => r.closeBlock kind

/-- Reads a token. -/
def read (r : Reading) (t : Token) : Except (TemplateFault × Location) Reading :=
  match t.form with
  | .text => .ok (r.push (.text t.source))
  | .tag tag => (r.readTag t tag).mapError fun fault => (fault, t.location)
  | .stop => .ok r

/-- The tree that was read, if no block is open. -/
def finish (r : Reading) : Except (TemplateFault × Location) Tree :=
  match r.blocks.reverse with
  | [] => .ok r.root.toList
  | outermost :: inner =>
    .error (.unclosed ((outermost :: inner).map fun b => b.opening.kind), outermost.location)

end Reading

/-- The tree of a sequence of tokens. -/
def build (tokens : List Token) : Except (TemplateFault × Location) Tree :=
  tokens.foldlM Reading.read Reading.empty >>= Reading.finish

/-- The tree of a template's text, where `trim` tells whether gaps are dropped. -/
def compile (text name : String) (trim : Bool) : Except TemplateError Tree :=
  let tokens := Token.ofText text
  (build (if trim then dropGaps false tokens else tokens)).mapError
    fun (fault, location) => ⟨fault, location, name⟩

end Curly
