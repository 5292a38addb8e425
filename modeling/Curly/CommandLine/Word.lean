import Curly.Text.Digit

/-!
# Words of a command line

A command line is a list of words. Which of them are options depends on the flags that a command
knows: `classify` tells options, operands and the separator `--` apart, after which all words are
operands. A long option may be cut short as long as one flag only begins with it, and may carry
its value after an equals sign; one-letter options may be written together. A negative number is an
operand.
-/

namespace Curly.CommandLine

/-- A flag that a command knows: its spellings, whether it takes a value, and what it is for. -/
structure Flag (α : Type) where
  spellings : List String
  takesValue : Bool
  purpose : α

/-- What is written to a flag in its own word. -/
inductive Attached where
  | nothing
  /-- After the letter of the flag, directly or after an equals sign. -/
  | letters (cs : List Char)
  /-- After the name of the flag and an equals sign. -/
  | value (cs : List Char)
deriving DecidableEq, Repr

/-- What a word of a command line is. -/
inductive Word (α : Type) where
  | operand (text : String)
  | separator
  | option (flag : Flag α) (attached : Attached)
  /-- What looks like an option and is none that the command knows. -/
  | unknown (text : String)

/-- The flags by their spellings of a kind; a flag with several such spellings comes several
times. -/
def withSpelling {α : Type} (flags : List (Flag α)) (p : List Char → Bool) : List (Flag α) :=
  flags.flatMap fun f => (f.spellings.filter fun s => p s.toList).map fun _ => f

/-- The flag with exactly this spelling. -/
def spelled? {α : Type} (flags : List (Flag α)) (spelling : List Char) : Option (Flag α) :=
  (withSpelling flags (· == spelling)).head?

/-- A text before its first equals sign, and what is after it if there is one. -/
def splitEquals (cs : List Char) : List Char × Option (List Char) :=
  match cs.dropWhile (· ≠ '=') with
  | _ :: value => (cs.takeWhile (· ≠ '='), some value)
  | [] => (cs, none)

/-- Whether a text is spelled like a long option. -/
def isLong : List Char → Bool
  | '-' :: '-' :: _ => true
  | _ => false

/-- What stands after an equals sign behind a spelling. -/
def attach (spelling : List Char) : Option (List Char) → Attached
  | none => .nothing
  | some value => if isLong spelling then .value value else .letters value

/-- The flags that a word may stand for without being one of their spellings: it may be the
beginning of a long spelling, with or without a value, or a letter with more letters after it. -/
def readings {α : Type} (flags : List (Flag α)) (cs : List Char) : List (Flag α × Attached) :=
  if isLong cs then
    let (beginning, value) := splitEquals cs
    (withSpelling flags beginning.isPrefixOf).map (·, attach cs value)
  else (withSpelling flags (· == cs.take 2)).map (·, .letters (cs.drop 2))

/-- Whether a word is a negative number, in the digits of any script: a whole one, or one with a
point and digits after it. A line feed may end it. -/
def isNegativeNumber (cs : List Char) : Bool :=
  match cs with
  | '-' :: cs =>
    let cs := if cs.getLast? = some '\n' then cs.dropLast else cs
    match cs.dropWhile Text.isDecimal with
    | [] => cs ≠ []
    | '.' :: fraction => fraction ≠ [] && fraction.all Text.isDecimal
    | _ => false
  | _ => false

/-- What a word before the separator is; nothing if it may stand for several flags. -/
def classify? {α : Type} (flags : List (Flag α)) (text : String) : Option (Word α) :=
  let cs := text.toList
  if cs.head? ≠ some '-' ∨ cs.length = 1 then some (.operand text)
  else match spelled? flags cs with
    | some flag => some (.option flag .nothing)
    | none =>
      let (spelling, value) := splitEquals cs
      match value, spelled? flags spelling with
      | some _, some flag => some (.option flag (attach spelling value))
      | _, _ => match readings flags cs with
        | [(flag, attached)] => some (.option flag attached)
        | _ :: _ :: _ => none
        | [] =>
          if isNegativeNumber cs || cs.contains ' ' then some (.operand text)
          else some (.unknown text)

/-- What the words of a command line are; nothing if one may stand for several flags. -/
def classifyAll? {α : Type} (flags : List (Flag α)) : List String → Option (List (Word α))
  | [] => some []
  | "--" :: rest => some (.separator :: rest.map .operand)
  | text :: rest => do
    let word ← classify? flags text
    return word :: (← classifyAll? flags rest)

/-- A flag and the value written to it. -/
abbrev Use (α : Type) := Flag α × Option (List Char)

/-- The uses of flags in letters written after a flag: each is one of its own, until one takes the
rest as its value. Nothing if one is no flag. -/
def expandLetters? {α : Type} (flags : List (Flag α)) (flag : Flag α) :
    List Char → Option (List (Use α))
  | [] => some [(flag, none)]
  | c :: rest =>
    if flag.takesValue then some [(flag, some (c :: rest))]
    else match spelled? flags ['-', c] with
      | none => none
      | some next => (expandLetters? flags next rest).map ((flag, none) :: ·)

/-- The uses of flags that a flag with something written to it amounts to. Nothing if a value is
given to a flag that takes none. -/
def expand? {α : Type} (flags : List (Flag α)) (flag : Flag α) : Attached → Option (List (Use α))
  | .nothing => some [(flag, none)]
  | .value cs => if flag.takesValue then some [(flag, some cs)] else none
  | .letters cs =>
    if flag.takesValue then some [(flag, some cs)]
    else if cs = [] then none
    else expandLetters? flags flag cs

end Curly.CommandLine
