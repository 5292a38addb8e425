import Curly.CommandLine.Word

/-!
# Requests

What a command line asks for: to render a template or to check several, with options, or one of
the texts about the program. Options may stand before, between and after the operands, but the
operands of a command stand together. The first request for help counts, whatever is wrong
after it; what is wrong before it counts first.
-/

namespace Curly.CommandLine

/-- What a flag is for. -/
inductive Purpose where
  | help
  | version
  | verbose
  | config
  | directory
  | data
  | layout
deriving DecidableEq, Repr

/-- The commands. -/
inductive Command where
  | render
  | check
deriving DecidableEq, Repr

/-- The value of an option. The separator written to a flag as its value counts as none. -/
inductive OptionValue where
  | text (text : String)
  | none
deriving DecidableEq, Repr

/-- The value that is written to a flag. -/
def OptionValue.ofText (text : String) : OptionValue := if text = "--" then .none else .text text

/-- The options of a command line as they are set. -/
structure Options where
  config : OptionValue := .text "templatron.yaml"
  directory : Option OptionValue := none
  data : Option OptionValue := none
  layouts : List OptionValue := []
  verbose : Nat := 0
deriving DecidableEq, Repr

/-- What a command line asks for. -/
inductive Request where
  | render (template : String) (options : Options)
  | check (templates : List String) (options : Options)
deriving DecidableEq, Repr

/-- Why a command line asks for no work. -/
inductive Stop where
  /-- It asks for help. -/
  | help
  /-- It asks for the version. -/
  | version
  /-- It asks for nothing there is. -/
  | misuse
deriving DecidableEq, Repr

/-- The flag for help, which every command knows. -/
def helpFlag : Flag Purpose := ⟨["-h", "--help"], false, .help⟩

/-- The flags before a command. -/
def topFlags : List (Flag Purpose) := [helpFlag, ⟨["-V", "--version"], false, .version⟩]

/-- The flags of a command. -/
def Command.flags (c : Command) : List (Flag Purpose) :=
  [helpFlag, ⟨["--config"], true, .config⟩, ⟨["--templates-dir"], true, .directory⟩,
    ⟨["-v", "--verbose"], false, .verbose⟩] ++
  match c with
  | render => [⟨["--data"], true, .data⟩, ⟨["--layout"], true, .layout⟩]
  | check => []

/-- The command of a name. -/
def Command.ofName? : String → Option Command
  | "render" => some render
  | "check" => some check
  | _ => none

/-- The operands that a run of words before the next option gives a command, and the words left
over: a command to render takes one, a command to check all. Nothing if there is no operand. -/
def Command.operands? {α : Type} (c : Command) (run : List (Word α)) :
    Option (List String × List (Word α)) :=
  let rest := run.dropWhile fun | .separator => true | _ => false
  match c, rest with
  | _, [] => none
  | .render, .operand text :: rest => some ([text], rest.dropWhile fun | .separator => true | _ => false)
  | .render, _ => none
  | .check, rest => some (rest.filterMap fun | .operand text => some text | _ => none, [])

/-- What has been read of a command's words. -/
structure Progress where
  options : Options
  operands : Option (List String)
  /-- Whether there was a word that the command has no use for. -/
  surplus : Bool

/-- Carries out a flag. -/
def Purpose.apply (options : Options) (value : OptionValue) : Purpose → Except Stop Options
  | help => .error .help
  | version => .error .version
  | verbose => .ok { options with verbose := options.verbose + 1 }
  | config => .ok { options with config := value }
  | directory => .ok { options with directory := some value }
  | data => .ok { options with data := some value }
  | layout => .ok { options with layouts := options.layouts ++ [value] }

/-- Whether a word is an operand or the separator. -/
def Word.isOperand {α : Type} : Word α → Bool
  | operand _ | separator => true
  | _ => false

/-- Carries out uses of flags in order, in front of the words that follow them; a flag that takes a
value and has none written to it takes the next word, which must be an operand. -/
def applyFlags (options : Options) :
    List (Use Purpose) → List (Word Purpose) → Except Stop (Options × List (Word Purpose))
  | [], rest => .ok (options, rest)
  | (flag, some value) :: uses, rest => do
    let value := OptionValue.ofText (String.ofList value)
    applyFlags (← flag.purpose.apply options value) uses rest
  | (flag, none) :: uses, rest =>
    if flag.takesValue then match rest with
      | .operand text :: rest => do
        applyFlags (← flag.purpose.apply options (.text text)) uses rest
      | _ => .error .misuse
    else do applyFlags (← flag.purpose.apply options .none) uses rest

/-- Reads the words of a command. The operands are taken from the first run of them. -/
def readWords (c : Command) : Nat → Progress → List (Word Purpose) → Except Stop Progress
  | 0, _, _ => .error .misuse
  | _, p, [] => .ok p
  | fuel + 1, p, word :: rest => match word with
    | .unknown _ => readWords c fuel { p with surplus := true } rest
    | .option flag attached => match expand? c.flags flag attached with
      | none => .error .misuse
      | some uses => do
        let (options, rest) ← applyFlags p.options uses rest
        readWords c fuel { p with options } rest
    | _ =>
      let run := (word :: rest).takeWhile Word.isOperand
      let after := (word :: rest).dropWhile Word.isOperand
      match p.operands, c.operands? run with
      | none, some (operands, left) =>
        readWords c fuel
          { p with operands := some operands, surplus := p.surplus || !left.isEmpty } after
      | _, _ => readWords c fuel { p with surplus := true } after

/-- Reads the words after the name of a command. -/
def Command.read (c : Command) (words : List String) : Except Stop (Request × Bool) :=
  match classifyAll? c.flags words with
  | none => .error .misuse
  | some words => do
    let p ← readWords c (words.length + 1) ⟨{}, none, false⟩ words
    match c, p.operands with
    | .render, some (template :: _) => return (.render template p.options, p.surplus)
    | .check, some templates => return (.check templates p.options, p.surplus)
    | _, _ => .error .misuse

/-- Reads the words before a command and then the command; `surplus` tells whether there was a
word so far that there is no use for. -/
def readTop (surplus : Bool) : List (Word Purpose) → List String → Except Stop Request
  | .unknown _ :: words, _ :: texts => readTop true words texts
  | .option flag attached :: words, _ :: texts => match expand? topFlags flag attached with
    | none => .error .misuse
    | some uses => do
      let _ ← applyFlags {} uses []
      readTop surplus words texts
  | .operand name :: _, _ :: texts => match Command.ofName? name with
    | none => .error .misuse
    | some c => do
      let (request, more) ← c.read texts
      if surplus || more then .error .misuse else .ok request
  | _, _ => .error .misuse

/-- Reads a command line. -/
def read (texts : List String) : Except Stop Request :=
  match classifyAll? topFlags texts with
  | none => .error .misuse
  | some words => readTop false words texts

end Curly.CommandLine
