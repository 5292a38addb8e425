import Curly.CommandLine.Request
import Curly.Config
import Curly.Rendering.Wrapping

/-!
# The program

What the program does for a command line and a disk: it renders a template with its layouts, or
checks that templates can be read. `run` gives what is written and the exit code. Notices go with
the failures to the second output, from the level on that the configuration or the command line
sets; before the configuration is read there are none. Of work that breaks off only its failure is
kept, not what was written before.
-/

namespace Curly.CommandLine

/-- The name of the program, and its version. -/
def programVersion : String := "templatron 0.3.0"

/-- How the program is used. -/
def usage : String :=
  "usage: templatron [-h] [-V] COMMAND ...\n\n" ++
  "  render TEMPLATE [--data FILE] [--layout NAME]...   render a template\n" ++
  "  check TEMPLATE...                                  check that templates can be read\n\n" ++
  "options of both commands:\n" ++
  "  --config FILE          the configuration (templatron.yaml)\n" ++
  "  --templates-dir DIR    where the templates are\n" ++
  "  -v, --verbose          show more notices; twice, all\n"

/-- Why the program could not do its work. -/
inductive ProgramFailure where
  | config (fault : ConfigFault)
  /-- An option that needs a value has none. -/
  | noValue (purpose : Purpose)
  | noDataFile (path : String)
  /-- It cannot be told whether there is a file at a path. -/
  | noAccess (path : String) (fault : AccessFault)
  | template (failure : Failure)
deriving DecidableEq, Repr

namespace ProgramFailure

/-- The wording of a failure. -/
def message : ProgramFailure → String
  | config fault => fault.message
  | noValue .config => "'list' object has no attribute 'exists'"
  | noValue .data => "'list' object has no attribute 'is_file'"
  | noValue .layout => "'list' object has no attribute 'lstrip'"
  | noValue _ => "expected str, bytes or os.PathLike object, not list"
  | noDataFile path => "Data file not found: " ++ path
  | noAccess path fault => fault.message path
  | template failure => failure.message

/-- Whether the program reports the failure in its own words; it breaks off at any other. -/
def isExpected : ProgramFailure → Bool
  | config fault => fault.isExpected
  | noValue _ | noAccess .. => false
  | noDataFile _ => true
  | template failure => failure.isExpected

end ProgramFailure

/-- What the program leaves behind. -/
inductive Outcome where
  /-- The work ended with an exit code. -/
  | finished (code : Nat) (output errors : String)
  /-- The work broke off. -/
  | brokeOff (failure : ProgramFailure)
  /-- No work was asked for. -/
  | stopped (stop : Stop)
deriving DecidableEq, Repr

/-- The level from which on notices are shown. -/
def shownLevel (c : Config) (verbose : Nat) : Level :=
  if 2 ≤ verbose then .debug else if verbose = 1 then .info else c.logLevel

/-- The lines of the notices from a level on. -/
def noticeLines (level : Level) (notices : List Notice) : String :=
  String.join ((notices.filter fun n => level.rank ≤ n.level.rank).map fun n =>
    "[" ++ n.level.name ++ "] " ++ n.text ++ "\n")

/-- The line of a failure. -/
def failureLine (failure : ProgramFailure) : String :=
  String.ofList (Text.trimEnd failure.message.toList) ++ "\n"

/-- The value of an option for a purpose. -/
def OptionValue.get (purpose : Purpose) : OptionValue → Except ProgramFailure String
  | .text s => .ok s
  | .none => .error (.noValue purpose)

/-- The configuration that a command line asks for. Its own directory is looked at after the
configuration is read. -/
def configuration (d : Disk) (o : Options) (parse : Yaml.Reader := Yaml.read) :
    Except ProgramFailure Config := do
  let path := FilePath.ofText (← o.config.get .config)
  let c ← (Config.ofFile d path parse).mapError .config
  match o.directory with
  | none => return c
  | some value => return { c with directory := FilePath.ofText (← value.get .directory) }

/-- The data that a command line asks for. -/
def dataOf (d : Disk) (o : Options) (parse : Yaml.Reader := Yaml.read) :
    Except ProgramFailure Entries :=
  match o.data with
  | none => .ok []
  | some value => do
    let path := FilePath.ofText (← value.get .data)
    match d.isFile path with
    | .ok true => (Config.readMapping d path parse).mapError .config
    | .ok false => .error (.noDataFile path.toText)
    | .error fault => .error (.noAccess path.toText fault)

/-- Checks the templates of some names: a line for each, and how many failed. -/
def checkAll (e : Engine) : List String → Run (List String × Nat)
  | [] => return ([], 0)
  | name :: rest => do
    let fault : Option Failure ←
      tryCatch (do let _ ← e.named .blocking name; return none) fun failure =>
        if failure.isExpected then return some failure else throw failure
    let (lines, failed) ← checkAll e rest
    return match fault with
      | none => ((name ++ ": ok\n") :: lines, failed)
      | some failure => ((name ++ ": " ++ failure.message ++ "\n") :: lines, failed + 1)

/-- The layouts in front of the first one without a name. -/
def namedLayouts (layouts : List OptionValue) : List String :=
  (layouts.takeWhile (· ≠ .none)).filterMap fun
    | .text name => some name
    | .none => none

/-- The work on templates that a request asks for: the output and the exit code. -/
def work (e : Engine) (data : Entries) : Request → Run (String × Nat)
  | .render template options => do
    let layouts := namedLayouts options.layouts
    let page ← e.renderWrapped .blocking template layouts (some (.dict data)) none
    return (page, 0)
  | .check templates _ => do
    let (lines, failed) ← checkAll e templates
    return (String.join lines, if failed = 0 then 0 else 1)

/-- The options of a request. -/
def Request.options : Request → Options
  | render _ options | check _ options => options

/-- The data that a request works on; a check has none. -/
def Request.data (d : Disk) (parse : Yaml.Reader) : Request → Except ProgramFailure Entries
  | render _ options => dataOf d options parse
  | check .. => .ok []

/-- What is left behind by a failure after the notices. -/
def failed (level : Level) (notices : List Notice) (failure : ProgramFailure) : Outcome :=
  if failure.isExpected then .finished 2 "" (noticeLines level notices ++ failureLine failure)
  else .brokeOff failure

/-- Does what a request asks for, with an engine. A layout without a name is missed when its turn
comes. -/
def performWith (e : Engine) (level : Level) (d : Disk) (request : Request)
    (parse : Yaml.Reader := Yaml.read) : Outcome :=
  match request.data d parse with
  | .error failure => failed level [] failure
  | .ok data =>
    match Run.exec (work e data request) (.start (some .empty)) with
    | (.ok (output, code), journal) =>
      if request.options.layouts.contains .none then
        failed level journal.notices (.noValue .layout)
      else .finished code output (noticeLines level journal.notices)
    | (.error failure, journal) => failed level journal.notices (.template failure)

/-- Does what a request asks for: the configuration is read first, and then the data. -/
def perform (d : Disk) (request : Request) (parse : Yaml.Reader := Yaml.read) : Outcome :=
  match configuration d request.options parse with
  | .error failure => failed .warning [] failure
  | .ok c =>
    let level := shownLevel c request.options.verbose
    match c.engine d with
    | .error failure => failed level [] (.template failure)
    | .ok e => performWith e level d request parse

/-- Does what a command line asks for. -/
def run (d : Disk) (arguments : List String) : Outcome :=
  match read arguments with
  | .error stop => .stopped stop
  | .ok request => perform d request

end Curly.CommandLine
