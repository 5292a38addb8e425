/-!
# Notices

What a rendering reports while it goes on: a notice is one thing that happened, and has a level
and a wording. A notice at `warning` or above tells of something that was left out of the output.
-/

namespace Curly

/-- How much a notice matters. -/
inductive Level where
  | debug
  | info
  | warning
  | error
  | critical
deriving DecidableEq, Repr

namespace Level

/-- The rank of a level; a reporter that is set to a level passes on what ranks no lower. -/
def rank : Level → Nat
  | debug => 10
  | info => 20
  | warning => 30
  | error => 40
  | critical => 50

/-- The name of a level. -/
def name : Level → String
  | debug => "DEBUG"
  | info => "INFO"
  | warning => "WARNING"
  | error => "ERROR"
  | critical => "CRITICAL"

/-- The levels in the order of their names. -/
def all : List Level := [critical, debug, error, info, warning]

/-- The level of a name. -/
def ofName? (name : String) : Option Level := all.find? fun level => level.name == name

end Level

/-- Something that happened while templates were read or rendered. -/
inductive Notice where
  /-- A template was compiled, to so many nodes at its top. -/
  | compiled (name : String) (nodes : Nat)
  /-- A compiled template was put into the cache. -/
  | stored (name : String)
  /-- The text of a template is read from a file. -/
  | reading (name path : String)
  /-- A page is put into a layout. -/
  | wrapping (view layout : String)
  /-- A condition outside the grammar was taken as false. -/
  | invalidCondition (text reason : String)
  /-- A loop was left out: its collection has no value. -/
  | undefinedCollection (path : String)
  /-- A loop was left out: its collection is no list. -/
  | notACollection (path typeName : String)
  /-- A value that JSON cannot write was written as null. -/
  | notJson (path reason : String)
  /-- A node of no known kind was left out. -/
  | bareNode
  /-- The name of a template leads out of the directory of templates. -/
  | outsideRoot (name : String)
  /-- A template could not be embedded; a marker stands in its place. -/
  | embedFailed (name reason : String)
deriving DecidableEq, Repr

namespace Notice

/-- How much a notice matters. -/
def level : Notice → Level
  | compiled .. | stored _ | reading .. | wrapping .. => .debug
  | embedFailed .. => .error
  | _ => .warning

/-- The wording of a notice. -/
def text : Notice → String
  | compiled name nodes =>
    "Compiled template '" ++ name ++ "' -> " ++ toString nodes ++ " root nodes"
  | stored name => "Cached compiled template '" ++ name ++ "'"
  | reading name path => "Loading template '" ++ name ++ "' from " ++ path
  | wrapping view layout => "Wrapping '" ++ view ++ "' with layout '" ++ layout ++ "'"
  | invalidCondition text reason =>
    "Invalid condition '" ++ text ++ "' treated as false: " ++ reason
  | undefinedCollection path =>
    "\x7b#each\x7d collection '" ++ path ++ "' is not defined; block skipped"
  | notACollection path typeName =>
    "\x7b#each\x7d collection '" ++ path ++ "' is not a list (got " ++ typeName ++
      "); block skipped"
  | notJson path reason => "Cannot serialize '" ++ path ++ "' to JSON, rendering null: " ++ reason
  | bareNode => "No renderer for node type: TemplateNode"
  | outsideRoot name => "Template path escapes templates root: " ++ name
  | embedFailed name reason => "Error loading component " ++ name ++ ": " ++ reason

end Notice

end Curly
