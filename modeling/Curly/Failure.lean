import Curly.Files.Disk
import Curly.Template.Syntax
import Curly.Value.Json
import Curly.Value.Mapping

/-!
# Failures

Everything that can stop the reading or the rendering of a template, as its cause, and the wording
of each cause. A failure inside an embedded template stops only that template (`Rendering`).
-/

namespace Curly

/-- The names of the templates being rendered inside one another, the outermost first. -/
abbrev Chain := List String

/-- A message about a chain of templates, which it shows unless it is empty. -/
def withChain (message : String) (chain : Chain) : String :=
  if chain = [] then message
  else message ++ " (include chain: " ++ " -> ".intercalate chain ++ ")"

/-- Why a template cannot be embedded. -/
inductive EmbedFault where
  /-- There is no source of templates. -/
  | noSource (name : String)
  /-- The template is being rendered already; the chain ends with it. -/
  | cycle (name : String) (chain : Chain)
  /-- The template lies deeper than the limit; the chain ends with it. -/
  | tooDeep (limit : Int) (chain : Chain)
  /-- The source gives texts only to those who wait for them. -/
  | deferred (name : String)
deriving DecidableEq, Repr

/-- The wording of a fault. -/
def EmbedFault.message : EmbedFault → String
  | noSource name => "No template loader configured to include '" ++ name ++ "'"
  | cycle name chain => withChain ("Include cycle detected for '" ++ name ++ "'") chain
  | tooDeep limit chain =>
    -- a limit with too many digits cannot even be told
    match Numeral.write limit with
    | .ok text => withChain ("Maximum include depth " ++ text ++ " exceeded") chain
    | .error fault => fault.message
  | deferred name => "Loader returned an awaitable for '" ++ name ++ "'; use render_async"

/-- Why a template cannot be read or rendered. -/
inductive Failure where
  /-- The text is no template. -/
  | badTemplate (error : TemplateError)
  /-- There is no template of the name; where it was looked for may be told. -/
  | notFound (name : String) (searched : Option String)
  /-- The template is there and cannot be read. -/
  | unreadable (name reason : String)
  /-- It cannot be told whether there is a template at a path. -/
  | noAccess (path : String) (fault : AccessFault)
  /-- A template cannot be embedded. -/
  | embedding (fault : EmbedFault)
  /-- There is no source of templates. -/
  | noSource (name : String)
  /-- The source gives texts only to those who wait for them. -/
  | deferred (name : String)
  /-- A value cannot be shown. -/
  | notShown (fault : Json.Fault)
  /-- The data cannot be asked for a name. -/
  | badLookup (fault : LookupFault)
  /-- The data, or what extends it, is no mapping. -/
  | noMapping (fault : MappingFault)
  /-- A failure of the source itself, of a kind that only the source knows. -/
  | foreign (kind text : String)
deriving DecidableEq, Repr

namespace Failure

/-- The wording of a failure. -/
def message : Failure → String
  | badTemplate error => error.message
  | notFound name searched =>
    "Template not found: " ++ name ++ match searched with
      | none | some "" => ""
      | some place => " (searched in " ++ place ++ ")"
  | unreadable name reason => "Cannot load template " ++ name ++ ": " ++ reason
  | noAccess path fault => fault.message path
  | embedding fault => fault.message
  | noSource name => "No template loader configured to load '" ++ name ++ "'"
  | deferred name => "Loader returned an awaitable for '" ++ name ++ "'; use get_template_async"
  | notShown fault => fault.message
  | badLookup fault => fault.message
  | noMapping fault => fault.message
  | foreign _ text => text

/-- Whether the author of templates can mend the failure, as opposed to one of the data, of the
source or of the disk. -/
def isExpected : Failure → Bool
  | noAccess .. | notShown _ | badLookup _ | noMapping _ | foreign .. => false
  | _ => true

end Failure

end Curly
