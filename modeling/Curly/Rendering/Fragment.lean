import Curly.Text.Markup

/-!
# Fragments of a page

A rendering puts out fragments. Each tells where its text comes from, so what data may bring into
a page can be said of the page: only `html` fragments carry it as it is.
-/

namespace Curly

/-- A part of a rendered page. -/
inductive Fragment where
  /-- Text of a template. -/
  | text (text : String)
  /-- A shown value, escaped. -/
  | value (text : String)
  /-- A value as JSON for a script. -/
  | json (text : String)
  /-- A shown value as it is. -/
  | html (text : String)
  /-- In the place of a template that could not be embedded. -/
  | marker (name : String)
deriving DecidableEq, Repr

/-- The comment that stands in the place of a template that could not be embedded. Dashes in
pairs are left out of the name, so that it does not end the comment. -/
def failureMarker (name : String) : String :=
  "<!-- Error loading component: " ++ String.ofList (Text.dropDashes name.toList) ++ " -->"

/-- The text of a fragment. -/
def Fragment.print : Fragment → String
  | text t | value t | json t | html t => t
  | marker name => failureMarker name

/-- The text of a page. -/
def printPage (fragments : List Fragment) : String := String.join (fragments.map Fragment.print)

end Curly
