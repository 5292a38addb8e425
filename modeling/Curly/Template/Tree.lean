import Curly.Condition

/-!
# Trees

What a template is compiled to: a list of nodes in the order of the text, the nodes of a block
inside its node. A tree does not depend on data or on other templates, so one tree serves any
number of renderings.
-/

namespace Curly

/-- A node of a template. -/
inductive Node where
  /-- Text that is put out as it is. -/
  | text (text : String)
  /-- The value at a path, escaped. -/
  | value (path : String)
  /-- The value at a path, as JSON for a script. -/
  | json (path : String)
  /-- The value at a path, as it is. -/
  | html (path : String)
  /-- One of two branches; the second may be missing, which is not the same as empty. -/
  | cond (condition : String) (test : Condition) (body : List Node) (otherwise : Option (List Node))
  /-- A body for each item of a collection; without a name for the index the name is empty. -/
  | each (collection item index : String) (body : List Node)
  /-- The template of a name. -/
  | embed (name : String)
  /-- A node without a kind, which no text compiles to. -/
  | bare

/-- A compiled template. -/
abbrev Tree := List Node

end Curly
