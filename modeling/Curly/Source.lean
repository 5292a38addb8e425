import Curly.Failure
import Curly.Notice

/-!
# Sources of templates

A source gives the text of a template by its name. It delivers either at once or only to those
who wait for it; a rendering waits (`Mode.waiting`) or does not (`Mode.blocking`), and one that does
not gets nothing from a source of the second kind, which then is not even asked. To wait takes no step
of its own: nothing else happens meanwhile.
-/

namespace Curly

/-- When a source delivers. -/
inductive Delivery where
  | immediate
  | deferred
deriving DecidableEq, Repr

/-- Whether a rendering waits for its source. -/
inductive Mode where
  | blocking
  | waiting
deriving DecidableEq, Repr

/-- A source of templates: what it reports and gives for a name. -/
structure Source where
  delivery : Delivery
  fetch : String → List Notice × Except Failure String

namespace Source

/-- A source that only looks names up. -/
def ofFunction (delivery : Delivery) (find : String → Except Failure String) : Source :=
  ⟨delivery, fun name => ([], find name)⟩

/-- The source of a table of names and texts; of two texts under a name the first counts. -/
def ofTable (templates : List (String × String)) : Source :=
  ofFunction .immediate fun name => match templates.lookup name with
    | some text => .ok text
    | none => .error (.notFound name none)

/-- Whether a rendering in a mode gets anything from the source. -/
def reaches (s : Source) : Mode → Bool
  | .waiting => true
  | .blocking => s.delivery == .immediate

end Source

end Curly
