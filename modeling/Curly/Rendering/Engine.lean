import Curly.Rendering.Journal

/-!
# Engines

An engine has a source of templates and settings. It compiles texts (`Engine.compile`) and finds
templates by name (`Engine.named`), through the cache of the journal if there is one.

What waits for the source and what does not are two programs throughout, each with a body of its
own (`namedWaiting`, `namedNow`); the mode chooses between them.
-/

namespace Curly

/-- How templates are compiled and embedded. -/
structure Settings where
  /-- Whether the gaps between boundaries are dropped. -/
  dropGaps : Bool := true
  /-- How many templates may be embedded in one another. -/
  maxDepth : Int := 16
deriving DecidableEq, Repr

/-- A source of templates, unless there is none, and settings. -/
structure Engine where
  source : Option Source
  settings : Settings

/-- A tree with the name of its template, which is empty if it has none. -/
structure Compiled where
  tree : Tree
  name : String

namespace Engine

/-- Compiles a text under a name. -/
def compile (e : Engine) (text name : String) : Run Tree :=
  match Curly.compile text name e.settings.dropGaps with
  | .ok tree => do
    note [.compiled name tree.length]
    return tree
  | .error error => throw (.badTemplate error)

/-- Compiles the text of a named template, or takes its tree from the cache. -/
def compileNamed (e : Engine) (name text : String) : Run Tree := do
  match (← get).cache with
  | none => e.compile text name
  | some cache =>
    let (outcome, cache) :=
      cache.request name text fun text => Curly.compile text name e.settings.dropGaps
    modify fun j => { j with cache := some cache }
    match outcome with
    | .hit tree => return tree
    | .compiled tree =>
      note [.compiled name tree.length, .stored name]
      return tree
    | .failed error => throw (.badTemplate error)

/-- The source to find a template in. -/
def required (e : Engine) (name : String) : Run Source :=
  match e.source with
  | some source => return source
  | none => throw (.noSource name)

/-- The template of a name, from a source that delivers at once. -/
def namedNow (e : Engine) (name : String) : Run Compiled := do
  let source ← e.required name
  match source.delivery with
  | .immediate =>
    let text ← fetch source [] name
    return ⟨← e.compileNamed name text, name⟩
  | .deferred => throw (.deferred name)

/-- The template of a name, for which the source is waited. -/
def namedWaiting (e : Engine) (name : String) : Run Compiled := do
  let source ← e.required name
  let text ← fetch source [] name
  return ⟨← e.compileNamed name text, name⟩

/-- The template of a name. -/
def named (e : Engine) (mode : Mode) (name : String) : Run Compiled :=
  match mode with
  | .blocking => e.namedNow name
  | .waiting => e.namedWaiting name

end Engine

end Curly
