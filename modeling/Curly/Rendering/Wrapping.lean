import Curly.Rendering.Page

/-!
# Wrapped pages

A view is rendered first, and then each layout around what the one before it gave, which it finds
under the name `children`. The data may be extended by a function of the data before the view is
rendered; the view and all layouts see the extension.

Only a rendering that does not wait for its source tells about its layouts.
-/

namespace Curly

/-- A function of a scope that gives further bindings. -/
abbrev Extension := Scope → Except Failure Bindings

namespace Extension

/-- Gives the bindings of a value whatever the scope; none if the value counts as false. -/
def ofValue (v : Option Value) : Extension := fun _ =>
  match v with
  | none => .ok []
  | some v =>
    if v.asBool then (v.asEntries.mapError .noMapping).map Bindings.ofEntries else .ok []

/-- Binds names to what paths lead to. -/
def ofPaths (paths : List (String × String)) : Extension := fun s => do
  let bindings ← paths.mapM fun (name, path) => do
    let v ← (s.value path).mapError .badLookup
    return (Key.str name, v)
  return Bindings.overwrite [] bindings

end Extension

/-- The scope of data, with the bindings of an extension over it if it gives any. Data that counts
as false is as good as none; other data is a mapping or holds one. -/
def openScope (data : Option Value) (extension : Option Extension) : Except Failure Scope := do
  let entries ← (Scope.ofGiven data).data.asEntries.mapError .noMapping
  let s := Scope.ofData (.dict entries)
  match extension with
  | none => return s
  | some extend =>
    let bindings ← extend s
    return if bindings.isEmpty then s else s.push bindings

/-- The name under which a layout finds the page it wraps. -/
def wrappedName : String := "children"

/-- The scope of a layout around a page. -/
def layoutScope (s : Scope) (page : String) : Scope :=
  s.push [(.str wrappedName, some (.str page))]

namespace Engine

/-- Wraps a page into layouts, the first one innermost. -/
def wrapNow (e : Engine) (view : String) (s : Scope) (page : String) : List String → Run String
  | [] => return page
  | layout :: outer => do
    note [.wrapping view layout]
    let page ← e.renderNamedNow layout (layoutScope s page)
    e.wrapNow view s page outer

/-- Wraps a page into layouts, the first one innermost; each is waited for. -/
def wrapWaiting (e : Engine) (s : Scope) (page : String) : List String → Run String
  | [] => return page
  | layout :: outer => do
    let page ← e.renderNamedWaiting layout (layoutScope s page)
    e.wrapWaiting s page outer

/-- Wraps a page into layouts, the first one innermost. -/
def wrap (e : Engine) (mode : Mode) (view : String) (s : Scope) (page : String)
    (layouts : List String) : Run String :=
  match mode with
  | .blocking => e.wrapNow view s page layouts
  | .waiting => e.wrapWaiting s page layouts

/-- Renders a view and wraps it into layouts. -/
def renderWrappedNow (e : Engine) (view : String) (layouts : List String) (data : Option Value)
    (extension : Option Extension) : Run String := do
  let s ← MonadExcept.ofExcept (openScope data extension)
  let page ← e.renderNamedNow view s
  e.wrapNow view s page layouts

/-- Renders a view and wraps it into layouts; the view and each layout are waited for. -/
def renderWrappedWaiting (e : Engine) (view : String) (layouts : List String) (data : Option Value)
    (extension : Option Extension) : Run String := do
  let s ← MonadExcept.ofExcept (openScope data extension)
  let page ← e.renderNamedWaiting view s
  e.wrapWaiting s page layouts

/-- Renders a view and wraps it into layouts. -/
def renderWrapped (e : Engine) (mode : Mode) (view : String) (layouts : List String)
    (data : Option Value) (extension : Option Extension) : Run String :=
  match mode with
  | .blocking => e.renderWrappedNow view layouts data extension
  | .waiting => e.renderWrappedWaiting view layouts data extension

end Engine

end Curly
