import Curly.Rendering.Engine
import Curly.Rendering.Fragment
import Curly.Value.Shown

/-!
# Pages

A tree is rendered node by node in a scope. `Node.render` says what each node puts out, given a way
to embed templates; `Engine.embed` is that way. It goes by the number of templates that may still
be embedded, so it ends whatever the source gives, and it makes a marker and a notice of every
failure of the template it embeds, so the page around it goes on.

Trees may be nested, and templates embedded, as deep as the settings let them be: a rendering does not
run out of room.

A rendering that waits for its source goes over the tree by itself (`Node.renderWaiting`), embeds by
itself (`Engine.embedWaiting`) and shares with the other what nodes without parts put out, what a
loop goes over, and what lets a name in.
-/

namespace Curly

/-! ## Nodes -/

/-- The text a value is shown as. -/
def showValue (v : Value) : Run String :=
  match v.shown with
  | .ok text => return text
  | .error fault => throw (.notShown fault)

/-- The value of a path in a scope, if it has one. -/
def valueOf (s : Scope) (path : String) : Run (Option Value) :=
  MonadExcept.ofExcept ((s.value path).mapError .badLookup)

/-- Whether a condition holds in a scope. -/
def isMet (s : Scope) (test : Condition) : Run Bool :=
  MonadExcept.ofExcept ((test.holds s).mapError .badLookup)

/-- The value at a path, escaped; nothing if there is no value. -/
def valueFragment (s : Scope) (path : String) : Run (List Fragment) := do
  match ← valueOf s path with
  | none => return []
  | some v => return [.value (Text.escape (← showValue v))]

/-- The value at a path as it is; nothing if there is no value. -/
def htmlFragment (s : Scope) (path : String) : Run (List Fragment) := do
  match ← valueOf s path with
  | none => return []
  | some v => return [.html (← showValue v)]

/-- The JSON of the value at a path, or null, with a notice unless there is no value. -/
def jsonFragment (s : Scope) (path : String) : Run (List Fragment) := do
  match ← valueOf s path with
  | none => return [.json "null"]
  | some v =>
    match Json.scriptSafe v with
    | .ok text => return [.json text]
    | .error fault =>
      note [.notJson path fault.message]
      return [.json "null"]

/-- What a node without a kind puts out: nothing, with a notice. -/
def bareFragment : Run (List Fragment) := do
  note [.bareNode]
  return []

/-- The items that a loop goes over: none, with a notice, if its collection is no list. -/
def loopItems (s : Scope) (collection : String) : Run (List Value) := do
  match ← valueOf s collection with
  | none =>
    note [.undefinedCollection collection]
    return []
  | some v => match v.items? with
    | none =>
      note [.notACollection collection v.typeName]
      return []
    | some items => return items

/-- The bindings of a loop's item and, if it has a name, of its index, which wins over the item
under the same name. -/
def loopBindings (item index : String) (k : Nat) (v : Value) : Bindings :=
  let bindings : Bindings := [(.str item, some v)]
  if index = "" then bindings else bindings.insert (.str index) (some (.int k))

/-- Renders the items of a loop, counted from `k`. -/
def renderItems (body : Nat → Value → Run (List Fragment)) (k : Nat) :
    List Value → Run (List Fragment)
  | [] => return []
  | v :: rest => do
    let first ← body k v
    return first ++ (← renderItems body (k + 1) rest)

mutual

/-- What a node puts out, where `embed` puts out the template of a name. -/
def Node.render (embed : Scope → String → Run (List Fragment)) (s : Scope) :
    Node → Run (List Fragment)
  | .text text => return [.text text]
  | .value path => valueFragment s path
  | .html path => htmlFragment s path
  | .json path => jsonFragment s path
  | .cond _ test body otherwise => do
    note test.notices
    if ← isMet s test then Tree.render embed s body
    else match otherwise with
      | some nodes => Tree.render embed s nodes
      | none => return []
  | .each collection item index body => do
    let items ← loopItems s collection
    renderItems (fun k v => Tree.render embed (s.push (loopBindings item index k v)) body) 0 items
  | .embed name => embed s name
  | .bare => bareFragment

/-- What a tree puts out: what its nodes do, in order. -/
def Tree.render (embed : Scope → String → Run (List Fragment)) (s : Scope) :
    List Node → Run (List Fragment)
  | [] => return []
  | n :: rest => do
    let first ← n.render embed s
    return first ++ (← Tree.render embed s rest)

end

mutual

/-- What a node puts out, where `embed` waits for the template of a name and puts it out. -/
def Node.renderWaiting (embed : Scope → String → Run (List Fragment)) (s : Scope) :
    Node → Run (List Fragment)
  | .text text => return [.text text]
  | .value path => valueFragment s path
  | .html path => htmlFragment s path
  | .json path => jsonFragment s path
  | .cond _ test body otherwise => do
    note test.notices
    if ← isMet s test then Tree.renderWaiting embed s body
    else match otherwise with
      | some nodes => Tree.renderWaiting embed s nodes
      | none => return []
  | .each collection item index body => do
    let items ← loopItems s collection
    renderItems (fun k v => Tree.renderWaiting embed (s.push (loopBindings item index k v)) body) 0 items
  | .embed name => embed s name
  | .bare => bareFragment

/-- What a tree puts out when its nodes are waited for, in order. -/
def Tree.renderWaiting (embed : Scope → String → Run (List Fragment)) (s : Scope) :
    List Node → Run (List Fragment)
  | [] => return []
  | n :: rest => do
    let first ← n.renderWaiting embed s
    return first ++ (← Tree.renderWaiting embed s rest)

end

/-! ## Embedded templates -/

namespace Engine

/-- Lets a name into the templates of a chain, when so many more templates may be embedded in one
another: the source to embed it from. -/
def letIn (e : Engine) (remaining : Nat) (chain : Chain) (name : String) : Run Source :=
  match e.source with
  | none => throw (.embedding (.noSource name))
  | some source =>
    if name ∈ chain then throw (.embedding (.cycle name (chain ++ [name])))
    else if remaining = 0 then
      throw (.embedding (.tooDeep e.settings.maxDepth (chain ++ [name])))
    else return source

/-- The tree to embed under a name, from a source that delivers at once. -/
def embeddedNow (e : Engine) (remaining : Nat) (chain : Chain) (name : String) : Run Tree := do
  let source ← e.letIn remaining chain name
  match source.delivery with
  | .immediate =>
    let text ← fetch source chain name
    e.compileNamed name text
  | .deferred => throw (.embedding (.deferred name))

/-- The tree to embed under a name, for which the source is waited. -/
def embeddedWaiting (e : Engine) (remaining : Nat) (chain : Chain) (name : String) : Run Tree := do
  let source ← e.letIn remaining chain name
  let text ← fetch source chain name
  e.compileNamed name text

/-- The tree to embed under a name inside the templates of a chain, when so many more templates
may be embedded in one another. -/
def embedded (e : Engine) (mode : Mode) (remaining : Nat) (chain : Chain) (name : String) :
    Run Tree :=
  match mode with
  | .blocking => e.embeddedNow remaining chain name
  | .waiting => e.embeddedWaiting remaining chain name

/-- Makes a marker and a notice of a failure. -/
def recover (name : String) (work : Run (List Fragment)) : Run (List Fragment) :=
  tryCatch work fun failure => do
    note [.embedFailed name failure.message]
    return [.marker name]

/-- Embeds the template of a name in a scope. When no more may be embedded, every name is
refused. -/
def embedNow (e : Engine) : Nat → Chain → Scope → String → Run (List Fragment)
  | 0, chain, _, name => recover name do
    let _ ← e.embeddedNow 0 chain name
    return []
  | remaining + 1, chain, s, name => recover name do
    let tree ← e.embeddedNow (remaining + 1) chain name
    Tree.render (e.embedNow remaining (chain ++ [name])) s tree

/-- Waits for the template of a name and embeds it in a scope. When no more may be embedded, every
name is refused. -/
def embedWaiting (e : Engine) : Nat → Chain → Scope → String → Run (List Fragment)
  | 0, chain, _, name => recover name do
    let _ ← e.embeddedWaiting 0 chain name
    return []
  | remaining + 1, chain, s, name => recover name do
    let tree ← e.embeddedWaiting (remaining + 1) chain name
    Tree.renderWaiting (e.embedWaiting remaining (chain ++ [name])) s tree

/-- Embeds the template of a name in a scope. -/
def embed (e : Engine) (mode : Mode) : Nat → Chain → Scope → String → Run (List Fragment) :=
  match mode with
  | .blocking => e.embedNow
  | .waiting => e.embedWaiting

/-! ## Whole pages -/

/-- The name that stands for a template without one. -/
def anonymous : String := "<string>"

/-- The chain at the top of a rendering. -/
def rootChain (name : String) : Chain := [if name = "" then anonymous else name]

/-- The fragments of a template in a scope. -/
def fragmentsNow (e : Engine) (template : Compiled) (s : Scope) : Run (List Fragment) :=
  Tree.render (e.embedNow e.settings.maxDepth.toNat (rootChain template.name)) s template.tree

/-- The fragments of a template in a scope, which are waited for. -/
def fragmentsWaiting (e : Engine) (template : Compiled) (s : Scope) : Run (List Fragment) :=
  Tree.renderWaiting (e.embedWaiting e.settings.maxDepth.toNat (rootChain template.name)) s
    template.tree

/-- The fragments of a template in a scope. -/
def fragments (e : Engine) (mode : Mode) (template : Compiled) (s : Scope) :
    Run (List Fragment) :=
  match mode with
  | .blocking => e.fragmentsNow template s
  | .waiting => e.fragmentsWaiting template s

/-- The page of a template in a scope. -/
def renderNow (e : Engine) (template : Compiled) (s : Scope) : Run String :=
  return printPage (← e.fragmentsNow template s)

/-- The page of a template in a scope, which is waited for. -/
def renderWaiting (e : Engine) (template : Compiled) (s : Scope) : Run String :=
  return printPage (← e.fragmentsWaiting template s)

/-- The page of a template in a scope. -/
def render (e : Engine) (mode : Mode) (template : Compiled) (s : Scope) : Run String :=
  match mode with
  | .blocking => e.renderNow template s
  | .waiting => e.renderWaiting template s

/-- The page of the template of a name in a scope. -/
def renderNamedNow (e : Engine) (name : String) (s : Scope) : Run String := do
  e.renderNow (← e.namedNow name) s

/-- The page of the template of a name in a scope; template and page are waited for. -/
def renderNamedWaiting (e : Engine) (name : String) (s : Scope) : Run String := do
  let template ← e.namedWaiting name
  e.renderWaiting template s

/-- The page of the template of a name in a scope. -/
def renderNamed (e : Engine) (mode : Mode) (name : String) (s : Scope) : Run String :=
  match mode with
  | .blocking => e.renderNamedNow name s
  | .waiting => e.renderNamedWaiting name s

/-- Compiles a text under a name and renders it in a scope. -/
def renderText (e : Engine) (mode : Mode) (text name : String) (s : Scope) : Run String := do
  e.render mode ⟨← e.compile text name, name⟩ s

end Engine

end Curly
