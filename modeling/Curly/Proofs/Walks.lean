import Curly.Proofs.Trees
import Curly.Rendering.Wrapping

/-!
# Two walks over a tree

A rendering that waits for its source and one that does not are two programs: each goes over the tree
by itself, embeds templates by itself, and finds and wraps pages by itself. They walk alike
(`Tree.renderWaiting_eq_render`), so both are described by one equation for each step of the work, in
which the mode is left open (`Engine.embed_succ`, `Engine.fragments_eq`, `Engine.renderNamed_eq`,
`Engine.renderWrapped_eq`). They part in two places only: one asks a source that makes others wait and
the other refuses it (`Engine.embedded_eq`, `Engine.named_eq`), and one tells about its layouts and
the other does not (`Engine.wrap_cons`). What is said of renderings is proved from these equations,
once for both.
-/

namespace Curly

/-! ## Trees -/

section Walks

variable (embed : Scope → String → Run (List Fragment))

mutual

/-- A node puts out the same whether it is waited for or not, if what it embeds does. -/
theorem Node.renderWaiting_eq_render :
    (n : Node) → (s : Scope) → n.renderWaiting embed s = n.render embed s
  | .text _, _ | .value _, _ | .html _, _ | .json _, _ | .embed _, _ | .bare, _ => by
    rw [Node.renderWaiting, Node.render]
  | .cond _ _ body none, s => by
    rw [Node.renderWaiting, Node.render, Tree.renderWaiting_eq_render body s]
  | .cond _ _ body (some other), s => by
    rw [Node.renderWaiting, Node.render, Tree.renderWaiting_eq_render body s]
    simp only [Tree.renderWaiting_eq_render other s]
  | .each _ item index body, s => by
    have hbody : ∀ k v, Tree.renderWaiting embed (s.push (loopBindings item index k v)) body =
        Tree.render embed (s.push (loopBindings item index k v)) body :=
      fun k v => Tree.renderWaiting_eq_render body _
    rw [Node.renderWaiting, Node.render]
    simp only [hbody]

/-- A tree puts out the same whether it is waited for or not, if what it embeds does. -/
theorem Tree.renderWaiting_eq_render :
    (t : List Node) → (s : Scope) → Tree.renderWaiting embed s t = Tree.render embed s t
  | [], s => by rw [Tree.renderWaiting, Tree.render]
  | n :: rest, s => by
    rw [Tree.renderWaiting, Tree.render, Node.renderWaiting_eq_render n s,
      Tree.renderWaiting_eq_render rest s]

end

end Walks

namespace Engine

variable (e : Engine) (mode : Mode)

/-! ## Embedded templates -/

/-- A name is let in, and then its text is asked of the source if the rendering reaches it. -/
theorem embedded_eq (remaining : Nat) (chain : Chain) (name : String) :
    e.embedded mode remaining chain name = (do
      let source ← e.letIn remaining chain name
      if source.reaches mode then do
        let text ← fetch source chain name
        e.compileNamed name text
      else throw (.embedding (.deferred name))) := by
  cases mode with
  | waiting => rfl
  | blocking =>
    rw [embedded, embeddedNow]
    refine bind_congr fun source => ?_
    cases hdelivery : source.delivery <;> simp [Source.reaches, hdelivery]

theorem embed_zero (chain : Chain) (s : Scope) (name : String) :
    e.embed mode 0 chain s name = recover name (do
      let _ ← e.embedded mode 0 chain name
      return []) := by
  cases mode with
  | blocking => rfl
  | waiting => rfl

/-- A template is embedded by rendering its tree one level further down. -/
theorem embed_succ (below : Nat) (chain : Chain) (s : Scope) (name : String) :
    e.embed mode (below + 1) chain s name = recover name (do
      let tree ← e.embedded mode (below + 1) chain name
      Tree.render (e.embed mode below (chain ++ [name])) s tree) := by
  cases mode with
  | blocking => rfl
  | waiting =>
    rw [embed, embedWaiting]
    simp only [Tree.renderWaiting_eq_render]
    rfl

/-! ## Whole pages -/

theorem fragments_eq (template : Compiled) (s : Scope) :
    e.fragments mode template s =
      Tree.render (e.embed mode e.settings.maxDepth.toNat (rootChain template.name)) s
        template.tree := by
  cases mode with
  | blocking => rfl
  | waiting => exact Tree.renderWaiting_eq_render _ _ _

theorem render_eq (template : Compiled) (s : Scope) :
    e.render mode template s = (do return printPage (← e.fragments mode template s)) := by
  cases mode with
  | blocking => rfl
  | waiting => rfl

/-- A template is found by its name in the source, if the rendering reaches it. -/
theorem named_eq (name : String) :
    e.named mode name = (do
      let source ← e.required name
      if source.reaches mode then do
        let text ← fetch source [] name
        return ⟨← e.compileNamed name text, name⟩
      else throw (.deferred name)) := by
  cases mode with
  | waiting => rfl
  | blocking =>
    rw [named, namedNow]
    refine bind_congr fun source => ?_
    cases hdelivery : source.delivery <;> simp [Source.reaches, hdelivery]

theorem renderNamed_eq (name : String) (s : Scope) :
    e.renderNamed mode name s = (do
      let template ← e.named mode name
      e.render mode template s) := by
  cases mode with
  | blocking => rfl
  | waiting => rfl

/-! ## Wrapped pages -/

/-- The notice that a page is put into a layout, which only a rendering that does not wait makes. -/
def noteWrapping (mode : Mode) (view layout : String) : Run Unit :=
  if mode = .blocking then note [.wrapping view layout] else pure ()

theorem wrap_nil (view : String) (s : Scope) (page : String) :
    e.wrap mode view s page [] = return page := by
  cases mode with
  | blocking => rfl
  | waiting => rfl

theorem wrap_cons (view : String) (s : Scope) (page layout : String) (outer : List String) :
    e.wrap mode view s page (layout :: outer) = (do
      noteWrapping mode view layout
      let page ← e.renderNamed mode layout (layoutScope s page)
      e.wrap mode view s page outer) := by
  cases mode with
  | blocking => rfl
  | waiting => rfl

theorem renderWrapped_eq (view : String) (layouts : List String) (data : Option Value)
    (extension : Option Extension) :
    e.renderWrapped mode view layouts data extension = (do
      let s ← MonadExcept.ofExcept (openScope data extension)
      let page ← e.renderNamed mode view s
      e.wrap mode view s page layouts) := by
  cases mode with
  | blocking => rfl
  | waiting => rfl

end Engine

end Curly
