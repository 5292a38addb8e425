import Curly.Proofs.Comparison
import Curly.Proofs.Walks

/-!
# Two engines side by side

Two engines that find the same templates render the same pages. What they have to agree on is
`Engine.Alike`: what they compile texts to, the templates they open to embed them, the templates
they find by name, and what they tell about layouts. From that alone it follows that all they render
is related, up to whole wrapped pages (`Engine.Alike.renderWrapped`). The relation of the journals is
left open: it may forget a cache, or the notices of no account. Engines over sources that give the
same are alike as soon as fetching and compiling are (`Engine.Alike.of_sources`).
-/

namespace Curly

/-- A result that is at hand is one outcome, whatever the journals are. -/
theorem Run.Related.ofExcept {R : Journal → Journal → Prop} {α : Type} (result : Except Failure α) :
    Run.Related R Eq Eq (MonadExcept.ofExcept result) (MonadExcept.ofExcept result) := by
  intro j j' hj
  rw [Run.exec_ofExcept, Run.exec_ofExcept]
  refine ⟨?_, hj⟩
  cases result with
  | error f => exact rfl
  | ok a => exact rfl

namespace Engine

/-- Two engines, each in its mode, that have one outcome and keep journals related by `R` when they
compile a text, open a template, find one by name, or begin a layout. -/
structure Alike (R : Journal → Journal → Prop) (e : Engine) (mode : Mode) (e' : Engine)
    (mode' : Mode) : Prop where
  noted : ∀ {j j' : Journal} (ns : List Notice), R j j' → R (j.noting ns) (j'.noting ns)
  depth : e'.settings.maxDepth = e.settings.maxDepth
  compiled : ∀ text name, Run.Related R Eq Eq (e.compile text name) (e'.compile text name)
  embedded : ∀ remaining chain name, Run.Related R Eq Eq (e.embedded mode remaining chain name)
    (e'.embedded mode' remaining chain name)
  named : ∀ name, Run.Related R Eq Eq (e.named mode name) (e'.named mode' name)
  wrapping : ∀ view layout, Run.Related R Eq Eq (noteWrapping mode view layout)
    (noteWrapping mode' view layout)

/-- Two renderings in one scope with one outcome. -/
def sameOutcome (R : Journal → Journal → Prop)
    (noted : ∀ {j j' : Journal} (ns : List Notice), R j j' → R (j.noting ns) (j'.noting ns)) :
    Comparison :=
  .inOneScope R Eq Eq noted rfl (fun hfs hgs => by rw [hfs, hgs]) fun _ => rfl

namespace Alike

variable {R : Journal → Journal → Prop} {e e' : Engine} {mode mode' : Mode}

/-- Trees whose embedded templates have one outcome have one outcome. -/
theorem tree (h : Alike R e mode e' mode') {embed embed' : Scope → String → Run (List Fragment)}
    (hembed : ∀ s name, Run.Related R Eq Eq (embed s name) (embed' s name)) (s : Scope) (t : Tree) :
    Run.Related R Eq Eq (Tree.render embed s t) (Tree.render embed' s t) := by
  have hfits : (sameOutcome R h.noted).Fits embed embed' t := by
    refine .of_scopes_eq (fun _ _ hs => hs) (fun _ => trivial) (fun _ _ _ _ _ _ => rfl) ?_
    intro name _ u
    exact hembed u name
  exact Tree.render_related hfits rfl

/-- What is put in the place of a failure depends on the failure alone. -/
theorem marker (h : Alike R e mode e' mode') (name : String) (f g : Failure) (hfg : f = g) :
    Run.Related R Eq Eq
      (do
        note [.embedFailed name f.message]
        return [Fragment.marker name])
      (do
        note [.embedFailed name g.message]
        return [Fragment.marker name]) := by
  intro j j' hj
  rw [hfg]
  exact ⟨rfl, h.noted _ hj⟩

theorem embed (h : Alike R e mode e' mode') (remaining : Nat) (chain : Chain) (s : Scope)
    (name : String) :
    Run.Related R Eq Eq (e.embed mode remaining chain s name)
      (e'.embed mode' remaining chain s name) := by
  -- a template is rendered one level further down than the one that embeds it
  induction remaining generalizing chain s name with
  | zero =>
    rw [embed_zero, embed_zero]
    refine Run.Related.tryCatch ?_ (h.marker name)
    refine Run.Related.bind (h.embedded 0 chain name) ?_
    intro _ _ _
    exact .pure rfl
  | succ below ih =>
    rw [embed_succ, embed_succ]
    refine Run.Related.tryCatch ?_ (h.marker name)
    refine Run.Related.bind (h.embedded (below + 1) chain name) ?_
    rintro tree _ rfl
    exact h.tree (fun u inner => ih (chain ++ [name]) u inner) s tree

theorem render (h : Alike R e mode e' mode') (template : Compiled) (s : Scope) :
    Run.Related R Eq Eq (e.render mode template s) (e'.render mode' template s) := by
  have hfragments : Run.Related R Eq Eq (e.fragments mode template s)
      (e'.fragments mode' template s) := by
    rw [fragments_eq, fragments_eq, h.depth]
    exact h.tree (fun u name => h.embed _ _ u name) s template.tree
  rw [render_eq, render_eq]
  refine Run.Related.bind hfragments ?_
  rintro fs _ rfl
  exact .pure rfl

theorem renderText (h : Alike R e mode e' mode') (text name : String) (s : Scope) :
    Run.Related R Eq Eq (e.renderText mode text name s) (e'.renderText mode' text name s) := by
  refine Run.Related.bind (h.compiled text name) ?_
  rintro tree _ rfl
  exact h.render ⟨tree, name⟩ s

theorem renderNamed (h : Alike R e mode e' mode') (name : String) (s : Scope) :
    Run.Related R Eq Eq (e.renderNamed mode name s) (e'.renderNamed mode' name s) := by
  rw [renderNamed_eq, renderNamed_eq]
  refine Run.Related.bind (h.named name) ?_
  rintro template _ rfl
  exact h.render template s

theorem wrap (h : Alike R e mode e' mode') (view : String) (s : Scope) (page : String)
    (layouts : List String) :
    Run.Related R Eq Eq (e.wrap mode view s page layouts) (e'.wrap mode' view s page layouts) := by
  induction layouts generalizing page with
  | nil =>
    rw [wrap_nil, wrap_nil]
    exact .pure rfl
  | cons layout outer ih =>
    rw [wrap_cons, wrap_cons]
    refine Run.Related.bind (h.wrapping view layout) ?_
    intro _ _ _
    refine Run.Related.bind (h.renderNamed layout (layoutScope s page)) ?_
    rintro page _ rfl
    exact ih page

theorem renderWrapped (h : Alike R e mode e' mode') (view : String) (layouts : List String)
    (data : Option Value) (extension : Option Extension) :
    Run.Related R Eq Eq (e.renderWrapped mode view layouts data extension)
      (e'.renderWrapped mode' view layouts data extension) := by
  rw [renderWrapped_eq, renderWrapped_eq]
  refine Run.Related.bind (.ofExcept (openScope data extension)) ?_
  rintro s _ rfl
  refine Run.Related.bind (h.renderNamed view s) ?_
  rintro page _ rfl
  exact h.wrap view s page layouts

/-- Two sources that are reached alike, from which the same is fetched. -/
def SourcesAlike (R : Journal → Journal → Prop) (mode mode' : Mode) (source source' : Source) :
    Prop :=
  source'.reaches mode' = source.reaches mode ∧
    ∀ chain name, Run.Related R Eq Eq (fetch source chain name) (fetch source' chain name)

/-- What is done with a source that has been let in, or found, is related for sources that are alike: both
are asked, or both refuse. -/
theorem SourcesAlike.asked {α : Type} {source source' : Source}
    (h : SourcesAlike R mode mode' source source') (chain : Chain) (name : String)
    {next next' : String → Run α}
    (hnext : ∀ text, Run.Related R Eq Eq (next text) (next' text)) (refusal : Failure) :
    Run.Related R Eq Eq
      (if source.reaches mode then do next (← fetch source chain name) else throw refusal)
      (if source'.reaches mode' then do next' (← fetch source' chain name) else throw refusal) := by
  rw [h.1]
  split
  · refine Run.Related.bind (h.2 chain name) ?_
    rintro text _ rfl
    exact hnext text
  · exact .throw rfl

/-- Engines over sources that are alike, or without sources, are alike if compiling is. -/
theorem of_sources
    (hnoted : ∀ {j j' : Journal} (ns : List Notice), R j j' → R (j.noting ns) (j'.noting ns))
    (hdepth : e'.settings.maxDepth = e.settings.maxDepth)
    (hsource : Option.Rel (SourcesAlike R mode mode') e.source e'.source)
    (hcompile : ∀ text name, Run.Related R Eq Eq (e.compile text name) (e'.compile text name))
    (hcompileNamed : ∀ name text,
      Run.Related R Eq Eq (e.compileNamed name text) (e'.compileNamed name text))
    (hwrapping : ∀ view layout, Run.Related R Eq Eq (noteWrapping mode view layout)
      (noteWrapping mode' view layout)) : Alike R e mode e' mode' where
  noted := hnoted
  depth := hdepth
  compiled := hcompile
  embedded remaining chain name := by
    have hlet : Run.Related R Eq (SourcesAlike R mode mode') (e.letIn remaining chain name)
        (e'.letIn remaining chain name) := by
      rw [letIn, letIn, hdepth]
      generalize e.source = found, e'.source = found' at hsource
      cases hsource with
      | none => exact .throw rfl
      | some h =>
        dsimp only
        -- a name that is refused is refused by both
        split
        · exact .throw rfl
        · split
          · exact .throw rfl
          · exact .pure h
    rw [embedded_eq, embedded_eq]
    refine Run.Related.bind hlet ?_
    intro source source' h
    exact h.asked chain name (hcompileNamed name) _
  named name := by
    have hrequired : Run.Related R Eq (SourcesAlike R mode mode') (e.required name)
        (e'.required name) := by
      rw [required, required]
      generalize e.source = found, e'.source = found' at hsource
      cases hsource with
      | none => exact .throw rfl
      | some h => exact .pure h
    rw [named_eq, named_eq]
    refine Run.Related.bind hrequired ?_
    intro source source' h
    refine h.asked [] name (fun text => ?_) _
    refine Run.Related.bind (hcompileNamed name text) ?_
    rintro tree _ rfl
    exact .pure rfl
  wrapping := hwrapping

end Alike

end Engine

end Curly
