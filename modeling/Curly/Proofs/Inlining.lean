import Curly.Proofs.Honesty
import Curly.Proofs.PlainData
import Curly.Proofs.Printing

/-!
# Embedding is inlining

`Engine.expanded` puts into a tree, in the place of each template that it embeds, the tree of that
template, expanded in turn, and a text node with the marker where the template cannot be opened.
Nothing is embedded in the result (`Tree.not_occurs_embed_expand`).

Where the expanded tree gives a page, the template gives the same page, and that needs neither a source
nor a chain: what is embedded sees the scope of the place where it is embedded, and a failure to embed
stays in its place. The proof compares the two renderings; that of the tree with the templates in place
is, as a program, that of the tree with a way to embed them (`Tree.render_expand`).

The expanded tree may fail where the template does not: a value that cannot be shown ends the rendering
of the tree in which it stands, and an embedded template that ends so leaves a marker
(`Engine.render_expanded_ones`). Over plain data, with paths that can be read, the expanded tree does not
fail.
-/

namespace Curly

/-! ## Expanding trees -/

mutual

/-- The nodes in the place of a node when names are replaced by trees. -/
def Node.expand (inline : String → Tree) : Node → Tree
  | .embed name => inline name
  | .cond condition test body none => [.cond condition test (Tree.expand inline body) none]
  | .cond condition test body (some other) =>
      [.cond condition test (Tree.expand inline body) (some (Tree.expand inline other))]
  | .each collection item index body =>
      [.each collection item index (Tree.expand inline body)]
  | n => [n]

/-- The tree with a tree in the place of each name that it embeds, at any depth. -/
def Tree.expand (inline : String → Tree) : List Node → Tree
  | [] => []
  | n :: rest => n.expand inline ++ Tree.expand inline rest

end

/-- The tree in the place of a name that is embedded inside the templates of a chain: that of its
template, expanded, or a text with the marker if it cannot be opened. -/
def Engine.inline (e : Engine) (mode : Mode) : Nat → Chain → String → Tree
  | 0, _, name => [.text (failureMarker name)]
  | remaining + 1, chain, name =>
    match e.opened mode (remaining + 1) chain name with
    | .ok tree => Tree.expand (e.inline mode remaining (chain ++ [name])) tree
    | .error _ => [.text (failureMarker name)]

/-- The tree of a template with all templates that it embeds in their places. -/
def Engine.expanded (e : Engine) (mode : Mode) (template : Compiled) : Tree :=
  Tree.expand (e.inline mode e.settings.maxDepth.toNat (rootChain template.name)) template.tree

section Expand

variable (inline : String → Tree)

@[simp] theorem Tree.expand_nil : Tree.expand inline [] = [] := rfl

@[simp] theorem Tree.expand_singleton (n : Node) : Tree.expand inline [n] = n.expand inline := by
  simp [Tree.expand]

theorem Tree.expand_cons (n : Node) (rest : Tree) :
    Tree.expand inline (n :: rest) = n.expand inline ++ Tree.expand inline rest := by
  rw [Tree.expand]

theorem Tree.expand_append (t u : Tree) :
    Tree.expand inline (t ++ u) = Tree.expand inline t ++ Tree.expand inline u := by
  induction t with
  | nil => rfl
  | cons n rest ih =>
    rw [List.cons_append, Tree.expand_cons, ih, Tree.expand_cons, List.append_assoc]

theorem Node.expand_of_isLeaf {n : Node} (hn : n.IsLeaf) : n.expand inline = [n] := by
  cases n <;> first | exact hn.elim | rfl

/-- Nothing is embedded in an expanded tree if nothing is in the trees put into it. -/
theorem Tree.not_occurs_embed_expand (h : ∀ name other, ¬ Node.Occurs (.embed other) (inline name))
    (t : Tree) (other : String) : ¬ Node.Occurs (.embed other) (Tree.expand inline t) := by
  induction t using Tree.induct with
  | nil => exact Node.not_occurs_nil _
  | cons n rest ihn ih =>
    rw [Tree.expand_singleton] at ihn
    rw [Tree.expand_cons, Node.occurs_append]
    rintro (hocc | hocc)
    · exact ihn hocc
    · exact ih hocc
  | leaf n hn =>
    rw [Tree.expand_singleton, Node.expand_of_isLeaf inline hn, Node.occurs_singleton_of_isLeaf hn]
    rintro rfl
    exact hn
  | embed name =>
    rw [Tree.expand_singleton, Node.expand]
    exact h name other
  | cond condition test body ih =>
    rw [Tree.expand_singleton, Node.expand, Node.occurs_cond]
    rintro (heq | hocc | hocc)
    · cases heq
    · exact ih hocc
    · exact Node.not_occurs_nil _ hocc
  | condElse condition test body alternative ihbody ihother =>
    rw [Tree.expand_singleton, Node.expand, Node.occurs_cond]
    rintro (heq | hocc | hocc)
    · cases heq
    · exact ihbody hocc
    · exact ihother hocc
  | each collection item index body ih =>
    rw [Tree.expand_singleton, Node.expand, Node.occurs_each]
    rintro (heq | hocc)
    · cases heq
    · exact ih hocc

/-- A tree that embeds nothing is its own expansion. -/
theorem Tree.expand_of_not_occurs_embed {t : Tree} (h : ∀ name, ¬ Node.Occurs (.embed name) t) :
    Tree.expand inline t = t := by
  induction t using Tree.induct with
  | nil => rfl
  | cons n rest ihn ih =>
    have hn := ihn fun name hocc => h name (Node.occurs_cons.mpr (.inl hocc))
    rw [Tree.expand_singleton] at hn
    rw [Tree.expand_cons, hn, ih fun name hocc => h name (Node.occurs_cons.mpr (.inr hocc))]
    rfl
  | leaf n hn => rw [Tree.expand_singleton, Node.expand_of_isLeaf inline hn]
  | embed name => exact (h name (Node.occurs_embed.mpr rfl)).elim
  | cond condition test body ih =>
    rw [Tree.expand_singleton, Node.expand,
      ih fun name hocc => h name (Node.occurs_cond.mpr (.inr (.inl hocc)))]
  | condElse condition test body other ihbody ihother =>
    rw [Tree.expand_singleton, Node.expand,
      ihbody fun name hocc => h name (Node.occurs_cond.mpr (.inr (.inl hocc))),
      ihother fun name hocc => h name (Node.occurs_cond.mpr (.inr (.inr hocc)))]
  | each collection item index body ih =>
    rw [Tree.expand_singleton, Node.expand,
      ih fun name hocc => h name (Node.occurs_each.mpr (.inr hocc))]

end Expand

/-- Rendering an expanded tree is rendering the tree where a name is embedded by rendering the tree
put in its place. -/
theorem Tree.render_expand (inline : String → Tree) (embed : Scope → String → Run (List Fragment))
    (s : Scope) (t : Tree) :
    Tree.render embed s (Tree.expand inline t) =
      Tree.render (fun s name => Tree.render embed s (inline name)) s t := by
  induction t using Tree.induct generalizing s with
  | nil => simp
  | cons n rest ihn ih =>
    have hn := ihn s
    rw [Tree.expand_singleton, Tree.render_singleton] at hn
    rw [Tree.expand_cons, Tree.render_append, hn, ih, Tree.render_cons]
  | leaf n hn =>
    rw [Tree.expand_singleton, Node.expand_of_isLeaf inline hn, Tree.render_singleton,
      Tree.render_singleton]
    exact Node.render_congr_of_isLeaf hn (fun _ _ => rfl) _ _
  | embed name =>
    rw [Tree.expand_singleton, Tree.render_singleton, Node.expand, Node.render]
  | cond condition test body ih =>
    rw [Tree.expand_singleton, Node.expand, Tree.render_singleton, Tree.render_singleton,
      Node.render_cond, Node.render_cond, ih]
    simp only [Option.getD_none, Tree.render_nil]
  | condElse condition test body other ihbody ihother =>
    rw [Tree.expand_singleton, Node.expand, Tree.render_singleton, Tree.render_singleton,
      Node.render_cond, Node.render_cond, ihbody, Option.getD_some, Option.getD_some, ihother]
  | each collection item index body ih =>
    rw [Tree.expand_singleton, Node.expand, Tree.render_singleton, Tree.render_singleton,
      Node.render, Node.render]
    simp only [ih]

/-- An expanded tree completes if the tree does where a name is embedded by the tree put in its
place. -/
theorem Tree.completes_expand {inline : String → Tree} {E : Scope → String → Prop} {s : Scope}
    {t : Tree} :
    Tree.Completes E s (Tree.expand inline t) ↔
      Tree.Completes (fun u name => Tree.Completes E u (inline name)) s t := by
  induction t using Tree.induct generalizing s with
  | nil => exact iff_of_true Tree.completes_nil Tree.completes_nil
  | cons n rest ihn ih =>
    rw [Tree.expand_singleton] at ihn
    rw [Tree.expand_cons, Tree.completes_append, ihn, ih, Tree.completes_singleton,
      Tree.completes_cons]
  | leaf n hn =>
    rw [Tree.expand_singleton, Node.expand_of_isLeaf inline hn, Tree.completes_singleton,
      Tree.completes_singleton]
    cases n <;> first | exact hn.elim | exact Iff.rfl
  | embed name =>
    rw [Tree.expand_singleton, Tree.completes_singleton, Node.expand, Node.Completes]
  | cond condition test body ih =>
    rw [Tree.expand_singleton, Node.expand, Tree.completes_singleton, Tree.completes_singleton,
      Node.completes_cond, Node.completes_cond]
    -- an absent branch is the empty tree on both sides
    refine exists_congr fun met => and_congr_right fun _ => ?_
    cases met with
    | true => exact ih
    | false => exact iff_of_true Tree.completes_nil Tree.completes_nil
  | condElse condition test body other ihbody ihother =>
    rw [Tree.expand_singleton, Node.expand, Tree.completes_singleton, Tree.completes_singleton,
      Node.completes_cond, Node.completes_cond]
    refine exists_congr fun met => and_congr_right fun _ => ?_
    cases met with
    | true => exact ihbody
    | false => exact ihother
  | each collection item index body ih =>
    rw [Tree.expand_singleton, Node.expand, Tree.completes_singleton, Tree.completes_singleton,
      Node.completes_each, Node.completes_each]
    simp only [ih]

/-! ## Places in a tree -/

/-- A place in a tree: between nodes at its top, or a place in a part of one of its blocks. -/
inductive Place where
  | here (before after : Tree)
  | inBody (before : Tree) (condition : String) (test : Condition) (place : Place)
      (other : Option Tree) (after : Tree)
  | inOther (before : Tree) (condition : String) (test : Condition) (body : Tree) (place : Place)
      (after : Tree)
  | inLoop (before : Tree) (collection item index : String) (place : Place) (after : Tree)

/-- The tree with nodes at a place. -/
def Place.fill (t : Tree) : Place → Tree
  | here before after => before ++ t ++ after
  | inBody before condition test place other after =>
      before ++ .cond condition test (place.fill t) other :: after
  | inOther before condition test body place after =>
      before ++ .cond condition test body (some (place.fill t)) :: after
  | inLoop before collection item index place after =>
      before ++ .each collection item index (place.fill t) :: after

/-- Nodes at a place are expanded by themselves. -/
theorem Place.expand_fill_congr (inline : String → Tree) {t u : Tree}
    (h : Tree.expand inline t = Tree.expand inline u) (place : Place) :
    Tree.expand inline (place.fill t) = Tree.expand inline (place.fill u) := by
  induction place with
  | here before after => simp only [Place.fill, Tree.expand_append, h]
  | inBody before condition test place other after ih =>
    cases other <;> simp only [Place.fill, Tree.expand_append, Tree.expand_cons, Node.expand, ih]
  | inOther before condition test body place after ih =>
    simp only [Place.fill, Tree.expand_append, Tree.expand_cons, Node.expand, ih]
  | inLoop before collection item index place after ih =>
    simp only [Place.fill, Tree.expand_append, Tree.expand_cons, Node.expand, ih]

/-! ## Comparing a template with its expansion -/

theorem printPage_append (fs gs : List Fragment) :
    printPage (fs ++ gs) = printPage fs ++ printPage gs := by
  rw [printPage, List.map_append, String.join_append]
  rfl

/-- Two renderings that both give a page, and one page. The first may use a cache that is honest. -/
abbrev Run.SamePage (dropGaps : Bool) (work work' : Run (List Fragment)) : Prop :=
  Run.Related (fun j _ => j.Honest dropGaps) (fun _ _ => False)
    (fun fs gs => printPage fs = printPage gs) work work'

/-- A tree that completes gives one page with two ways to embed templates, if they give one page for
each template that it comes to. -/
theorem Tree.samePage {dropGaps : Bool} {embed embed' : Scope → String → Run (List Fragment)}
    {E : Scope → String → Prop}
    (hembed : ∀ s name, E s name → Run.SamePage dropGaps (embed s name) (embed' s name)) {t : Tree}
    {s : Scope} (h : Tree.Completes E s t) :
    Run.SamePage dropGaps (Tree.render embed s t) (Tree.render embed' s t) := by
  have hnoted : ∀ (ns : List Notice) (j j' : Journal), j.Honest dropGaps →
      (j.noting ns).Honest dropGaps := fun ns j _ hj => hj.congr rfl
  -- by induction on why the tree completes, not on the tree: a branch not taken need not agree
  refine Tree.completes_induct ?nil ?cons ?leaf ?embed ?cond ?each h
  case nil =>
    intro s
    exact .pure rfl
  case cons =>
    intro s n rest hfirst hrest
    rw [Tree.render_singleton, Tree.render_singleton] at hfirst
    rw [Tree.render_cons, Tree.render_cons]
    refine .bind hfirst fun fs fs' hfs => .bind hrest fun gs gs' hgs => .pure ?_
    rw [printPage_append, printPage_append, hfs, hgs]
  case leaf =>
    intro s n fs ns _ hexec _
    rw [Tree.render_singleton, Tree.render_singleton]
    intro j j' hj
    rw [hexec, hexec]
    exact ⟨rfl, hj.congr rfl⟩
  case embed =>
    intro s name hname
    rw [Tree.render_singleton, Tree.render_singleton, Node.render, Node.render]
    exact hembed s name hname
  case cond =>
    intro s condition test body other met hmet hbranch
    rw [Tree.render_singleton, Tree.render_singleton, Node.render_cond, Node.render_cond,
      isMet_eq_pure hmet]
    refine .bind (.note (hnoted _)) ?_
    rintro _ _ -
    cases met with
    | true => exact hbranch
    | false => exact hbranch
  case each =>
    intro s collection item index body found hfound hpasses
    rw [Tree.render_singleton, Tree.render_singleton, Node.render_each, Node.render_each,
      loopItems_eq hfound]
    simp only [bind_assoc, pure_bind]
    refine .bind (.note (hnoted _)) ?_
    rintro _ _ -
    refine renderItems_related (P := fun fs gs => printPage fs = printPage gs) rfl ?_
      fun k x hx => ?_
    · intro fs gs fs' gs' hfs hgs
      rw [printPage_append, printPage_append, hfs, hgs]
    · rw [Nat.zero_add]
      exact hpasses k x hx

namespace Engine

variable {e : Engine} {mode : Mode} {chain : Chain} {name : String}

theorem inline_of_error {remaining : Nat} {failure : Failure}
    (h : e.opened mode remaining chain name = .error failure) :
    e.inline mode remaining chain name = [.text (failureMarker name)] := by
  cases remaining with
  | zero => rw [Engine.inline]
  | succ remaining => rw [Engine.inline, h]

theorem inline_of_ok {below : Nat} {tree : Tree}
    (h : e.opened mode (below + 1) chain name = .ok tree) :
    e.inline mode (below + 1) chain name =
      Tree.expand (e.inline mode below (chain ++ [name])) tree := by
  rw [Engine.inline, h]

/-- Nothing is embedded in what stands in the place of a name. -/
theorem not_occurs_embed_inline (remaining : Nat) (chain : Chain) (name other : String) :
    ¬ Node.Occurs (.embed other) (e.inline mode remaining chain name) := by
  induction remaining generalizing chain name other with
  | zero =>
    have hleaf : (Node.text (failureMarker name)).IsLeaf := trivial
    rw [Engine.inline, Node.occurs_singleton_of_isLeaf hleaf]
    intro heq
    cases heq
  | succ remaining ih =>
    rcases hopened : e.opened mode (remaining + 1) chain name with failure | tree
    · have hleaf : (Node.text (failureMarker name)).IsLeaf := trivial
      rw [inline_of_error hopened, Node.occurs_singleton_of_isLeaf hleaf]
      intro heq
      cases heq
    · rw [inline_of_ok hopened]
      exact Tree.not_occurs_embed_expand _ (fun inner other => ih (chain ++ [name]) inner other)
        tree other

/-- Where what stands in the place of a name completes, embedding the name gives its page. -/
theorem embed_samePage (embed : Scope → String → Run (List Fragment)) (remaining : Nat)
    (chain : Chain) (name : String) {s : Scope}
    (h : Tree.Completes anyEmbedded s (e.inline mode remaining chain name)) :
    Run.SamePage e.settings.dropGaps (e.embed mode remaining chain s name)
      (Tree.render embed s (e.inline mode remaining chain name)) := by
  -- a template that is opened is rendered one level further down, where the chain is longer
  induction remaining generalizing chain name s with
  | zero =>
    intro j j' hj
    obtain ⟨failure, hopened⟩ := e.opened_zero mode chain name
    obtain ⟨k, hk, hexec⟩ := e.exec_embed_of_error s hj hopened
    rw [hexec, inline_of_error hopened, Tree.render_singleton, Node.render, Run.exec_pure]
    exact ⟨rfl, hk⟩
  | succ below ih =>
    intro j j' hj
    -- the name is opened or not by both sides alike, whatever the cache has
    rcases hopened : e.opened mode (below + 1) chain name with failure | tree
    · obtain ⟨k, hk, hexec⟩ := e.exec_embed_of_error s hj hopened
      rw [hexec, inline_of_error hopened, Tree.render_singleton, Node.render, Run.exec_pure]
      exact ⟨rfl, hk⟩
    · rw [inline_of_ok hopened, Tree.completes_expand] at h
      have hsame : Run.SamePage e.settings.dropGaps
          (Tree.render (e.embed mode below (chain ++ [name])) s tree) _ :=
        Tree.samePage (fun u inner hinner => ih (chain ++ [name]) inner hinner) h
      have hk := (e.exec_embedded mode (below + 1) chain name hj).2
      rw [e.exec_embed_eq_of_ok s hj hopened, exec_recover, inline_of_ok hopened,
        Tree.render_expand]
      have hagree := hsame _ j' hk
      -- the tree completes, so there is no failure to recover from
      rcases hagree.1.exists_ok with ⟨fs, gs, hfs, hgs, hpage⟩
      rcases hrun : Run.exec (Tree.render (e.embed mode below (chain ++ [name])) s tree)
        (Run.exec (e.embedded mode (below + 1) chain name) j).2 with ⟨result, k⟩
      rw [hrun] at hagree hfs
      cases hfs
      exact hagree

/-- Where the expanded tree of a template completes, the template gives its page, whatever embeds
templates in the tree. -/
theorem fragments_samePage (embed : Scope → String → Run (List Fragment)) {template : Compiled}
    {s : Scope} (h : Tree.Completes anyEmbedded s (e.expanded mode template)) :
    Run.SamePage e.settings.dropGaps (e.fragments mode template s)
      (Tree.render embed s (e.expanded mode template)) := by
  rw [expanded, Tree.completes_expand] at h
  rw [fragments_eq, expanded, Tree.render_expand]
  exact Tree.samePage (fun u inner hinner => embed_samePage embed _ _ inner hinner) h

/-- Where the expanded tree of a template completes, the template gives a page, which is that of its
expanded tree under any engine. -/
theorem exists_page {template : Compiled} {s : Scope}
    (h : Tree.Completes anyEmbedded s (e.expanded mode template)) {j : Journal}
    (hj : j.Honest e.settings.dropGaps) :
    ∃ page, (Run.exec (e.render mode template s) j).1 = .ok page ∧
      ∀ (e' : Engine) (mode' : Mode) (name : String) (j' : Journal),
        (Run.exec (e'.render mode' ⟨e.expanded mode template, name⟩ s) j').1 = .ok page := by
  have hpage : ∀ embed j', ∃ fs gs, (Run.exec (e.fragments mode template s) j).1 = .ok fs ∧
      (Run.exec (Tree.render embed s (e.expanded mode template)) j').1 = .ok gs ∧
      printPage fs = printPage gs :=
    fun embed j' => (fragments_samePage embed h j j' hj).1.exists_ok
  rcases hpage (fun _ _ => pure []) j with ⟨fs, _, hfs, _⟩
  refine ⟨printPage fs, ?_, ?_⟩
  · rw [exec_render, hfs]
    rfl
  · intro e' mode' name j'
    obtain ⟨fs', gs, hfs', hgs, heq⟩ :=
      hpage (e'.embed mode' e'.settings.maxDepth.toNat (rootChain name)) j'
    rw [hfs] at hfs'
    cases hfs'
    rw [exec_render, fragments_eq, hgs, heq]
    rfl

/-- Putting what a name is expanded to into its place changes nothing in the expanded tree. -/
theorem expanded_fill_inline (mode : Mode) (place : Place) (name templateName : String) :
    e.expanded mode ⟨place.fill (e.inline mode e.settings.maxDepth.toNat (rootChain templateName)
      name), templateName⟩ = e.expanded mode ⟨place.fill [.embed name], templateName⟩ := by
  apply Place.expand_fill_congr
  rw [Tree.expand_singleton, Node.expand]
  exact Tree.expand_of_not_occurs_embed _ (not_occurs_embed_inline _ _ _)

/-- Embedding is inlining. Nothing is embedded in the expanded tree of a template, and where that tree
gives a page under some engine, it gives this page under every engine, name and journal, and the
template gives it too: a scope that loops have put layers on is seen by what is embedded there. At any
place where the template embeds a name, the expanded tree of the name may be put, which is a text with
the marker if the name cannot be opened: the page stays the same. Over plain data the expanded tree
gives a page if the numerals in its paths can be read. -/
theorem render_eq_render_expanded (e : Engine) (mode : Mode) (template : Compiled) (s : Scope)
    {j : Journal} (hj : j.Honest e.settings.dropGaps) :
    (∀ name, ¬ Node.Occurs (.embed name) (e.expanded mode template)) ∧
    (∀ (e' : Engine) (mode' : Mode) (name' : String) (j' : Journal) (page : String),
      (Run.exec (e'.render mode' ⟨e.expanded mode template, name'⟩ s) j').1 = .ok page →
      (Run.exec (e.render mode template s) j).1 = .ok page ∧
      (∀ (e' : Engine) (mode' : Mode) (name' : String) (j' : Journal),
        (Run.exec (e'.render mode' ⟨e.expanded mode template, name'⟩ s) j').1 = .ok page) ∧
      ∀ (place : Place) (name : String), template.tree = place.fill [.embed name] →
        (Run.exec (e.render mode ⟨place.fill (e.inline mode e.settings.maxDepth.toNat
          (rootChain template.name) name), template.name⟩ s) j).1 = .ok page) ∧
    (s.Plain → Tree.isReadable (e.expanded mode template) →
      ∃ page, (Run.exec (e.render mode ⟨e.expanded mode template, template.name⟩ s) j).1 =
        .ok page) := by
  refine ⟨?_, ?_, ?_⟩
  · intro name
    exact Tree.not_occurs_embed_expand _ (not_occurs_embed_inline _ _) template.tree name
  · intro e' mode' name' j' page hrendered
    have hcompletes : Tree.Completes anyEmbedded s (e.expanded mode template) :=
      (e'.exists_page_iff mode' _ s j').mp ⟨page, hrendered⟩
    obtain ⟨page', hpage, hexpanded⟩ := exists_page hcompletes hj
    have hsame := hexpanded e' mode' name' j'
    rw [hrendered] at hsame
    cases hsame
    refine ⟨hpage, hexpanded, ?_⟩
    intro place name htree
    -- the template with the tree in the place of the name has the same expanded tree
    have hfilled := expanded_fill_inline (e := e) mode place name template.name
    rw [← htree] at hfilled
    have hcompletes' : Tree.Completes anyEmbedded s (e.expanded mode
        ⟨place.fill (e.inline mode e.settings.maxDepth.toNat (rootChain template.name) name),
          template.name⟩) := hfilled ▸ hcompletes
    obtain ⟨page', hpage', hexpanded'⟩ := exists_page hcompletes' hj
    have hsame := hexpanded' e' mode' name' j'
    rw [hfilled, hrendered] at hsame
    cases hsame
    exact hpage'
  · intro hplain hreadable
    exact (e.exists_page_iff mode _ s j).mpr (hplain.completes hreadable)

/-- An engine with a row that shows a number and embeds itself. -/
def rowEngine : Engine := ⟨some (.ofTable [("row", "\x7b x \x7d\x7b#include row\x7d")]), {}⟩

/-- A loop around the row. -/
def rowTemplate : Compiled := ⟨[.each "xs" "x" "" [.embed "row"]], "page"⟩

/-- Two numbers for the loop. -/
def rowData : Value := .dict [(.str "xs", .list [.int 1, .int 2])]

/-- A loop around a template that embeds itself, rendered by an engine with the template and, as an
expanded tree, by one without a source. -/
theorem render_loop_eq_render_expanded_loop :
    (Journal.start none).Honest rowEngine.settings.dropGaps ∧ (Scope.ofData rowData).Plain ∧
    ∃ page,
      (Run.exec (rowEngine.render .blocking rowTemplate (.ofData rowData)) (.start none)).1 =
        .ok page ∧
      (Run.exec (Engine.render ⟨none, {}⟩ .waiting ⟨rowEngine.expanded .blocking rowTemplate, ""⟩
        (.ofData rowData)) (.start none)).1 = .ok page := by
  have hhonest : (Journal.start none).Honest rowEngine.settings.dropGaps :=
    Journal.honest_of_cache_eq_none rfl
  have hplain : (Scope.ofData rowData).Plain := by
    refine ⟨⟨_, rfl, ?_⟩, fun layer hlayer => by cases hlayer⟩
    intro k v hmem
    cases List.mem_singleton.mp hmem
    decide
  obtain ⟨-, hsame, hgives⟩ := render_eq_render_expanded rowEngine .blocking rowTemplate
    (.ofData rowData) hhonest
  have hreadable : Tree.isReadable (rowEngine.expanded .blocking rowTemplate) := by decide +kernel
  obtain ⟨page, hpage⟩ := hgives hplain hreadable
  obtain ⟨hrendered, hanywhere, -⟩ := hsame _ _ _ _ _ hpage
  exact ⟨hhonest, hplain, page, hrendered, hanywhere _ _ _ _⟩

end Engine

/-! ## Where the expanded tree fails -/

/-- A number can be written into a tag, however many digits it has. -/
theorem Tree.isNormal_ones {digits : Nat} (h : digitLimit < digits) :
    Tree.IsNormal [.value (ones digits)] := by
  have hlist : (ones digits).toList = List.replicate digits '1' := String.toList_ofList
  rw [Tree.isNormal_singleton, Node.IsNormal, Tag.IsNormal]
  refine ⟨fun hempty => ?_, fun c hc => ?_⟩
  · rw [hempty, String.toList_empty] at hlist
    exact Nat.ne_zero_of_lt h (List.replicate_eq_nil_iff _ |>.mp hlist.symm)
  · rw [hlist] at hc
    rw [(List.mem_replicate.mp hc).2]
    rfl

namespace Engine

/-- An engine with a template `p`, which is printed from a tree, that keeps all text. -/
def withTree (t : Tree) : Engine := ⟨some (.ofTable [("p", Tree.print t)]), ⟨false, 16⟩⟩

/-- The tree of the template is opened. -/
theorem opened_withTree {t : Tree} (h : Tree.IsNormal t) (mode : Mode) (below : Nat) {chain : Chain}
    (hchain : "p" ∉ chain) : (withTree t).opened mode (below + 1) chain "p" = .ok t := by
  have hfetch : ((Source.ofTable [("p", Tree.print t)]).fetch "p").2 = .ok (Tree.print t) := rfl
  have hreaches : (Source.ofTable [("p", Tree.print t)]).reaches mode := by cases mode <;> rfl
  rw [opened, withTree]
  dsimp only
  rw [if_neg hchain, if_neg (Nat.succ_ne_zero below), if_pos hreaches, hfetch]
  dsimp only
  rw [Tree.compile_print h]
  rfl

/-- A template that fails leaves a marker where it is embedded. -/
theorem exec_embed_of_fails {e : Engine} {mode : Mode} {below : Nat} {chain : Chain} {name : String}
    {tree : Tree} {failure : Failure} {s : Scope} {j : Journal} (hj : j.Honest e.settings.dropGaps)
    (h : e.opened mode (below + 1) chain name = .ok tree)
    (hfails : ∀ k, (Run.exec (Tree.render (e.embed mode below (chain ++ [name])) s tree) k).1 =
      .error failure) :
    (Run.exec (e.embed mode (below + 1) chain s name) j).1 = .ok [.marker name] := by
  rw [e.exec_embed_eq_of_ok s hj h, exec_recover]
  generalize (Run.exec (e.embedded mode (below + 1) chain name) j).2 = k
  have hfailed := hfails k
  rcases hrun : Run.exec (Tree.render (e.embed mode below (chain ++ [name])) s tree) k with
    ⟨result, k'⟩
  rw [hrun] at hfailed
  cases hfailed
  rfl

/-- An embedded template that shows nothing but a number of too many digits leaves a marker, and its
expanded tree fails. -/
theorem exec_render_embedded_ones {digits : Nat} (h : digitLimit < digits) (s : Scope) :
    (Run.exec ((withTree [.value (ones digits)]).render .blocking ⟨[.embed "p"], "page"⟩ s)
      (.start none)).1 = .ok "<!-- Error loading component: p -->" ∧
    (Run.exec ((withTree [.value (ones digits)]).render .blocking
      ⟨(withTree [.value (ones digits)]).expanded .blocking ⟨[.embed "p"], "page"⟩, "page"⟩ s)
        (.start none)).1 = .error (.badLookup (.numeral (.tooLongToRead digits))) := by
  have hopened : (withTree [.value (ones digits)]).opened .blocking 16 ["page"] "p" =
      .ok [.value (ones digits)] := opened_withTree (Tree.isNormal_ones h) .blocking 15 (by decide)
  have hhonest : (Journal.start none).Honest false := Journal.honest_of_cache_eq_none rfl
  constructor
  · have hmarker := exec_embed_of_fails (s := s) hhonest hopened fun k =>
      congrArg Prod.fst (Tree.exec_render_ones _ s k h)
    rw [exec_render, fragments_eq, Tree.render_singleton, Node.render]
    exact congrArg (Except.map printPage) hmarker
  · have hexpanded : (withTree [.value (ones digits)]).expanded .blocking ⟨[.embed "p"], "page"⟩ =
        [.value (ones digits)] :=
      (Tree.expand_singleton _ _).trans
        ((inline_of_ok hopened).trans (Tree.expand_of_not_occurs_embed _ fun name hocc => by
          rw [Node.occurs_singleton_of_isLeaf (m := .value (ones digits)) trivial] at hocc
          cases hocc))
    rw [hexpanded, exec_render_ones _ _ _ _ _ h]

/-- An embedded template that shows a number of five thousand digits leaves a marker, and its expanded
tree fails. -/
theorem render_expanded_ones :
    (Run.exec ((withTree [.value (ones 5000)]).render .blocking ⟨[.embed "p"], "page"⟩
      (.ofData (.dict []))) (.start none)).1 = .ok "<!-- Error loading component: p -->" ∧
    (Run.exec ((withTree [.value (ones 5000)]).render .blocking
      ⟨(withTree [.value (ones 5000)]).expanded .blocking ⟨[.embed "p"], "page"⟩, "page"⟩
      (.ofData (.dict []))) (.start none)).1 = .error (.badLookup (.numeral (.tooLongToRead 5000))) :=
  exec_render_embedded_ones (by decide) _

end Engine

end Curly
