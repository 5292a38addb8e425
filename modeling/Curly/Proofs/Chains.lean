import Curly.Proofs.Engines
import Curly.Proofs.Grammar
import Curly.Proofs.Provenance
import Mathlib.Data.Finset.Card

/-!
# Chains side by side

The chain of the names being rendered is asked two things only: whether a name is on it, and how
long it is. So two renderings whose chains answer alike for all names that they come to embed give
the same page (`Engine.embed_related`), although their notices and requests show different chains.

The name of a template is the first on its chain, and it matters only to templates that embed that
name (`Engine.render_anonymous_eq`): a template without a name stands on the chain under a name too,
so it cannot embed a template of that one. The limit on the depth matters only while there are
templates left that are not on the chain (`Engine.render_eq_of_card_le`).
-/

namespace Curly

/-! ## Work that shares a cache -/

/-- Two journals with one cache. -/
def Journal.SameCache (j j' : Journal) : Prop := j'.cache = j.cache

namespace Run.Related

variable {α β : Type} {R : Journal → Journal → Prop} {E : Failure → Failure → Prop}
variable {P : α → β → Prop} {work : Run α} {work' : Run β}

theorem mono {E' : Failure → Failure → Prop} {P' : α → β → Prop}
    (h : Run.Related R E P work work') (hE : ∀ f g, E f g → E' f g) (hP : ∀ a b, P a b → P' a b) :
    Run.Related R E' P' work work' := by
  intro j j' hj
  rcases h j j' hj with ⟨hagree, hjournals⟩
  refine ⟨?_, hjournals⟩
  revert hagree
  rcases (work.exec j).1 with f | a <;> rcases (work'.exec j').1 with g | b
  · exact hE f g
  · exact id
  · exact id
  · exact hP a b

/-- Related runs stay so with all that the first of them ensures. -/
theorem and_ensures {J : Journal → Prop} {Q : α → Prop} (h : Run.Related R E P work work')
    (hwork : Run.Ensures J Q work) :
    Run.Related (fun j j' => R j j' ∧ J j) E (fun a b => P a b ∧ Q a) work work' := by
  rintro j j' ⟨hj, hJ⟩
  rcases h j j' hj with ⟨hagree, hjournals⟩
  rcases hwork j hJ with ⟨hresult, hend⟩
  refine ⟨?_, hjournals, hend⟩
  revert hagree hresult
  rcases (work.exec j).1 with f | a <;> rcases (work'.exec j').1 with g | b <;> intro hagree hresult
  · exact hagree
  · exact hagree
  · exact hagree
  · exact ⟨hagree, hresult a rfl⟩

end Run.Related

/-- Work that fails whatever the journal is, and leaves the cache as it is. -/
def Run.Refuses {α : Type} (work : Run α) : Prop :=
  ∀ j, (∃ failure, (work.exec j).1 = .error failure) ∧ (work.exec j).2.cache = j.cache

/-- Two runs that both refuse are related, whatever the results of others would be. -/
theorem Run.Refuses.related {α β : Type} {work : Run α} {work' : Run β} (h : work.Refuses)
    (h' : work'.Refuses) (P : α → β → Prop) :
    Run.Related Journal.SameCache (fun _ _ => True) P work work' := by
  intro j j' hj
  rcases h j with ⟨⟨f, hf⟩, hcache⟩
  rcases h' j' with ⟨⟨g, hg⟩, hcache'⟩
  rw [hf, hg]
  exact ⟨trivial, hcache'.trans (hj.trans hcache.symm)⟩

theorem fetch_sameCache (source : Source) (chain chain' : Chain) (name : String) :
    Run.Related Journal.SameCache Eq Eq (fetch source chain name) (fetch source chain' name) := by
  intro j j' hj
  rw [exec_fetch, exec_fetch]
  exact ⟨Run.agree_refl _, hj⟩

namespace Engine

variable {e e' : Engine} {mode : Mode}

/-- What is compiled under a name, or found there, is seen from the cache alone. -/
theorem compileNamed_sameCache (hgaps : e'.settings.dropGaps = e.settings.dropGaps)
    (name text : String) :
    Run.Related Journal.SameCache Eq Eq (e.compileNamed name text) (e'.compileNamed name text) := by
  intro j j' hj
  rcases hc : j.cache with _ | c
  · have hc' : j'.cache = none := hj.trans hc
    rcases e.exec_compile text name j with ⟨hresult, hcache⟩
    rcases e'.exec_compile text name j' with ⟨hresult', hcache'⟩
    rw [e.exec_compileNamed_of_none name text hc, e'.exec_compileNamed_of_none name text hc',
      hresult, hresult', hgaps]
    exact ⟨Run.agree_refl _, hcache'.trans (hj.trans hcache.symm)⟩
  · have hc' : j'.cache = some c := hj.trans hc
    rcases hget : c.get? name text with _ | tree
    · rw [e.exec_compileNamed_of_miss hc hget, e'.exec_compileNamed_of_miss hc' hget, hgaps]
      rcases Curly.compile text name e.settings.dropGaps with error | tree
      · exact ⟨rfl, rfl⟩
      · exact ⟨rfl, rfl⟩
    · rw [e.exec_compileNamed_of_hit hc hget, e'.exec_compileNamed_of_hit hc' hget]
      exact ⟨rfl, rfl⟩

/-- Inside chains that have the name both or neither, and where more templates may be embedded on
both sides or on neither, one tree is opened, or none. -/
theorem embedded_sameCache (hsource : e'.source = e.source)
    (hgaps : e'.settings.dropGaps = e.settings.dropGaps) (mode : Mode) {remaining remaining' : Nat}
    {chain chain' : Chain} {name : String} (hzero : remaining' = 0 ↔ remaining = 0)
    (hchain : name ∈ chain' ↔ name ∈ chain) :
    Run.Related Journal.SameCache (fun _ _ => True) Eq (e.embedded mode remaining chain name)
      (e'.embedded mode remaining' chain' name) := by
  rw [embedded_eq, embedded_eq, letIn, letIn, hsource]
  rcases e.source with _ | source
  · exact .throw trivial
  · simp only [hzero, hchain]
    split
    · exact .throw trivial
    · split
      · exact .throw trivial
      · simp only [pure_bind]
        split
        · refine Run.Related.mono (E := Eq) (P := Eq) ?_ (fun _ _ _ => trivial) (fun _ _ h => h)
          refine .bind (fetch_sameCache source chain chain' name) ?_
          rintro text _ rfl
          exact compileNamed_sameCache hgaps name text
        · exact .throw trivial

/-! ## Templates embedded side by side -/

/-- What is embedded under a name: its tree, rendered one level further down, or a marker. -/
theorem embed_eq (e : Engine) (mode : Mode) (remaining : Nat) (chain : Chain) (s : Scope)
    (name : String) :
    e.embed mode remaining chain s name = recover name (do
      let tree ← e.embedded mode remaining chain name
      match remaining with
      | 0 => return []
      | below + 1 => Tree.render (e.embed mode below (chain ++ [name])) s tree) := by
  cases remaining with
  | zero => exact e.embed_zero mode chain s name
  | succ below => exact e.embed_succ mode below chain s name

/-- Two engines that open templates side by side: each name that comes to be embedded is opened on
both sides or on neither, and to the same tree. What ties the two sides is `J`: how many templates
may still be embedded on each, the two chains, and the name. -/
def OpensAlike (R : Journal → Journal → Prop) (J : Nat → Chain → Nat → Chain → String → Prop)
    (e e' : Engine) (mode : Mode) : Prop :=
  ∀ remaining chain remaining' chain' name, J remaining chain remaining' chain' name →
    Run.Related R (fun _ _ => True)
      (fun tree tree' => tree' = tree ∧ ∃ below below', remaining = below + 1 ∧
        remaining' = below' + 1 ∧ ∀ inner, Node.Occurs (.embed inner) tree →
          J below (chain ++ [name]) below' (chain' ++ [name]) inner)
      (e.embedded mode remaining chain name) (e'.embedded mode remaining' chain' name)

section SideBySide

variable {R : Journal → Journal → Prop}
variable (hnoted : ∀ {j j' : Journal} (ns ns' : List Notice), R j j' →
  R (j.noting ns) (j'.noting ns'))

include hnoted

/-- A marker stands in the place of a failure, whatever the failure was. -/
theorem recover_related {work work' : Run (List Fragment)}
    (h : Run.Related R (fun _ _ => True) Eq work work') (name : String) :
    Run.Related R Eq Eq (recover name work) (recover name work') := by
  intro j j' hj
  have h := h j j' hj
  rw [exec_recover, exec_recover]
  rcases hwork : work.exec j with ⟨f | fs, k⟩ <;>
    rcases hwork' : work'.exec j' with ⟨g | gs, k'⟩ <;> rw [hwork, hwork'] at h
  · exact ⟨rfl, hnoted _ _ h.2⟩
  · exact h.1.elim
  · exact h.1.elim
  · exact h

/-- A tree is rendered to the same fragments, or fails alike, if the templates in it are. -/
theorem tree_related {embed embed' : Scope → String → Run (List Fragment)} {t : Tree}
    (hembed : ∀ name, Node.Occurs (.embed name) t → ∀ s,
      Run.Related R Eq Eq (embed s name) (embed' s name)) (s : Scope) :
    Run.Related R Eq Eq (Tree.render embed s t) (Tree.render embed' s t) := by
  have hfits : (sameOutcome R fun ns hj => hnoted ns ns hj).Fits embed embed' t :=
    .of_scopes_eq (fun _ _ hs => hs) (fun _ => trivial) (fun _ _ _ _ _ _ => rfl) hembed
  exact Tree.render_related hfits rfl

/-- Templates that are opened side by side give the same fragments. -/
theorem embed_related {J : Nat → Chain → Nat → Chain → String → Prop}
    (hopened : OpensAlike R J e e' mode) {remaining remaining' : Nat} {chain chain' : Chain}
    {name : String} (h : J remaining chain remaining' chain' name) (s : Scope) :
    Run.Related R Eq Eq (e.embed mode remaining chain s name)
      (e'.embed mode remaining' chain' s name) := by
  -- a template that is opened is rendered one level further down on both sides
  induction remaining generalizing remaining' chain chain' name s with
  | zero =>
    rw [embed_eq, embed_eq]
    refine recover_related hnoted (.bind (hopened _ _ _ _ _ h) ?_) name
    rintro tree _ ⟨rfl, below, below', hzero, -⟩
    cases hzero
  | succ below ih =>
    rw [embed_eq, embed_eq]
    refine recover_related hnoted (.bind (hopened _ _ _ _ _ h) ?_) name
    rintro tree _ ⟨rfl, _, below', ⟨rfl⟩, rfl, hinner⟩
    have htree := tree_related hnoted (fun inner hocc u => ih (hinner inner hocc) u) s
    exact htree.mono (fun _ _ _ => trivial) fun _ _ heq => heq

/-- The page of a tree whose embedded templates stand inside the templates of a chain. -/
def renderInside (e : Engine) (mode : Mode) (chain : Chain) (t : Tree) (s : Scope) : Run String :=
  return printPage (← Tree.render (e.embed mode e.settings.maxDepth.toNat chain) s t)

/-- Trees are rendered to the same page if the templates in them are opened side by side. -/
theorem renderInside_related {J : Nat → Chain → Nat → Chain → String → Prop}
    (hopened : OpensAlike R J e e' mode) {chain chain' : Chain} {t : Tree}
    (h : ∀ name, Node.Occurs (.embed name) t →
      J e.settings.maxDepth.toNat chain e'.settings.maxDepth.toNat chain' name) (s : Scope) :
    Run.Related R Eq Eq (e.renderInside mode chain t s) (e'.renderInside mode chain' t s) := by
  have htree : Run.Related R Eq Eq (Tree.render (e.embed mode e.settings.maxDepth.toNat chain) s t)
      (Tree.render (e'.embed mode e'.settings.maxDepth.toNat chain') s t) :=
    tree_related hnoted (fun name hocc u => embed_related hnoted hopened (h name hocc) u) s
  refine htree.bind ?_
  rintro fs _ rfl
  exact .pure rfl

end SideBySide

/-- A template is rendered inside the chain of its own name. -/
theorem render_eq_renderInside (e : Engine) (mode : Mode) (template : Compiled) (s : Scope) :
    e.render mode template s = e.renderInside mode (rootChain template.name) template.tree s := by
  rw [render_eq, fragments_eq]
  rfl

/-! ## Names -/

/-- A tree is opened inside either of two chains that have the name both or neither, and the
templates embedded in it are among those embedded in the whole. -/
theorem embedded_contains {t : Tree} {name : String} (hname : e.Contains mode t (.embed name))
    (remaining : Nat) {chain chain' : Chain} (hchain : name ∈ chain' ↔ name ∈ chain) :
    Run.Related (fun j j' => j.SameCache j' ∧ j.Genuine) (fun _ _ => True)
      (fun tree tree' => tree' = tree ∧ remaining ≠ 0 ∧ e.Reaches mode t tree)
      (e.embedded mode remaining chain name) (e.embedded mode remaining chain' name) := by
  have hopened := (embedded_sameCache (e := e) rfl rfl mode (Iff.refl (remaining = 0))
    hchain).and_ensures (e.embedded_ensures hname remaining chain)
  exact hopened.mono (fun _ _ _ => trivial) fun _ _ h => ⟨h.1.symm, h.2⟩

/-- The page of a tree is the same inside two chains that differ in no name that it embeds. -/
theorem renderInside_eq (e : Engine) (mode : Mode) (t : Tree) (s : Scope) {chain chain' : Chain}
    {j : Journal} (hj : j.Genuine)
    (hchains : ∀ name, e.Contains mode t (.embed name) → (name ∈ chain' ↔ name ∈ chain)) :
    (Run.exec (e.renderInside mode chain' t s) j).1 =
      (Run.exec (e.renderInside mode chain t s) j).1 := by
  -- both sides may embed equally many more, and the chains differ in no name that is embedded
  let J : Nat → Chain → Nat → Chain → String → Prop := fun remaining c remaining' c' name =>
    remaining' = remaining ∧ e.Contains mode t (.embed name) ∧
      ∀ other, e.Contains mode t (.embed other) → (other ∈ c' ↔ other ∈ c)
  have hopened : OpensAlike (fun j j' => j.SameCache j' ∧ j.Genuine) J e e mode := by
    rintro remaining c _ c' name ⟨rfl, hname, hcc'⟩
    refine (embedded_contains hname _ (hcc' name hname)).mono (fun _ _ h => h) ?_
    rintro tree _ ⟨rfl, hzero, hreach⟩
    rcases Nat.exists_eq_succ_of_ne_zero hzero with ⟨below, rfl⟩
    refine ⟨rfl, below, below, rfl, rfl, fun inner hinner => ⟨rfl, ⟨_, hreach, hinner⟩, ?_⟩⟩
    intro other hother
    simp only [List.mem_append, hcc' other hother]
  have hrelated := renderInside_related (fun _ _ h => ⟨h.1, h.2.congr rfl⟩) hopened
    (fun name hocc => ⟨rfl, ⟨t, .self, hocc⟩, hchains⟩) s
  exact (hrelated j j ⟨rfl, hj⟩).1.eq.symm

/-- The name of a template is no more than a guard against cycles. Unless a template that stands for
those without a name is embedded, a template without one is rendered as if it stood on no chain, so
that only names of templates being embedded are refused; and that is what is rendered under any name
that is not embedded. -/
theorem render_anonymous_eq (e : Engine) (mode : Mode) (t : Tree) (s : Scope) {j : Journal}
    (hj : j.Genuine) (hfree : ¬ e.Contains mode t (.embed anonymous)) :
    (Run.exec (e.render mode ⟨t, ""⟩ s) j).1 = (Run.exec (e.renderInside mode [] t s) j).1 ∧
      ∀ name, ¬ e.Contains mode t (.embed name) →
        (Run.exec (e.render mode ⟨t, name⟩ s) j).1 = (Run.exec (e.render mode ⟨t, ""⟩ s) j).1 := by
  have hroot : ∀ name, ¬ e.Contains mode t (.embed name) → ∀ other,
      e.Contains mode t (.embed other) → (other ∈ rootChain name ↔ other ∈ ([] : Chain)) := by
    intro name hname other hother
    have hne : other ∉ rootChain name := by
      intro hmem
      rcases List.mem_singleton.mp hmem with rfl
      split at hother
      · exact hfree hother
      · exact hname hother
    exact iff_of_false hne List.not_mem_nil
  simp only [render_eq_renderInside]
  have hanonymous := renderInside_eq e mode t s hj (hroot anonymous hfree)
  refine ⟨hanonymous, fun name hname => ?_⟩
  exact (renderInside_eq e mode t s hj (hroot name hname)).trans hanonymous.symm

/-- A tree that embeds a template that there is and one that there is not. -/
def noteTree : Tree := [.text "<p>", .embed "note", .embed "gone"]

/-- A template is rendered without a name as it is under one that it does not embed. -/
theorem render_anonymous_eq_page :
    (Journal.start none).Genuine ∧
    ¬ noteEngine.Contains .blocking noteTree (.embed anonymous) ∧
    ¬ noteEngine.Contains .blocking noteTree (.embed "page") ∧
    (Run.exec (noteEngine.render .blocking ⟨noteTree, "page"⟩ (.ofData (.dict [])))
        (.start none)).1 =
      (Run.exec (noteEngine.render .blocking ⟨noteTree, ""⟩ (.ofData (.dict []))) (.start none)).1 := by
  have hgenuine : (Journal.start none).Genuine := fun c hc => nomatch hc
  have hfree : ∀ name, name ≠ "note" → name ≠ "gone" →
      ¬ noteEngine.Contains .blocking noteTree (.embed name) := by
    intro name hnote hgone h
    have hocc := noteEngine_occurs rfl h
    rw [Tree.occurs_iff_mem_symbols (x := .tag (.embed name)) rfl] at hocc
    simp [noteTree, Tree.symbols, Node.symbols, hnote, hgone] at hocc
  have hanonymous := hfree anonymous (by decide) (by decide)
  have hpage := hfree "page" (by decide) (by decide)
  exact ⟨hgenuine, hanonymous, hpage,
    (render_anonymous_eq _ _ _ _ hgenuine hanonymous).2 "page" hpage⟩

/-! ### A template that stands for those without a name -/

theorem compile_greeting (name : String) (trim : Bool) :
    Curly.compile "hi" name trim = .ok [.text "hi"] := by
  have hpieces : pieces "hi".toList = [.text ['h', 'i']] := pieces_of_not_mem_brace (by decide)
  rw [compile_eq_ok_iff_build, Token.ofText, hpieces]
  cases trim with
  | true => rfl
  | false => rfl

/-- An engine with a template under the name that stands for a template without one. -/
def greetingEngine : Engine := ⟨some (.ofTable [(anonymous, "hi")]), {}⟩

/-- A template of the name that stands for a template without one is refused there, as if it were
being embedded in itself, and is embedded under a name that no template embeds. -/
theorem render_anonymous_ne_page :
    ¬ greetingEngine.Contains .blocking [.embed anonymous] (.embed "page") ∧
    (Run.exec (greetingEngine.render .blocking ⟨[.embed anonymous], "page"⟩ (.ofData (.dict [])))
      (.start none)).1 = .ok "hi" ∧
    (Run.exec (greetingEngine.render .blocking ⟨[.embed anonymous], ""⟩ (.ofData (.dict [])))
      (.start none)).1 = .ok "<!-- Error loading component: <string> -->" := by
  have hsymbols : symbolsOf "hi" = [.text "hi"] :=
    symbolsOf_of_not_mem_brace (by decide) (by decide)
  have hhonest : (Journal.start none).Honest true := Journal.honest_of_cache_eq_none rfl
  have hopened : greetingEngine.opened .blocking (Int.toNat 16) (rootChain "page") anonymous =
      .ok [.text "hi"] := by
    show (Curly.compile "hi" anonymous true).mapError Failure.badTemplate = _
    rw [compile_greeting]
    rfl
  have hrefused : greetingEngine.opened .blocking (Int.toNat 16) (rootChain "") anonymous =
      .error (.embedding (.cycle anonymous [anonymous, anonymous])) := rfl
  refine ⟨fun h => ?_, ?_, ?_⟩
  · have hocc := occurs_of_contains rfl (by simp [hsymbols]) h
    rw [Tree.occurs_iff_mem_symbols (x := .tag (.embed "page")) rfl] at hocc
    simp [Tree.symbols, Node.symbols, anonymous] at hocc
  · rcases exec_embed_of_ok _ (.ofData (.dict [])) hhonest hopened with ⟨below, k, -, -, hexec⟩
    rw [exec_render, fragments_eq, Tree.render_singleton, Node.render]
    refine (congrArg (fun outcome => outcome.1.map printPage) hexec).trans ?_
    rw [exec_recover, Tree.render_singleton, Node.render]
    rfl
  · rcases exec_embed_of_error _ (.ofData (.dict [])) hhonest hrefused with ⟨k, -, hexec⟩
    rw [exec_render, fragments_eq, Tree.render_singleton, Node.render]
    exact congrArg (fun outcome => outcome.1.map printPage) hexec

/-! ## Limits on the depth -/

/-- Nothing is opened under a name that is on the chain already, or for which there is no text. -/
theorem embedded_refuses {chain : Chain} {name : String} (remaining : Nat)
    (h : name ∈ chain ∨ ∀ source, e.source = some source →
      ∀ text, (source.fetch name).2 ≠ .ok text) :
    (e.embedded mode remaining chain name).Refuses := by
  intro j
  rcases e.embedded_cases mode remaining chain name with
    ⟨failure, heq⟩ | ⟨source, hsource, hchain, -, -, heq⟩
  · rw [heq]
    exact ⟨⟨failure, rfl⟩, rfl⟩
  · have hfetch := h.resolve_left hchain source hsource
    rw [heq, Run.exec_bind, exec_fetch]
    rcases hresult : (source.fetch name).2 with failure | text
    · exact ⟨⟨failure, rfl⟩, rfl⟩
    · exact (hfetch text hresult).elim

/-- A name taken onto the chain leaves fewer names that are not on it. -/
theorem card_sdiff_append {names : Finset String} {chain : Chain} {name : String}
    (hname : name ∈ names) (hchain : name ∉ chain) :
    (names \ (chain ++ [name]).toFinset).card + 1 = (names \ chain.toFinset).card := by
  have herase : names \ (chain ++ [name]).toFinset = (names \ chain.toFinset).erase name := by
    ext other
    simp only [Finset.mem_sdiff, Finset.mem_erase, List.mem_toFinset, List.mem_append,
      List.mem_singleton, not_or]
    exact ⟨fun h => ⟨h.2.2, h.1, h.2.1⟩, fun h => ⟨h.2.1, h.2.2, h.1⟩⟩
  rw [herase]
  refine Finset.card_erase_add_one ?_
  simp [hname, hchain]

/-- Two engines over one source, each of which may embed at least as many templates in one another
as there are names that the source has a text for, render the same pages. -/
theorem renderInside_eq_of_card_le {names : Finset String} {source : Source}
    (hnames : ∀ name text, (source.fetch name).2 = .ok text → name ∈ names)
    (dropGaps : Bool) {limit limit' : Int} (h : (names.card : Int) ≤ limit)
    (h' : (names.card : Int) ≤ limit') (mode : Mode) (chain : Chain) (t : Tree) (s : Scope) :
    Run.Related Journal.SameCache Eq Eq
      (Engine.renderInside ⟨some source, ⟨dropGaps, limit⟩⟩ mode chain t s)
      (Engine.renderInside ⟨some source, ⟨dropGaps, limit'⟩⟩ mode chain t s) := by
  -- on both sides so many more templates may be embedded as there are names left
  let J : Nat → Chain → Nat → Chain → String → Prop := fun remaining c remaining' c' _ =>
    c' = c ∧ (names \ c.toFinset).card ≤ remaining ∧ (names \ c.toFinset).card ≤ remaining'
  refine renderInside_related (J := J) (fun _ _ h => h) ?_ ?_ s
  · rintro remaining _ remaining' c name ⟨rfl, hcard, hcard'⟩
    by_cases hfresh : name ∈ names ∧ name ∉ c
    · have hstep := card_sdiff_append hfresh.1 hfresh.2
      obtain ⟨below, rfl⟩ : ∃ below, remaining = below + 1 := ⟨remaining - 1, by omega⟩
      obtain ⟨below', rfl⟩ : ∃ below', remaining' = below' + 1 := ⟨remaining' - 1, by omega⟩
      have hzero : below' + 1 = 0 ↔ below + 1 = 0 := by simp
      refine (embedded_sameCache rfl rfl mode hzero Iff.rfl).mono (fun _ _ h => h) ?_
      rintro tree _ rfl
      exact ⟨rfl, below, below', rfl, rfl, fun inner _ => ⟨rfl, by omega, by omega⟩⟩
    · -- a name on the chain or without a text is refused, whatever the limit
      have hrefused : name ∈ c ∨ ∀ found, some source = some found →
          ∀ text, (found.fetch name).2 ≠ .ok text := by
        by_cases hchain : name ∈ c
        · exact .inl hchain
        · refine .inr ?_
          rintro _ ⟨rfl⟩ text htext
          exact hfresh ⟨hnames name text htext, hchain⟩
      exact (embedded_refuses _ hrefused).related (embedded_refuses _ hrefused) _
  · intro name _
    have hle : (names \ chain.toFinset).card ≤ names.card := Finset.card_le_card Finset.sdiff_subset
    exact ⟨rfl, by simp only; omega, by simp only; omega⟩

/-- The limit on the depth cannot be seen once it is no less than the number of templates in the
table: the page, or the failure in its place, is the same for all such limits, whatever the
templates are and embed. -/
theorem render_eq_of_card_le (templates : List (String × String)) (dropGaps : Bool)
    {limit limit' : Int} (h : ((templates.map Prod.fst).toFinset.card : Int) ≤ limit)
    (h' : ((templates.map Prod.fst).toFinset.card : Int) ≤ limit') (mode : Mode)
    (template : Compiled) (s : Scope) (j : Journal) :
    (Run.exec (Engine.render ⟨some (.ofTable templates), ⟨dropGaps, limit⟩⟩ mode template s) j).1 =
      (Run.exec (Engine.render ⟨some (.ofTable templates), ⟨dropGaps, limit'⟩⟩ mode template s) j).1
    := by
  have hnames : ∀ name text, ((Source.ofTable templates).fetch name).2 = .ok text →
      name ∈ (templates.map Prod.fst).toFinset := by
    intro name text hfetch
    exact List.mem_toFinset.mpr (List.mem_map_of_mem (Source.mem_of_fetch_ofTable hfetch))
  rw [render_eq_renderInside, render_eq_renderInside]
  have hrelated := renderInside_eq_of_card_le hnames dropGaps h h' mode (rootChain template.name)
    template.tree s
  exact (hrelated j j rfl).1.eq

/-- Two templates that embed each other. -/
def mutualTable : List (String × String) :=
  [("a", "\x7b#include b\x7d"), ("b", "\x7b#include a\x7d")]

/-- A template that embeds one of the two, and one that there is not. -/
def mutualTemplate : Compiled := ⟨[.embed "a", .embed "gone"], "page"⟩

/-- Of two templates that embed each other the limits of two and of seven give the same page. -/
theorem render_eq_two_seven :
    ((mutualTable.map Prod.fst).toFinset.card : Int) ≤ 2 ∧
    ((mutualTable.map Prod.fst).toFinset.card : Int) ≤ 7 ∧
    (Run.exec (Engine.render ⟨some (.ofTable mutualTable), ⟨true, 2⟩⟩ .blocking mutualTemplate
        (.ofData (.dict []))) (.start none)).1 =
      (Run.exec (Engine.render ⟨some (.ofTable mutualTable), ⟨true, 7⟩⟩ .blocking mutualTemplate
        (.ofData (.dict []))) (.start none)).1 := by
  have hcard : ((mutualTable.map Prod.fst).toFinset.card : Int) = 2 := by decide
  exact ⟨hcard.le, hcard.le.trans (by decide),
    render_eq_of_card_le _ true hcard.le (hcard.le.trans (by decide)) .blocking _ _ _⟩

end Engine

end Curly
