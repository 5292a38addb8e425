import Curly.Proofs.Comparison
import Curly.Proofs.Grammar
import Curly.Proofs.Honesty

/-!
# Where fragments come from

Every fragment of a page is made by a node of the template or of one that it embeds, directly or
not (`Engine.fragments_made`): the fragment tells the kind of the node, and what data brings into it
has gone through the escaping of that kind. Which templates are embedded is a matter of the source
alone (`Engine.Reaches`), provided that what the cache keeps was compiled (`Journal.Genuine`).
-/

namespace Curly

/-! ## What every run ensures -/

/-- Work that, begun with a journal in `J`, ends with one, and gives only results in `P`. -/
def Run.Ensures {α : Type} (J : Journal → Prop) (P : α → Prop) (work : Run α) : Prop :=
  ∀ j, J j → (∀ a, (work.exec j).1 = .ok a → P a) ∧ J (work.exec j).2

namespace Run.Ensures

variable {α β : Type} {J : Journal → Prop} {P : α → Prop} {Q : β → Prop}

theorem pure {a : α} (h : P a) : Run.Ensures J P (Pure.pure a) := by
  intro j hj
  refine ⟨fun b hb => ?_, hj⟩
  cases hb
  exact h

theorem throw {f : Failure} : Run.Ensures J P (MonadExcept.throw f) := by
  intro j hj
  exact ⟨fun _ h => (nomatch h), hj⟩

theorem bind {work : Run α} {next : α → Run β} (h : Run.Ensures J P work)
    (hnext : ∀ a, P a → Run.Ensures J Q (next a)) : Run.Ensures J Q (work >>= next) := by
  intro j hj
  rcases h j hj with ⟨hresult, hjournal⟩
  rw [Run.exec_bind]
  rcases hexec : work.exec j with ⟨f | a, k⟩ <;> rw [hexec] at hresult hjournal
  · exact ⟨fun _ h => (nomatch h), hjournal⟩
  · exact hnext a (hresult a rfl) k hjournal

theorem mono {P' : α → Prop} {work : Run α} (h : Run.Ensures J P work)
    (hP : ∀ a, P a → P' a) : Run.Ensures J P' work := by
  intro j hj
  exact ⟨fun a ha => hP a ((h j hj).1 a ha), (h j hj).2⟩

/-- Work that is recovered from ensures what it and the handler ensure. -/
theorem tryCatch {work : Run α} {handler : Failure → Run α} (h : Run.Ensures J P work)
    (hhandler : ∀ f, Run.Ensures J P (handler f)) :
    Run.Ensures J P (MonadExcept.tryCatch work handler) := by
  intro j hj
  rcases h j hj with ⟨hresult, hjournal⟩
  rw [Run.exec_tryCatch]
  rcases hexec : work.exec j with ⟨f | a, k⟩ <;> rw [hexec] at hresult hjournal
  · exact hhandler f k hjournal
  · exact ⟨hresult, hjournal⟩

end Run.Ensures

/-- Work ensures a property exactly if it is related to itself with equal journals and results. -/
theorem Run.ensures_iff {α : Type} {J : Journal → Prop} {P : α → Prop} {work : Run α} :
    Run.Ensures J P work ↔ Run.Related (fun j j' => j' = j ∧ J j) (fun _ _ => True)
      (fun a b => b = a ∧ P a) work work := by
  constructor
  · rintro h j _ ⟨rfl, hj⟩
    rcases h _ hj with ⟨hresult, hjournal⟩
    refine ⟨?_, rfl, hjournal⟩
    rcases hexec : (work.exec _).1 with f | a
    · trivial
    · exact ⟨rfl, hresult a hexec⟩
  · intro h j hj
    rcases h j j ⟨rfl, hj⟩ with ⟨hagree, -, hjournal⟩
    refine ⟨fun a ha => ?_, hjournal⟩
    rw [ha] at hagree
    exact hagree.2

section Ensures

variable {J : Journal → Prop}

/-- A rendering compared with itself: all its fragments are in `F`. -/
def Comparison.uniform (J : Journal → Prop) (hJ : ∀ j ns, J j → J (j.noting ns))
    (F : Fragment → Prop) : Comparison :=
  inOneScope (fun j j' => j' = j ∧ J j) (fun _ _ => True) (fun fs gs => gs = fs ∧ ∀ f ∈ fs, F f)
    (fun ns h => ⟨by rw [h.1], hJ _ ns h.2⟩)
    ⟨rfl, fun _ hf => nomatch hf⟩
    (fun hfs hgs =>
      ⟨by rw [hfs.1, hgs.1], fun f hf => (List.mem_append.mp hf).elim (hfs.2 f) (hgs.2 f)⟩)
    fun _ => trivial

/-- The fragments of a tree are in `F` if those of its nodes without parts and of the templates that
it embeds are. -/
theorem Tree.render_ensures (hJ : ∀ j ns, J j → J (j.noting ns)) {F : Fragment → Prop} {t : Tree}
    {embed : Scope → String → Run (List Fragment)}
    (hleaf : ∀ n : Node, n.Occurs t → ∀ s fs ns, n.Yields s (.ok fs) ns → ∀ f ∈ fs, F f)
    (hembed : ∀ name, Node.Occurs (.embed name) t → ∀ s,
      Run.Ensures J (fun fs => ∀ f ∈ fs, F f) (embed s name)) (s : Scope) :
    Run.Ensures J (fun fs => ∀ f ∈ fs, F f) (Tree.render embed s t) := by
  have hfits : (Comparison.uniform J hJ F).Fits embed embed t := by
    refine .of_scopes_eq (fun _ _ h => h) (fun _ => trivial) ?_ ?_
    · intro n hn u fs ns hyields
      exact ⟨rfl, hleaf n hn u fs ns hyields⟩
    · intro name hname u
      exact Run.ensures_iff.mp (hembed name hname u)
  exact Run.ensures_iff.mpr (Tree.render_related hfits rfl)

end Ensures

/-! ## Genuine caches -/

/-- Each entry was compiled from its source, with all its text or without the gaps. -/
def Cache.Genuine (c : Cache Tree) : Prop :=
  ∀ name entry, c.find? name = some entry →
    ∃ dropGaps, Curly.compile entry.source name dropGaps = .ok entry.value

/-- The cache of the journal is genuine, if there is one. -/
def Journal.Genuine (j : Journal) : Prop := ∀ c, j.cache = some c → c.Genuine

theorem Journal.Genuine.congr {j k : Journal} (h : j.Genuine) (hk : k.cache = j.cache) :
    k.Genuine := by
  intro c hc
  exact h c (hk ▸ hc)

theorem Journal.genuine_of_cache_eq {j : Journal} {c : Cache Tree} (h : j.cache = some c)
    (hc : c.Genuine) : j.Genuine := by
  intro c' hc'
  rw [h] at hc'
  cases hc'
  exact hc

theorem Cache.Genuine.put {c : Cache Tree} {name source : String} {tree : Tree} {dropGaps : Bool}
    (h : c.Genuine) (htree : Curly.compile source name dropGaps = .ok tree) :
    (c.put name source tree).Genuine := by
  intro other entry hentry
  rw [Cache.find?_put] at hentry
  split at hentry
  · next heq =>
    cases hentry
    exact ⟨dropGaps, heq ▸ htree⟩
  · exact h other entry hentry

theorem Cache.Genuine.get? {c : Cache Tree} {name source : String} {tree : Tree} (h : c.Genuine)
    (hget : c.get? name source = some tree) :
    ∃ dropGaps, Curly.compile source name dropGaps = .ok tree := by
  rw [Cache.get?, Option.bind_eq_some_iff] at hget
  rcases hget with ⟨entry, hentry, hsource⟩
  split at hsource
  · next heq =>
    cases hsource
    rw [← heq]
    exact h name entry hentry
  · cases hsource

namespace Engine

variable (e : Engine)

/-- What is compiled under a name, or found there, was compiled from the text. -/
theorem compileNamed_ensures (name text : String) :
    Run.Ensures Journal.Genuine
      (fun tree => ∃ dropGaps, Curly.compile text name dropGaps = .ok tree)
      (e.compileNamed name text) := by
  intro j hj
  rcases hc : j.cache with _ | c
  · rw [e.exec_compileNamed_of_none name text hc]
    rcases e.exec_compile text name j with ⟨hresult, hcache⟩
    refine ⟨fun tree htree => ⟨e.settings.dropGaps, ?_⟩, hj.congr hcache⟩
    rw [hresult] at htree
    rcases hcompile : Curly.compile text name e.settings.dropGaps with error | found <;>
      rw [hcompile] at htree <;> cases htree
    rfl
  · rcases hget : c.get? name text with _ | found
    · rw [e.exec_compileNamed_of_miss hc hget]
      rcases hcompile : Curly.compile text name e.settings.dropGaps with error | compiled
      · exact ⟨fun _ h => (nomatch h), Journal.genuine_of_cache_eq rfl (hj c hc)⟩
      · refine ⟨fun tree htree => ?_,
          Journal.genuine_of_cache_eq rfl (Cache.Genuine.put (hj c hc) hcompile)⟩
        cases htree
        exact ⟨_, hcompile⟩
    -- an entry may be of the other setting, but it is of the same text
    · rw [e.exec_compileNamed_of_hit hc hget]
      refine ⟨fun tree htree => ?_, Journal.genuine_of_cache_eq rfl (hj c hc)⟩
      cases htree
      exact (hj c hc).get? hget

/-- What is fetched is what the source gives for the name. -/
theorem fetch_ensures (source : Source) (chain : Chain) (name : String) :
    Run.Ensures Journal.Genuine (fun text => (source.fetch name).2 = .ok text)
      (fetch source chain name) := by
  intro j hj
  rw [exec_fetch]
  exact ⟨fun _ h => h, hj.congr rfl⟩

/-! ## Templates that are embedded -/

/-- A template that is embedded in a tree, at any depth: its name stands in the tree, or in a
template embedded there, and its tree is compiled from what the source gives for the name, with all
its text or without the gaps. -/
inductive Reaches (mode : Mode) (t : Tree) : Tree → Prop where
  | self : Reaches mode t t
  | embedded {u v : Tree} {source : Source} {name text : String} {dropGaps : Bool} :
      Reaches mode t u → Node.Occurs (.embed name) u → e.source = some source →
      source.reaches mode → (source.fetch name).2 = .ok text →
      Curly.compile text name dropGaps = .ok v → Reaches mode t v

/-- A node stands in a tree or in a template that is embedded in it. -/
def Contains (mode : Mode) (t : Tree) (n : Node) : Prop := ∃ u, e.Reaches mode t u ∧ n.Occurs u

/-- A tree is embedded under a name only if the source gave its text. -/
theorem embedded_ensures {mode : Mode} {t : Tree} {name : String}
    (hname : e.Contains mode t (.embed name)) (remaining : Nat) (chain : Chain) :
    Run.Ensures Journal.Genuine (fun tree => remaining ≠ 0 ∧ e.Reaches mode t tree)
      (e.embedded mode remaining chain name) := by
  rcases hname with ⟨u, hu, hocc⟩
  rcases e.embedded_cases mode remaining chain name with
    ⟨failure, heq⟩ | ⟨source, hsource, -, hzero, hreach, heq⟩
  · rw [heq]
    exact .throw
  · rw [heq]
    refine .bind (fetch_ensures source chain name) fun text htext => ?_
    refine (e.compileNamed_ensures name text).mono fun tree htree => ⟨hzero, ?_⟩
    rcases htree with ⟨dropGaps, hcompile⟩
    exact .embedded hu hocc hsource hreach htext hcompile

end Engine

/-! ## What a table contains -/

/-- What the source of a table gives stands in the table. -/
theorem Source.mem_of_fetch_ofTable {templates : List (String × String)} {name text : String}
    (h : ((Source.ofTable templates).fetch name).2 = .ok text) : (name, text) ∈ templates := by
  rw [ofTable, ofFunction] at h
  rcases hlookup : templates.lookup name with _ | found
  · simp [hlookup] at h
  · simp only [hlookup, Except.ok.injEq] at h
    subst h
    rcases List.lookup_eq_some_iff.mp hlookup with ⟨before, after, rfl, -⟩
    exact List.mem_append_right before List.mem_cons_self

namespace Engine

variable {mode : Mode} {t : Tree} {n : Node} {tag : Tag}

/-- A node of which no text of a table has the tag stands in the root itself, if anywhere. -/
theorem occurs_of_contains {templates : List (String × String)} {settings : Settings}
    (hn : n.symbols = [.tag tag]) (htable : ∀ entry ∈ templates, .tag tag ∉ symbolsOf entry.2)
    (h : Engine.Contains ⟨some (.ofTable templates), settings⟩ mode t n) : n.Occurs t := by
  rcases h with ⟨u, hu, hocc⟩
  cases hu with
  | self => exact hocc
  | embedded _ _ hsource _ hfetch hcompile =>
    cases hsource
    rw [occurs_compile_iff hcompile hn] at hocc
    exact (htable _ (Source.mem_of_fetch_ofTable hfetch) hocc).elim

/-- An engine with one short template. -/
def noteEngine : Engine := ⟨some (.ofTable [("note", "!")]), {}⟩

theorem noteEngine_occurs (hn : n.symbols = [.tag tag]) (h : noteEngine.Contains mode t n) :
    n.Occurs t := by
  have hsymbols : symbolsOf "!" = [.text "!"] := symbolsOf_of_not_mem_brace (by decide) (by decide)
  exact occurs_of_contains hn (by simp [hsymbols]) h

end Engine

/-! ## Fragments and their nodes -/

/-- A fragment that one of the nodes in `P` makes of some value. -/
inductive Fragment.IsMade (P : Node → Prop) : Fragment → Prop where
  | text {text : String} : P (.text text) → IsMade P (.text text)
  | value {path text : String} {v : Value} :
      P (.value path) → v.shown = .ok text → IsMade P (.value (Text.escape text))
  | json {path text : String} {v : Value} :
      P (.json path) → Json.scriptSafe v = .ok text → IsMade P (.json text)
  | null {path : String} : P (.json path) → IsMade P (.json "null")
  | html {path text : String} {v : Value} :
      P (.html path) → v.shown = .ok text → IsMade P (.html text)
  | marker {name : String} : P (.embed name) → IsMade P (.marker name)

/-- What a node without parts yields is made by that node. -/
theorem Node.Yields.isMade {n : Node} {s : Scope} {fs : List Fragment} {ns : List Notice}
    (h : n.Yields s (.ok fs) ns) {P : Node → Prop} (hn : P n) : ∀ f ∈ fs, f.IsMade P := by
  cases h with
  | text => simpa using Fragment.IsMade.text hn
  | bare => simp
  | noValue _ => simp
  | noHtml _ => simp
  | noJson _ => simpa using Fragment.IsMade.null hn
  | value _ hshown => simpa using Fragment.IsMade.value hn hshown
  | html _ hshown => simpa using Fragment.IsMade.html hn hshown
  | json _ hjson => simpa using Fragment.IsMade.json hn hjson
  | notJson _ _ => simpa using Fragment.IsMade.null hn

namespace Engine

variable (e : Engine) {mode : Mode} {t : Tree}

/-- The marker of a name is made by the node of the name. -/
theorem marker_ensures {name : String} (hname : e.Contains mode t (.embed name))
    (failure : Failure) :
    Run.Ensures Journal.Genuine
      (fun fs : List Fragment => ∀ f ∈ fs, f.IsMade (e.Contains mode t))
      (do
        note [.embedFailed name failure.message]
        return [.marker name]) := by
  intro j hj
  exact Run.Ensures.pure (by simpa using Fragment.IsMade.marker hname) _ (hj.congr rfl)

/-- All fragments of an embedded template are made by nodes of templates that are embedded. -/
theorem embed_ensures (remaining : Nat) (chain : Chain) {name : String}
    (hname : e.Contains mode t (.embed name)) (s : Scope) :
    Run.Ensures Journal.Genuine (fun fs => ∀ f ∈ fs, f.IsMade (e.Contains mode t))
      (e.embed mode remaining chain s name) := by
  -- one level further down other templates are embedded, and they are reached by way of this one
  induction remaining generalizing chain name s with
  | zero =>
    rw [embed_zero]
    refine .tryCatch (.bind (e.embedded_ensures hname 0 chain) ?_) (e.marker_ensures hname)
    rintro tree ⟨hzero, -⟩
    exact (hzero rfl).elim
  | succ below ih =>
    rw [embed_succ]
    refine .tryCatch (.bind (e.embedded_ensures hname (below + 1) chain) ?_)
      (e.marker_ensures hname)
    rintro tree ⟨-, htree⟩
    refine Tree.render_ensures (fun _ _ h => h.congr rfl) ?_ ?_ s
    · intro n hn u fs ns hyields
      exact hyields.isMade ⟨tree, htree, hn⟩
    · intro inner hinner u
      exact ih (chain ++ [name]) ⟨tree, htree, hinner⟩ u

/-- All fragments of a template are made by its nodes and those of templates that it embeds. -/
theorem fragments_made (mode : Mode) (template : Compiled) (s : Scope) :
    Run.Ensures Journal.Genuine
      (fun fs => ∀ f ∈ fs, f.IsMade (e.Contains mode template.tree))
      (e.fragments mode template s) := by
  rw [fragments_eq]
  refine Tree.render_ensures (fun _ _ h => h.congr rfl) ?_ ?_ s
  · intro n hn u fs ns hyields
    exact hyields.isMade ⟨template.tree, .self, hn⟩
  · intro name hname u
    exact e.embed_ensures _ _ ⟨template.tree, .self, hname⟩ u

end Engine

end Curly
