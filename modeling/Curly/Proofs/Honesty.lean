import Curly.Proofs.Walks

/-!
# Honest caches

A cache is honest if each of its entries is what its source compiles to under its name. An honest
cache cannot be told from none: compiling through it gives what compiling gives
(`Engine.exec_compileNamed`), and it stays honest. So the tree that is embedded under a name is a
function of the name and of the chain that it is embedded in (`Engine.opened`).
-/

namespace Curly

/-- Each entry is what its source compiles to under its name. -/
def Cache.Honest (dropGaps : Bool) (c : Cache Tree) : Prop :=
  ∀ name entry, c.find? name = some entry →
    Curly.compile entry.source name dropGaps = .ok entry.value

/-- The cache of the journal is honest, if there is one. -/
def Journal.Honest (dropGaps : Bool) (j : Journal) : Prop :=
  ∀ c, j.cache = some c → c.Honest dropGaps

variable {dropGaps : Bool}

namespace Cache.Honest

theorem empty : (Cache.empty : Cache Tree).Honest dropGaps := by
  intro name entry h
  simp at h

theorem erase {c : Cache Tree} (h : c.Honest dropGaps) (name : String) :
    (c.erase name).Honest dropGaps := by
  intro other entry hentry
  rw [Cache.find?_erase] at hentry
  split at hentry
  · cases hentry
  · exact h other entry hentry

theorem put {c : Cache Tree} {name source : String} {tree : Tree} (h : c.Honest dropGaps)
    (htree : Curly.compile source name dropGaps = .ok tree) :
    (c.put name source tree).Honest dropGaps := by
  intro other entry hentry
  rw [Cache.find?_put] at hentry
  split at hentry
  · next heq =>
    cases hentry
    rw [heq]
    exact htree
  · exact h other entry hentry

theorem get? {c : Cache Tree} {name source : String} {tree : Tree} (h : c.Honest dropGaps)
    (hget : c.get? name source = some tree) : Curly.compile source name dropGaps = .ok tree := by
  rw [Cache.get?, Option.bind_eq_some_iff] at hget
  rcases hget with ⟨entry, hentry, hsource⟩
  split at hsource
  · next heq =>
    cases hsource
    rw [← heq]
    exact h name entry hentry
  · cases hsource

end Cache.Honest

theorem Journal.honest_of_cache_eq_none {j : Journal} (h : j.cache = none) : j.Honest dropGaps := by
  intro c hc
  rw [h] at hc
  cases hc

theorem Journal.honest_of_cache_eq {j : Journal} {c : Cache Tree} (h : j.cache = some c)
    (hc : c.Honest dropGaps) : j.Honest dropGaps := by
  intro c' hc'
  rw [h] at hc'
  cases hc'
  exact hc

/-- Whether a journal is honest is seen from its cache alone. -/
theorem Journal.Honest.congr {j k : Journal} (h : j.Honest dropGaps) (hk : k.cache = j.cache) :
    k.Honest dropGaps := by
  intro c hc
  exact h c (hk ▸ hc)

namespace Engine

variable (e : Engine)

theorem exec_compile (text name : String) (j : Journal) :
    (Run.exec (e.compile text name) j).1 =
        (Curly.compile text name e.settings.dropGaps).mapError .badTemplate ∧
      (Run.exec (e.compile text name) j).2.cache = j.cache := by
  rw [Engine.compile]
  rcases Curly.compile text name e.settings.dropGaps with error | tree
  · exact ⟨rfl, rfl⟩
  · exact ⟨rfl, rfl⟩

/-- Without a cache the text is compiled. -/
theorem exec_compileNamed_of_none (name text : String) {j : Journal} (hj : j.cache = none) :
    Run.exec (e.compileNamed name text) j = Run.exec (e.compile text name) j := by
  rw [compileNamed, Run.exec_bind, Run.exec_get]
  simp only [hj]

/-- An entry for the text gives its tree. -/
theorem exec_compileNamed_of_hit {name text : String} {tree : Tree} {j : Journal} {c : Cache Tree}
    (hj : j.cache = some c) (hget : c.get? name text = some tree) :
    Run.exec (e.compileNamed name text) j =
      (.ok tree, { j with cache := some { c with hits := c.hits + 1 } }) := by
  rw [compileNamed, Run.exec_bind, Run.exec_get]
  simp only [hj, Cache.request, hget]
  rfl

/-- Without an entry for the text it is compiled, and its tree becomes the entry. -/
theorem exec_compileNamed_of_miss {name text : String} {j : Journal} {c : Cache Tree}
    (hj : j.cache = some c) (hget : c.get? name text = none) :
    Run.exec (e.compileNamed name text) j =
      match Curly.compile text name e.settings.dropGaps with
      | .ok tree => (.ok tree, { j with
          notices := j.notices ++ [.compiled name tree.length, .stored name]
          cache := some ({ c with misses := c.misses + 1 }.put name text tree) })
      | .error error => (.error (.badTemplate error), { j with
          cache := some { c with misses := c.misses + 1 } }) := by
  rw [compileNamed, Run.exec_bind, Run.exec_get]
  simp only [hj, Cache.request, hget]
  rcases Curly.compile text name e.settings.dropGaps with error | tree
  · rfl
  · rfl

/-- Through an honest cache a text compiles to what it compiles to without one. -/
theorem exec_compileNamed (name text : String) {j : Journal} (hj : j.Honest e.settings.dropGaps) :
    (Run.exec (e.compileNamed name text) j).1 =
        (Curly.compile text name e.settings.dropGaps).mapError .badTemplate ∧
      (Run.exec (e.compileNamed name text) j).2.Honest e.settings.dropGaps := by
  -- no cache, no entry for the text, or an entry, which is honest
  rcases hc : j.cache with _ | c
  · have h := e.exec_compile text name j
    rw [e.exec_compileNamed_of_none name text hc]
    exact ⟨h.1, hj.congr h.2⟩
  · rcases hget : c.get? name text with _ | tree
    · rw [e.exec_compileNamed_of_miss hc hget]
      rcases hcompile : Curly.compile text name e.settings.dropGaps with error | tree
      · exact ⟨rfl, Journal.honest_of_cache_eq rfl (hj c hc)⟩
      · exact ⟨rfl, Journal.honest_of_cache_eq rfl (Cache.Honest.put (hj c hc) hcompile)⟩
    · rw [e.exec_compileNamed_of_hit hc hget, (hj c hc).get? hget]
      exact ⟨rfl, Journal.honest_of_cache_eq rfl (hj c hc)⟩

/-- A name is refused before its source is asked, or its text is fetched and compiled. -/
theorem embedded_cases (mode : Mode) (remaining : Nat) (chain : Chain) (name : String) :
    (∃ failure, e.embedded mode remaining chain name = throw failure) ∨
      ∃ source, e.source = some source ∧ name ∉ chain ∧ remaining ≠ 0 ∧ source.reaches mode ∧
        e.embedded mode remaining chain name = (do
          let text ← fetch source chain name
          e.compileNamed name text) := by
  rw [embedded_eq, letIn]
  rcases e.source with _ | source
  · exact .inl ⟨_, rfl⟩
  dsimp only
  by_cases hchain : name ∈ chain
  · rw [if_pos hchain]
    exact .inl ⟨_, rfl⟩
  by_cases hzero : remaining = 0
  · rw [if_neg hchain, if_pos hzero]
    exact .inl ⟨_, rfl⟩
  rw [if_neg hchain, if_neg hzero, pure_bind]
  by_cases hreach : source.reaches mode
  · rw [if_pos hreach]
    exact .inr ⟨source, rfl, hchain, hzero, hreach, rfl⟩
  · rw [if_neg hreach]
    exact .inl ⟨_, rfl⟩

/-- The tree to embed under a name inside the templates of a chain, or why there is none: without
regard to any cache. -/
def opened (mode : Mode) (remaining : Nat) (chain : Chain) (name : String) : Except Failure Tree :=
  match e.source with
  | none => .error (.embedding (.noSource name))
  | some source =>
    if name ∈ chain then .error (.embedding (.cycle name (chain ++ [name])))
    else if remaining = 0 then
      .error (.embedding (.tooDeep e.settings.maxDepth (chain ++ [name])))
    else if source.reaches mode then
      match (source.fetch name).2 with
      | .ok text => (Curly.compile text name e.settings.dropGaps).mapError .badTemplate
      | .error failure => .error failure
    else .error (.embedding (.deferred name))

theorem opened_zero (mode : Mode) (chain : Chain) (name : String) :
    ∃ failure, e.opened mode 0 chain name = .error failure := by
  unfold opened
  split
  · exact ⟨_, rfl⟩
  · split
    · exact ⟨_, rfl⟩
    · exact ⟨_, rfl⟩

theorem exec_embedded (mode : Mode) (remaining : Nat) (chain : Chain) (name : String) {j : Journal}
    (hj : j.Honest e.settings.dropGaps) :
    (Run.exec (e.embedded mode remaining chain name) j).1 = e.opened mode remaining chain name ∧
      (Run.exec (e.embedded mode remaining chain name) j).2.Honest e.settings.dropGaps := by
  rw [embedded_eq, letIn, opened]
  rcases e.source with _ | source
  · exact ⟨rfl, hj⟩
  -- a name that is refused leaves the journal as it is
  · by_cases hname : name ∈ chain
    · simp only [hname, if_true]
      exact ⟨rfl, hj⟩
    · by_cases hzero : remaining = 0
      · simp only [hname, hzero, if_true, if_false]
        exact ⟨rfl, hj⟩
      · by_cases hreach : source.reaches mode
        · simp only [hname, hzero, hreach, if_true, if_false, pure_bind, Run.exec_bind, exec_fetch]
          rcases (source.fetch name).2 with failure | text
          · exact ⟨rfl, hj.congr rfl⟩
          · exact e.exec_compileNamed name text (hj.congr rfl)
        · simp only [hname, hzero, hreach, if_false, pure_bind]
          exact ⟨rfl, hj⟩

theorem exec_render (mode : Mode) (template : Compiled) (s : Scope) (j : Journal) :
    Run.exec (e.render mode template s) j =
      ((Run.exec (e.fragments mode template s) j).1.map printPage,
        (Run.exec (e.fragments mode template s) j).2) := by
  rw [render_eq, Run.exec_bind]
  rcases Run.exec (e.fragments mode template s) j with ⟨_ | _, _⟩
  · rfl
  · rfl

/-- Work that is recovered from never fails. -/
theorem exec_recover (name : String) (work : Run (List Fragment)) (j : Journal) :
    Run.exec (recover name work) j = match work.exec j with
      | (.ok fs, k) => (.ok fs, k)
      | (.error failure, k) =>
        (.ok [.marker name],
          { k with notices := k.notices ++ [.embedFailed name failure.message] }) := by
  rw [recover, Run.exec_tryCatch]
  rcases work.exec j with ⟨failure | fs, k⟩
  · rfl
  · rfl

section Embed

variable {mode : Mode} {remaining : Nat} {chain : Chain} {name : String}

/-- A name that cannot be opened gives a marker and a notice, and nothing is done after that. -/
theorem exec_embed_eq_of_error {failure : Failure} (s : Scope) {j : Journal}
    (hj : j.Honest e.settings.dropGaps)
    (h : e.opened mode remaining chain name = .error failure) :
    Run.exec (e.embed mode remaining chain s name) j = (.ok [.marker name],
      (Run.exec (e.embedded mode remaining chain name) j).2.noting
        [.embedFailed name failure.message]) := by
  have hresult := (e.exec_embedded mode remaining chain name hj).1
  rw [h] at hresult
  rcases hexec : Run.exec (e.embedded mode remaining chain name) j with ⟨result, k⟩
  rw [hexec] at hresult
  cases hresult
  cases remaining with
  | zero =>
    rw [embed_zero, exec_recover, Run.exec_bind, hexec]
    rfl
  | succ remaining =>
    rw [embed_succ, exec_recover, Run.exec_bind, hexec]
    rfl

/-- A name that can be opened is opened, and its tree is rendered one level further down. -/
theorem exec_embed_eq_of_ok {below : Nat} {tree : Tree} (s : Scope) {j : Journal}
    (hj : j.Honest e.settings.dropGaps)
    (h : e.opened mode (below + 1) chain name = .ok tree) :
    Run.exec (e.embed mode (below + 1) chain s name) j =
      Run.exec (recover name (Tree.render (e.embed mode below (chain ++ [name])) s tree))
        (Run.exec (e.embedded mode (below + 1) chain name) j).2 := by
  have hresult := (e.exec_embedded mode (below + 1) chain name hj).1
  rw [h] at hresult
  rcases hexec : Run.exec (e.embedded mode (below + 1) chain name) j with ⟨result, k⟩
  rw [hexec] at hresult
  cases hresult
  rw [embed_succ, exec_recover, exec_recover, Run.exec_bind, hexec]

/-- A name that cannot be opened gives a marker. -/
theorem exec_embed_of_error {failure : Failure} (s : Scope) {j : Journal}
    (hj : j.Honest e.settings.dropGaps)
    (h : e.opened mode remaining chain name = .error failure) :
    ∃ k, k.Honest e.settings.dropGaps ∧
      Run.exec (e.embed mode remaining chain s name) j = (.ok [.marker name], k) := by
  refine ⟨_, ?_, e.exec_embed_eq_of_error s hj h⟩
  exact (e.exec_embedded mode remaining chain name hj).2.congr rfl

/-- A name that can be opened gives what its tree is rendered to one level further down. -/
theorem exec_embed_of_ok {tree : Tree} (s : Scope) {j : Journal}
    (hj : j.Honest e.settings.dropGaps)
    (h : e.opened mode remaining chain name = .ok tree) :
    ∃ below k, remaining = below + 1 ∧ k.Honest e.settings.dropGaps ∧
      Run.exec (e.embed mode remaining chain s name) j =
        Run.exec (recover name (Tree.render (e.embed mode below (chain ++ [name])) s tree)) k := by
  cases remaining with
  | zero =>
    rcases e.opened_zero mode chain name with ⟨failure, hfailure⟩
    rw [h] at hfailure
    cases hfailure
  | succ below =>
    exact ⟨below, _, rfl, (e.exec_embedded mode (below + 1) chain name hj).2,
      e.exec_embed_eq_of_ok s hj h⟩

end Embed

end Engine

end Curly
