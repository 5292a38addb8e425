import Curly.Proofs.Provenance

/-!
# The guard on embedding

A template is embedded only if it is not being rendered already and not too many are. The guard looks
at the chain of the names being rendered (`Engine.admitted`), while `Engine.embed` counts down what
is left of the limit. The two are one (`Engine.embed_depthLeft`), and from the guard alone it follows
that rendering ends, whatever the source gives: a chain that the guard lets grow cannot grow for
ever (`Engine.enters_wellFounded`), so there is only one way to embed templates that follows the
guard (`Engine.IsEmbedding.unique`). What a rendering asks its source for is well nested
(`Requests`): no name is asked for inside its own template, and none too deep.
-/

namespace Curly

/-! ## Requests inside one another -/

/-- The requests made inside the templates of a chain, in order. Each is for a template that is not
being rendered, while no more than `limit` are; right after it come the requests made inside the
template that it is for. -/
inductive Requests (limit : Int) : Chain → List Load → Prop where
  | nil {chain : Chain} : Requests limit chain []
  | cons {chain : Chain} {name : String} {inner rest : List Load} :
      name ∉ chain → (chain.length : Int) ≤ limit → Requests limit (chain ++ [name]) inner →
      Requests limit chain rest → Requests limit chain (⟨chain, name⟩ :: (inner ++ rest))

namespace Requests

variable {limit : Int} {chain : Chain} {loads more : List Load}

theorem append (h : Requests limit chain loads) (hmore : Requests limit chain more) :
    Requests limit chain (loads ++ more) := by
  induction h with
  | nil => exact hmore
  | cons hname hdepth hinner _ _ ih =>
    rw [List.cons_append, List.append_assoc]
    exact .cons hname hdepth hinner (ih hmore)

/-- No template is asked for while it is being rendered. -/
theorem nodup (h : Requests limit chain loads) (hchain : chain.Nodup) :
    ∀ load ∈ loads, (load.chain ++ [load.name]).Nodup := by
  induction h with
  | nil =>
    intro load hload
    cases hload
  | @cons chain name inner rest hname _ _ _ ihinner ihrest =>
    have hlonger : (chain ++ [name]).Nodup :=
      List.nodup_append.mpr ⟨hchain, List.nodup_cons.mpr ⟨List.not_mem_nil, List.nodup_nil⟩, by
        intro outer houter other hother heq
        rw [heq, List.mem_singleton.mp hother] at houter
        exact hname houter⟩
    intro load hload
    rcases List.mem_cons.mp hload with rfl | hload
    · exact hlonger
    · rcases List.mem_append.mp hload with hload | hload
      · exact ihinner hlonger load hload
      · exact ihrest hchain load hload

/-- No template is asked for inside more templates than the limit. -/
theorem depth_le (h : Requests limit chain loads) :
    ∀ load ∈ loads, (load.chain.length : Int) ≤ limit := by
  induction h with
  | nil =>
    intro load hload
    cases hload
  | cons _ hdepth _ _ ihinner ihrest =>
    intro load hload
    rcases List.mem_cons.mp hload with rfl | hload
    · exact hdepth
    · rcases List.mem_append.mp hload with hload | hload
      · exact ihinner load hload
      · exact ihrest load hload

end Requests

/-- Work whose requests, in order, are in `P`, whatever the journal is. -/
def Run.Asks {α : Type} (P : List Load → Prop) (work : Run α) : Prop :=
  ∀ j, ∃ loads, (work.exec j).2.loads = j.loads ++ loads ∧ P loads

/-- What follows a run matters only for the results that the run can give. -/
theorem Run.bind_congr_of_exec {α β : Type} {work : Run α} {next next' : α → Run β}
    (h : ∀ j a k, Run.exec work j = (.ok a, k) → next a = next' a) :
    work >>= next = work >>= next' := by
  have hexec : ∀ j, Run.exec (work >>= next) j = Run.exec (work >>= next') j := by
    intro j
    rw [Run.exec_bind, Run.exec_bind]
    rcases hwork : work.exec j with ⟨failure | a, k⟩
    · rfl
    · exact congrArg (Run.exec · k) (h j a k hwork)
  exact funext hexec

/-- A tree asks for what the templates embedded in it ask for. -/
theorem Tree.render_asks {limit : Int} {chain : Chain} {t : Tree}
    {embed : Scope → String → Run (List Fragment)}
    (hembed : ∀ s name, Run.Asks (Requests limit chain) (embed s name)) (s : Scope) :
    Run.Asks (Requests limit chain) (Tree.render embed s t) := by
  intro j
  let J : Journal → Prop := fun k => ∃ loads, k.loads = j.loads ++ loads ∧ Requests limit chain loads
  have hensures : Run.Ensures J (fun fs => ∀ f ∈ fs, True) (Tree.render embed s t) := by
    refine Tree.render_ensures (fun _ _ hk => hk) (fun _ _ _ _ _ _ _ _ => trivial) ?_ s
    rintro name - u k ⟨loads, hk, hloads⟩
    rcases hembed u name k with ⟨more, hmore, hrequests⟩
    refine ⟨fun _ _ _ _ => trivial, loads ++ more, ?_, hloads.append hrequests⟩
    rw [hmore, hk, List.append_assoc]
  exact (hensures j ⟨[], (List.append_nil _).symm, .nil⟩).2

namespace Engine

variable (e : Engine) (mode : Mode)

/-! ## The guard -/

/-- The tree to embed under a name inside the templates of a chain: refused if the name is on the
chain, or if the chain is longer than the limit. -/
def admitted (chain : Chain) (name : String) : Run Tree := do
  match e.source with
  | none => throw (.embedding (.noSource name))
  | some source =>
    if name ∈ chain then throw (.embedding (.cycle name (chain ++ [name])))
    else if e.settings.maxDepth < chain.length then
      throw (.embedding (.tooDeep e.settings.maxDepth (chain ++ [name])))
    else if source.reaches mode then
      let text ← fetch source chain name
      e.compileNamed name text
    else throw (.embedding (.deferred name))

/-- How many templates may still be embedded in one another inside those of a chain. -/
def depthLeft (chain : Chain) : Nat := (e.settings.maxDepth + 1 - chain.length).toNat

theorem depthLeft_eq_zero {chain : Chain} :
    e.depthLeft chain = 0 ↔ e.settings.maxDepth < chain.length := by
  rw [depthLeft]
  omega

theorem depthLeft_append {chain : Chain} {below : Nat} (h : e.depthLeft chain = below + 1)
    (name : String) : e.depthLeft (chain ++ [name]) = below := by
  rw [depthLeft] at h ⊢
  rw [List.length_append, List.length_singleton]
  omega

/-- Counting down from the limit refuses the same chains as measuring them. -/
theorem embedded_depthLeft (chain : Chain) (name : String) :
    e.embedded mode (e.depthLeft chain) chain name = e.admitted mode chain name := by
  rw [embedded_eq, letIn, admitted]
  rcases e.source with _ | source
  · rfl
  · simp only [e.depthLeft_eq_zero]
    split
    · rfl
    · split
      · rfl
      · rfl

theorem compileNamed_loads (name text : String) (j : Journal) :
    (Run.exec (e.compileNamed name text) j).2.loads = j.loads := by
  rcases hc : j.cache with _ | c
  · rw [e.exec_compileNamed_of_none name text hc, compile]
    rcases Curly.compile text name e.settings.dropGaps with error | tree
    · rfl
    · rfl
  · rcases hget : c.get? name text with _ | tree
    · rw [e.exec_compileNamed_of_miss hc hget]
      rcases Curly.compile text name e.settings.dropGaps with error | tree
      · rfl
      · rfl
    · rw [e.exec_compileNamed_of_hit hc hget]

/-- A name is refused with nothing asked for, or it is asked for in its chain and nothing else is. -/
theorem exec_admitted (chain : Chain) (name : String) (j : Journal) :
    (∃ failure, Run.exec (e.admitted mode chain name) j = (.error failure, j)) ∨
      (name ∉ chain ∧ (chain.length : Int) ≤ e.settings.maxDepth ∧
        (Run.exec (e.admitted mode chain name) j).2.loads = j.loads ++ [⟨chain, name⟩]) := by
  rw [← e.embedded_depthLeft mode chain name]
  rcases e.embedded_cases mode (e.depthLeft chain) chain name with
    ⟨failure, heq⟩ | ⟨source, -, hname, hzero, -, heq⟩
  · exact .inl ⟨failure, by rw [heq, Run.exec_throw]⟩
  · have hdepth : (chain.length : Int) ≤ e.settings.maxDepth :=
      Int.not_lt.mp fun hlt => hzero (e.depthLeft_eq_zero.mpr hlt)
    refine .inr ⟨hname, hdepth, ?_⟩
    rw [heq, Run.exec_bind, exec_fetch]
    rcases (source.fetch name).2 with failure | text
    · rfl
    · exact e.compileNamed_loads name text _

/-! ## Chains that grow -/

/-- A chain grows by a name that the guard lets through, in some state of the work: the template of
the name is rendered, with the longer chain, inside the templates of the shorter one. -/
def Enters (inner outer : Chain) : Prop :=
  ∃ name j tree k, inner = outer ++ [name] ∧ Run.exec (e.admitted mode outer name) j = (.ok tree, k)

/-- No chain grows for ever, whatever the source gives. -/
theorem enters_wellFounded : WellFounded (e.Enters mode) := by
  refine Subrelation.wf ?_ (measure e.depthLeft).wf
  rintro _ outer ⟨name, j, tree, k, rfl, hexec⟩
  have hleft : e.depthLeft outer ≠ 0 := by
    rcases e.exec_admitted mode outer name j with ⟨failure, hrefused⟩ | ⟨-, hdepth, -⟩
    · rw [hexec] at hrefused
      cases hrefused
    · intro hzero
      exact Int.not_le.mpr (e.depthLeft_eq_zero.mp hzero) hdepth
  rcases Nat.exists_eq_succ_of_ne_zero hleft with ⟨below, hbelow⟩
  change e.depthLeft (outer ++ [name]) < e.depthLeft outer
  rw [e.depthLeft_append hbelow name, hbelow]
  exact Nat.lt_succ_self below

/-- A way to embed templates that follows the guard: the template of a name that is let through is
rendered with the name at the end of the chain, and any failure leaves a marker. -/
def IsEmbedding (embed : Chain → Scope → String → Run (List Fragment)) : Prop :=
  ∀ chain s name, embed chain s name = recover name do
    let tree ← e.admitted mode chain name
    Tree.render (embed (chain ++ [name])) s tree

/-- There is no more than one way to embed templates that follows the guard. -/
theorem IsEmbedding.unique {e : Engine} {mode : Mode}
    {embed embed' : Chain → Scope → String → Run (List Fragment)}
    (h : e.IsEmbedding mode embed) (h' : e.IsEmbedding mode embed') : embed' = embed := by
  funext chain
  -- the templates inside are embedded with a longer chain, and chains do not grow for ever
  induction chain using (e.enters_wellFounded mode).induction with
  | _ chain ih =>
    funext s name
    rw [h chain s name, h' chain s name]
    refine congrArg (recover name) (Run.bind_congr_of_exec ?_)
    intro j tree k hexec
    rw [ih (chain ++ [name]) ⟨name, j, tree, k, rfl, hexec⟩]

/-- Counting down from the limit is a way to embed templates that follows the guard. -/
theorem embed_depthLeft :
    e.IsEmbedding mode fun chain => e.embed mode (e.depthLeft chain) chain := by
  intro chain s name
  change e.embed mode (e.depthLeft chain) chain s name = recover name do
    let tree ← e.admitted mode chain name
    Tree.render (e.embed mode (e.depthLeft (chain ++ [name])) (chain ++ [name])) s tree
  rw [← e.embedded_depthLeft mode chain name]
  rcases hleft : e.depthLeft chain with _ | below
  · -- nothing is left, so each name is refused
    rw [embed_zero]
    rcases e.embedded_cases mode 0 chain name with ⟨failure, heq⟩ | ⟨_, _, _, hzero, _⟩
    · rw [heq]
      rfl
    · exact (hzero rfl).elim
  · rw [embed_succ, e.depthLeft_append hleft name]

theorem depthLeft_rootChain (name : String) :
    e.depthLeft (rootChain name) = e.settings.maxDepth.toNat := by
  have hlength : (rootChain name).length = 1 := rfl
  rw [depthLeft, hlength]
  omega

/-! ## What a rendering asks for -/

theorem nodup_rootChain (name : String) : (rootChain name).Nodup := by
  rw [rootChain]
  exact List.nodup_cons.mpr ⟨List.not_mem_nil, List.nodup_nil⟩

/-- A failure that is recovered from takes back nothing that was asked for. -/
theorem recover_loads (name : String) (work : Run (List Fragment)) (j : Journal) :
    (Run.exec (recover name work) j).2.loads = (work.exec j).2.loads := by
  rw [exec_recover]
  rcases work.exec j with ⟨failure | fs, k⟩
  · rfl
  · rfl

/-- What is asked for to embed a template is well nested inside the chain. -/
theorem IsEmbedding.asks {e : Engine} {mode : Mode}
    {embed : Chain → Scope → String → Run (List Fragment)} (h : e.IsEmbedding mode embed)
    (chain : Chain) (s : Scope) (name : String) :
    Run.Asks (Requests e.settings.maxDepth chain) (embed chain s name) := by
  induction chain using (e.enters_wellFounded mode).induction generalizing s name with
  | _ chain ih =>
    intro j
    rw [h chain s name, recover_loads, Run.exec_bind]
    rcases e.exec_admitted mode chain name j with ⟨failure, hexec⟩ | ⟨hname, hdepth, hloads⟩
    · rw [hexec]
      exact ⟨[], (List.append_nil _).symm, .nil⟩
    · rcases hexec : Run.exec (e.admitted mode chain name) j with ⟨failure | tree, k⟩
      · rw [hexec] at hloads
        exact ⟨[⟨chain, name⟩], hloads, .cons hname hdepth .nil .nil⟩
      -- a template that is let in lengthens the chain, which is what the induction goes by
      · rw [hexec] at hloads
        have hbody : Run.Asks (Requests e.settings.maxDepth (chain ++ [name]))
            (Tree.render (embed (chain ++ [name])) s tree) := by
          refine Tree.render_asks ?_ s
          intro u inner
          exact ih (chain ++ [name]) ⟨name, j, tree, k, rfl, hexec⟩ u inner
        rcases hbody k with ⟨inner, hinner, hrequests⟩
        refine ⟨⟨chain, name⟩ :: (inner ++ []), ?_, .cons hname hdepth hrequests .nil⟩
        calc (Run.exec (Tree.render (embed (chain ++ [name])) s tree) k).2.loads
          _ = k.loads ++ inner := hinner
          _ = j.loads ++ ⟨chain, name⟩ :: (inner ++ []) := by
            rw [hloads, List.append_nil, List.append_assoc, List.singleton_append]

/-- Rendering ends, whatever the source gives and the limit is: a chain that the guard lets grow
does not grow for ever, and there is exactly one way to embed templates that follows the guard, which
is what a rendering does. What a rendering asks its source for is well nested, so that whenever it
asks for a name, the names of the templates being rendered and that name are all different, and there
are no more such templates than the limit. -/
theorem rendering_guarded :
    WellFounded (e.Enters mode) ∧
      ∃ embed, e.IsEmbedding mode embed ∧ (∀ embed', e.IsEmbedding mode embed' → embed' = embed) ∧
        ∀ template s j,
          e.fragments mode template s =
            Tree.render (embed (rootChain template.name)) s template.tree ∧
          ∃ loads, (Run.exec (e.render mode template s) j).2.loads = j.loads ++ loads ∧
            Requests e.settings.maxDepth (rootChain template.name) loads ∧
            ∀ load ∈ loads, (load.chain ++ [load.name]).Nodup ∧
              (load.chain.length : Int) ≤ e.settings.maxDepth := by
  have hembedding := e.embed_depthLeft mode
  refine ⟨e.enters_wellFounded mode, _, hembedding, fun _ h => hembedding.unique h, ?_⟩
  intro template s j
  have hfragments : e.fragments mode template s = Tree.render
      (e.embed mode (e.depthLeft (rootChain template.name)) (rootChain template.name)) s
      template.tree := by
    rw [fragments_eq, e.depthLeft_rootChain]
  refine ⟨hfragments, ?_⟩
  -- what is asked for is told by induction over the chains that can be entered
  have hasks : Run.Asks (Requests e.settings.maxDepth (rootChain template.name))
      (e.fragments mode template s) := by
    rw [hfragments]
    exact Tree.render_asks (fun u name => hembedding.asks (rootChain template.name) u name) s
  rcases hasks j with ⟨loads, hloads, hrequests⟩
  refine ⟨loads, ?_, hrequests, ?_⟩
  · rw [render_eq, Run.exec_bind]
    rcases hexec : Run.exec (e.fragments mode template s) j with ⟨failure | fs, k⟩
    · rw [hexec] at hloads
      exact hloads
    · rw [hexec] at hloads
      exact hloads
  · intro load hload
    exact ⟨hrequests.nodup (nodup_rootChain template.name) load hload,
      hrequests.depth_le load hload⟩

end Engine

end Curly
