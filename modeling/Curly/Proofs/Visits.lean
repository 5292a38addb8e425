import Curly.Proofs.Interpolation
import Curly.Proofs.Waiting

/-!
# What a rendering visits

A rendering goes on where something is amiss: it leaves out a part of the page and reports it. What
it comes by is a list of visits in the order in which they are made (`Engine.visited`): nodes in
scopes, and names of templates that are refused. A visit loses something or not (`Visit.Loses`), and
has one report if it does and none otherwise (`Visit.report?`). Where all that the rendering comes to
can be done, in the template and in those that it embeds, nothing else is reported, nothing is reported
out of turn, and the errors go with the markers of the page one by one (`Engine.fragments_reported`). An
embedded template that fails half-way is another matter: it takes back its markers, but not its reports
(`Engine.fragments_ones`).
-/

namespace Curly

/-! ## Visits -/

/-- What a rendering comes by: a node in a scope, or a template that is refused when it is to be
embedded. -/
inductive Visit where
  | node (s : Scope) (n : Node)
  | refusal (name : String) (failure : Failure)

/-- A part of the page is left out at a visit, and a notice tells of it: a branch that an invalid
condition decides about, a loop over nothing or over what is no list, a value that JSON cannot
write, a node of no known kind, or an embedded template. -/
inductive Visit.Loses : Visit → Notice → Prop where
  | invalid {s : Scope} {condition text reason : String} {body : List Node}
      {other : Option (List Node)} :
      Loses (.node s (.cond condition (.invalid text reason) body other))
        (.invalidCondition text reason)
  | undefined {s : Scope} {collection item index : String} {body : List Node} :
      s.value collection = .ok none →
      Loses (.node s (.each collection item index body)) (.undefinedCollection collection)
  | noList {s : Scope} {collection item index : String} {body : List Node} {v : Value} :
      s.value collection = .ok (some v) → v.items? = none →
      Loses (.node s (.each collection item index body)) (.notACollection collection v.typeName)
  | notJson {s : Scope} {path : String} {v : Value} {fault : Json.Fault} :
      s.value path = .ok (some v) → Json.scriptSafe v = .error fault →
      Loses (.node s (.json path)) (.notJson path fault.message)
  | bare {s : Scope} : Loses (.node s .bare) .bareNode
  | refusal {name : String} {failure : Failure} :
      Loses (.refusal name failure) (.embedFailed name failure.message)

/-- What is reported of a node in a scope. -/
def Node.report? (s : Scope) : Node → Option Notice
  | .cond _ (.invalid given reason) _ _ => some (.invalidCondition given reason)
  | .each collection _ _ _ =>
    match s.value collection with
    | .ok none => some (.undefinedCollection collection)
    | .ok (some v) => if v.items? = none then some (.notACollection collection v.typeName) else none
    | .error _ => none
  | .json path =>
    match s.value path with
    | .ok (some v) =>
      match Json.scriptSafe v with
      | .error fault => some (.notJson path fault.message)
      | .ok _ => none
    | _ => none
  | .bare => some .bareNode
  | _ => none

/-- What is reported of a visit. -/
def Visit.report? : Visit → Option Notice
  | .node s n => n.report? s
  | .refusal name failure => some (.embedFailed name failure.message)

/-- The name of a template that is refused at a visit. -/
def Visit.refused? : Visit → Option String
  | .node .. => none
  | .refusal name _ => some name

/-- The name of the template that an error is about. -/
def Notice.failed? : Notice → Option String
  | .embedFailed name _ => some name
  | _ => none

/-- The name of the template that a marker stands for. -/
def Fragment.marked? : Fragment → Option String
  | .marker name => some name
  | _ => none

mutual

/-- What is visited at a node, where `embed` tells what is visited when a name is embedded. -/
def Node.visits (embed : Scope → String → List Visit) (s : Scope) : Node → List Visit
  | .embed name => embed s name
  | .cond condition test body otherwise =>
    .node s (.cond condition test body otherwise) ::
      match test.holds s with
      | .ok true => Tree.visits embed s body
      | _ => match otherwise with
        | some nodes => Tree.visits embed s nodes
        | none => []
  | .each collection item index body =>
    .node s (.each collection item index body) ::
      match s.value collection with
      | .ok (some v) => (v.items?.getD []).zipIdx.flatMap fun (x, k) =>
        Tree.visits embed (s.push (loopBindings item index k x)) body
      | _ => []
  | n => [.node s n]

/-- What is visited in a tree: what is at its nodes, in order. -/
def Tree.visits (embed : Scope → String → List Visit) (s : Scope) : List Node → List Visit
  | [] => []
  | n :: rest => n.visits embed s ++ Tree.visits embed s rest

end

namespace Engine

/-- What is visited when a name is embedded: the name alone if it is refused, and else the node and
what is visited in its tree, where one template less may be embedded. -/
def visits (e : Engine) (mode : Mode) : Nat → Chain → Scope → String → List Visit
  | 0, chain, s, name =>
    match e.opened mode 0 chain name with
    | .error failure => [.refusal name failure]
    | .ok _ => [.node s (.embed name)]
  | below + 1, chain, s, name =>
    match e.opened mode (below + 1) chain name with
    | .error failure => [.refusal name failure]
    | .ok tree =>
      .node s (.embed name) :: Tree.visits (e.visits mode below (chain ++ [name])) s tree

/-- What is visited when a template is rendered. -/
def visited (e : Engine) (mode : Mode) (template : Compiled) (s : Scope) : List Visit :=
  Tree.visits (e.visits mode e.settings.maxDepth.toNat (rootChain template.name)) s template.tree

/-- What is to be reported when a template is rendered. -/
def reports (e : Engine) (mode : Mode) (template : Compiled) (s : Scope) : List Notice :=
  (e.visited mode template s).filterMap Visit.report?

end Engine

/-! ## Reports -/

namespace Visit

/-- A visit is reported exactly if something is lost at it. -/
theorem report?_eq_some_iff {visit : Visit} {n : Notice} :
    visit.report? = some n ↔ visit.Loses n := by
  constructor
  · intro h
    cases visit with
    | refusal =>
      cases h
      exact .refusal
    | node s node =>
      cases node with
      | text => cases h
      | value => cases h
      | html => cases h
      | embed => cases h
      | bare =>
        cases h
        exact .bare
      | cond _ test _ _ =>
        cases test with
        | path => cases h
        | negated => cases h
        | invalid =>
          cases h
          exact .invalid
      -- a loop and a script look their path up, and lose what is there only if it is of no use to
      -- them
      | each collection _ _ _ =>
        rw [report?, Node.report?] at h
        rcases hvalue : s.value collection with fault | _ | v
        · rw [hvalue] at h
          cases h
        · rw [hvalue] at h
          cases h
          exact .undefined hvalue
        · rw [hvalue] at h
          dsimp only at h
          split at h
          · next hitems =>
            cases h
            exact .noList hvalue hitems
          · cases h
      | json path =>
        rw [report?, Node.report?] at h
        rcases hvalue : s.value path with fault | _ | v
        · rw [hvalue] at h
          cases h
        · rw [hvalue] at h
          cases h
        · rw [hvalue] at h
          dsimp only at h
          rcases hjson : Json.scriptSafe v with fault | text
          · rw [hjson] at h
            cases h
            exact .notJson hvalue hjson
          · rw [hjson] at h
            cases h
  · intro h
    cases h with
    | invalid => rfl
    | undefined hvalue => simp [report?, Node.report?, hvalue]
    | noList hvalue hitems => simp [report?, Node.report?, hvalue, hitems]
    | notJson hvalue hjson => simp [report?, Node.report?, hvalue, hjson]
    | bare => rfl
    | refusal => rfl

/-- A refusal is reported as an error, and any other loss as a warning. -/
theorem Loses.level_eq {visit : Visit} {n : Notice} (h : visit.Loses n) :
    n.level = if visit.refused? = none then .warning else .error := by
  cases h with
  | refusal => rfl
  | _ => rfl

theorem Loses.rank_le {visit : Visit} {n : Notice} (h : visit.Loses n) :
    Level.warning.rank ≤ n.level.rank := by
  rw [h.level_eq]
  split
  · decide
  · decide

/-- What is reported of a visit names the template that is refused at it, if one is. -/
theorem Loses.failed?_eq {visit : Visit} {n : Notice} (h : visit.Loses n) :
    n.failed? = visit.refused? := by
  cases h with
  | refusal => rfl
  | _ => rfl

theorem bind_failed? (visit : Visit) : visit.report?.bind Notice.failed? = visit.refused? := by
  rcases h : visit.report? with _ | n
  · cases visit with
    | refusal => cases h
    | node => rfl
  · exact (report?_eq_some_iff.mp h).failed?_eq

end Visit

/-- Errors are what is reported of templates that are not embedded. -/
theorem Notice.level_eq_error_iff (n : Notice) : n.level = .error ↔ n.failed?.isSome := by
  cases n <;> simp [level, failed?]

/-- The errors among some notices are those that name a template. -/
theorem map_failed?_errors (ns : List Notice) :
    (ns.filter (·.level = .error)).map Notice.failed? = (ns.filterMap Notice.failed?).map some := by
  induction ns with
  | nil => rfl
  | cons n rest ih =>
    rcases hname : n.failed? with _ | name
    · have hlevel : ¬ n.level = .error := by
        rw [n.level_eq_error_iff, hname]
        exact Bool.false_ne_true
      rw [List.filterMap_cons_none hname, List.filter_cons_of_neg (by simpa using hlevel), ih]
    · have hlevel : n.level = .error := n.level_eq_error_iff.mpr (hname ▸ rfl)
      rw [List.filterMap_cons_some hname, List.filter_cons_of_pos (by simpa using hlevel),
        List.map_cons, List.map_cons, ih, hname]

/-! ## What visits leave behind -/

/-- Work that always gives fragments: it reports its visits and nothing else, and has a marker for
each refusal among them and no other. -/
def Run.Reports (dropGaps : Bool) (work : Run (List Fragment)) (visits : List Visit) : Prop :=
  ∀ j : Journal, j.Honest dropGaps → ∃ fs k, work.exec j = (.ok fs, k) ∧ k.Honest dropGaps ∧
    k.warnings = j.warnings ++ visits.filterMap Visit.report? ∧
    fs.filterMap Fragment.marked? = visits.filterMap Visit.refused?

namespace Run.Reports

variable {dropGaps : Bool} {work work' : Run (List Fragment)} {visits visits' : List Visit}

theorem congr (h : Run.Reports dropGaps work visits) (hexec : ∀ j, work'.exec j = work.exec j) :
    Run.Reports dropGaps work' visits := by
  intro j hj
  rw [hexec]
  exact h j hj

theorem pure {fs : List Fragment} (hfs : fs.filterMap Fragment.marked? = []) :
    Run.Reports dropGaps (Pure.pure fs) [] := by
  intro j hj
  exact ⟨fs, j, rfl, hj, (List.append_nil _).symm, hfs⟩

theorem append (h : Run.Reports dropGaps work visits) (h' : Run.Reports dropGaps work' visits') :
    Run.Reports dropGaps (do
      let first ← work
      return first ++ (← work')) (visits ++ visits') := by
  intro j hj
  rcases h j hj with ⟨fs, k, hexec, hk, hwarnings, hmarked⟩
  rcases h' k hk with ⟨fs', k', hexec', hk', hwarnings', hmarked'⟩
  refine ⟨fs ++ fs', k', ?_, hk', ?_, ?_⟩
  · rw [Run.exec_bind, hexec]
    dsimp only
    rw [Run.exec_bind, hexec']
    rfl
  · rw [hwarnings', hwarnings, List.filterMap_append, List.append_assoc]
  · rw [List.filterMap_append, hmarked, hmarked', List.filterMap_append]

variable {s : Scope} {n : Node}

/-- A node at which nothing is lost may be visited without a note. -/
theorem silent (h : Run.Reports dropGaps work visits) (hn : n.report? s = none) :
    Run.Reports dropGaps work (.node s n :: visits) := by
  intro j hj
  have hvisit : (Visit.node s n).report? = none := hn
  rcases h j hj with ⟨fs, k, hexec, hk, hwarnings, hmarked⟩
  refine ⟨fs, k, hexec, hk, ?_, ?_⟩
  · rw [hwarnings, List.filterMap_cons_none hvisit]
  · rw [hmarked, List.filterMap_cons_none rfl]

/-- A node of which the report is noted is visited before what is visited by the work after it. -/
theorem noting (h : Run.Reports dropGaps work visits) {ns : List Notice}
    (hns : ns = (n.report? s).toList) :
    Run.Reports dropGaps (do
      note ns
      work) (.node s n :: visits) := by
  rcases hn : n.report? s with _ | notice
  · rw [hn] at hns
    cases hns
    exact (h.silent hn).congr fun j => congrArg (work.exec ·) j.noting_nil
  · rw [hn] at hns
    cases hns
    intro j hj
    rcases h (j.noting [notice]) (hj.congr rfl) with ⟨fs, k, hexec, hk, hwarnings, hmarked⟩
    refine ⟨fs, k, ?_, hk, ?_, ?_⟩
    · rw [Run.exec_bind, exec_note]
      exact hexec
    · have hvisit : (Visit.node s n).report? = some notice := hn
      have hnoted : [notice].filter (fun n => Level.warning.rank ≤ n.level.rank) = [notice] := by
        simpa using (Visit.report?_eq_some_iff.mp hvisit).rank_le
      rw [hwarnings, Journal.warnings_noting, hnoted, List.filterMap_cons_some hvisit,
        List.append_assoc]
      rfl
    · rw [hmarked, List.filterMap_cons_none rfl]

end Run.Reports

/-- The passes of a loop are visited one after another. -/
theorem Run.Reports.items {dropGaps : Bool} {body : Nat → Value → Run (List Fragment)}
    {visits : Value × Nat → List Visit} {items : List Value} {k : Nat}
    (h : ∀ i x, items[i]? = some x →
      Run.Reports dropGaps (body (k + i) x) (visits (x, k + i))) :
    Run.Reports dropGaps (renderItems body k items) ((items.zipIdx k).flatMap visits) := by
  induction items generalizing k with
  | nil => exact .pure rfl
  | cons x rest ih =>
    have hrest : ∀ i y, rest[i]? = some y →
        Run.Reports dropGaps (body (k + 1 + i) y) (visits (y, k + 1 + i)) := by
      intro i y hy
      rw [Nat.succ_add_eq_add_succ]
      exact h (i + 1) y hy
    rw [List.zipIdx_cons, List.flatMap_cons]
    exact (h 0 x rfl).append (ih hrest)

/-! ## From a node to a tree -/

section Trees

variable {dropGaps : Bool} {embed : Scope → String → Run (List Fragment)}
variable {embedVisits : Scope → String → List Visit} {s : Scope}

@[simp] theorem Tree.visits_nil : Tree.visits embedVisits s [] = [] := by
  rw [Tree.visits]

theorem Tree.visits_cons (n : Node) (rest : Tree) :
    Tree.visits embedVisits s (n :: rest) =
      n.visits embedVisits s ++ Tree.visits embedVisits s rest := by
  rw [Tree.visits]

@[simp] theorem Tree.visits_singleton (n : Node) :
    Tree.visits embedVisits s [n] = n.visits embedVisits s := by
  rw [Tree.visits_cons, Tree.visits_nil, List.append_nil]

theorem Node.visits_cond {condition : String} {test : Condition} {body : Tree}
    {other : Option Tree} {holds : Bool} (h : test.holds s = .ok holds) :
    Node.visits embedVisits s (.cond condition test body other) =
      .node s (.cond condition test body other) ::
        Tree.visits embedVisits s (if holds then body else other.getD []) := by
  cases holds <;> cases other <;> simp [Node.visits, h]

theorem Node.visits_each {collection item index : String} {body : Tree} {found : Option Value}
    (h : s.value collection = .ok found) :
    Node.visits embedVisits s (.each collection item index body) =
      .node s (.each collection item index body) ::
        ((found.bind Value.items?).getD []).zipIdx.flatMap fun (x, k) =>
          Tree.visits embedVisits (s.push (loopBindings item index k x)) body := by
  rcases found with _ | v
  · simp [Node.visits, h]
  · rcases hitems : v.items? with _ | items <;> simp [Node.visits, h, hitems]

/-- What a node without parts notes, when it yields fragments, is what is reported of it, and no marker
is among the fragments. -/
theorem Node.Yields.reports {n : Node} {fs : List Fragment} {ns : List Notice}
    (h : n.Yields s (.ok fs) ns) :
    ns = (n.report? s).toList ∧ fs.filterMap Fragment.marked? = [] := by
  cases h with
  | text => exact ⟨rfl, rfl⟩
  | bare => exact ⟨rfl, rfl⟩
  | noValue => exact ⟨rfl, rfl⟩
  | noHtml => exact ⟨rfl, rfl⟩
  | noJson hvalue => exact ⟨by rw [Node.report?, hvalue]; rfl, rfl⟩
  | value => exact ⟨rfl, rfl⟩
  | html => exact ⟨rfl, rfl⟩
  | json hvalue hjson => exact ⟨by simp [Node.report?, hvalue, hjson], rfl⟩
  | notJson hvalue hjson => exact ⟨by simp [Node.report?, hvalue, hjson], rfl⟩

theorem Node.visits_of_isLeaf {n : Node} (hn : n.IsLeaf) :
    n.visits embedVisits s = [.node s n] := by
  cases n with
  | cond => exact hn.elim
  | each => exact hn.elim
  | embed => exact hn.elim
  | _ => rfl

/-- What is rendered in a tree that completes is what is visited in it, if it is so for the templates
embedded in it. -/
theorem Tree.reports {E : Scope → String → Prop}
    (hembed : ∀ u name, E u name → Run.Reports dropGaps (embed u name) (embedVisits u name))
    {t : Tree} (h : Tree.Completes E s t) :
    Run.Reports dropGaps (Tree.render embed s t) (Tree.visits embedVisits s t) := by
  -- as the visits go, so does the rendering: branches not taken and templates not come to are in
  -- neither
  refine Tree.completes_induct ?nil ?cons ?leaf ?embed ?cond ?each h
  case nil =>
    intro s
    rw [Tree.render_nil, Tree.visits_nil]
    exact .pure rfl
  case cons =>
    intro s n rest hfirst hrest
    rw [Tree.render_singleton, Tree.visits_singleton] at hfirst
    rw [Tree.render_cons, Tree.visits_cons]
    exact hfirst.append hrest
  case leaf =>
    intro s n fs ns hyields hexec hn
    obtain ⟨hns, hfs⟩ := hyields.reports
    rw [Tree.render_singleton, Tree.visits_singleton, Node.visits_of_isLeaf hn]
    exact ((Run.Reports.pure hfs).noting hns).congr fun j => (hexec embed j).trans rfl
  case embed =>
    intro s name hname
    rw [Tree.render_singleton, Tree.visits_singleton, Node.render, Node.visits]
    exact hembed s name hname
  case cond =>
    intro s condition test body other met hmet hbranch
    have hnotices : test.notices = (Node.report? s (.cond condition test body other)).toList := by
      cases test <;> rfl
    rw [Tree.render_singleton, Tree.visits_singleton, Node.render_cond, isMet_eq_pure hmet,
      Node.visits_cond hmet, pure_bind]
    refine .noting ?_ hnotices
    cases met with
    | true => exact hbranch
    | false => exact hbranch
  case each =>
    intro s collection item index body found hfound hpasses
    have hnotices : loopNotices collection found =
        (Node.report? s (.each collection item index body)).toList := by
      rw [Node.report?, hfound]
      rcases found with _ | v
      · rfl
      · rcases hitems : v.items? with _ | items <;> simp [loopNotices, hitems]
    rw [Tree.render_singleton, Tree.visits_singleton, Node.render_each, loopItems_eq hfound,
      Node.visits_each hfound]
    simp only [bind_assoc, pure_bind]
    refine .noting (.items fun k x hx => ?_) hnotices
    rw [Nat.zero_add]
    exact hpasses k x hx

end Trees

/-! ## Embedded templates -/

/-- The source, if there is one, makes no notices of its own. -/
def Engine.Quiet (e : Engine) : Prop :=
  ∀ source, e.source = some source → ∀ name, (source.fetch name).1 = []

namespace Engine

variable (e : Engine)

/-- What is told of a template that is compiled is below a warning. -/
theorem warnings_compileNamed (name text : String) (j : Journal) :
    (Run.exec (e.compileNamed name text) j).2.warnings = j.warnings := by
  have hcompiled : ∀ k : Journal, ∀ ns : List Notice, k.notices = j.notices ++ ns →
      (∀ n ∈ ns, n.level = .debug) → k.warnings = j.warnings := by
    intro k ns hk hns
    rw [Journal.warnings, Journal.warnings, hk, List.filter_append]
    have hnone : ns.filter (fun n => Level.warning.rank ≤ n.level.rank) = [] := by
      refine List.filter_eq_nil_iff.mpr fun n hn => ?_
      rw [hns n hn]
      decide
    rw [hnone, List.append_nil]
  rcases hc : j.cache with _ | c
  · rw [e.exec_compileNamed_of_none name text hc, compile]
    rcases Curly.compile text name e.settings.dropGaps with error | tree
    · rfl
    · exact hcompiled _ [.compiled name tree.length] rfl (by simp [Notice.level])
  · rcases hget : c.get? name text with _ | tree
    · rw [e.exec_compileNamed_of_miss hc hget]
      rcases Curly.compile text name e.settings.dropGaps with error | tree
      · rfl
      · exact hcompiled _ [.compiled name tree.length, .stored name] rfl (by simp [Notice.level])
    · rw [e.exec_compileNamed_of_hit hc hget]
      rfl

variable {e}

/-- Over a quiet source nothing is reported of a template that is opened or refused. -/
theorem Quiet.warnings_embedded (h : e.Quiet) (mode : Mode) (remaining : Nat) (chain : Chain)
    (name : String) (j : Journal) :
    (Run.exec (e.embedded mode remaining chain name) j).2.warnings = j.warnings := by
  rcases e.embedded_cases mode remaining chain name with
    ⟨failure, hthrow⟩ | ⟨source, hsource, -, -, -, hopen⟩
  · rw [hthrow, Run.exec_throw]
  · rw [hopen, Run.exec_bind, exec_fetch, h source hsource name, List.append_nil]
    rcases (source.fetch name).2 with failure | text
    · rfl
    · exact e.warnings_compileNamed name text _

/-- A name that is refused is visited, and gives its marker. -/
theorem Quiet.reports_of_error (h : e.Quiet) {mode : Mode} {remaining : Nat} {chain : Chain}
    {name : String} {failure : Failure} (s : Scope)
    (hopened : e.opened mode remaining chain name = .error failure) :
    Run.Reports e.settings.dropGaps (e.embed mode remaining chain s name)
      [.refusal name failure] := by
  intro j hj
  refine ⟨_, _, e.exec_embed_eq_of_error s hj hopened, ?_, ?_, rfl⟩
  · exact (e.exec_embedded mode remaining chain name hj).2.congr rfl
  · rw [Journal.warnings_noting, h.warnings_embedded]
    rfl

/-- A name that is embedded is visited, and then its tree, if what is rendered in the tree is. -/
theorem Quiet.reports_of_ok (h : e.Quiet) {mode : Mode} {below : Nat} {chain : Chain}
    {name : String} {tree : Tree} {s : Scope} {visits : List Visit}
    (hopened : e.opened mode (below + 1) chain name = .ok tree)
    (htree : Run.Reports e.settings.dropGaps
      (Tree.render (e.embed mode below (chain ++ [name])) s tree) visits) :
    Run.Reports e.settings.dropGaps (e.embed mode (below + 1) chain s name)
      (.node s (.embed name) :: visits) := by
  refine Run.Reports.silent ?_ rfl
  intro j hj
  rcases htree _ (e.exec_embedded mode (below + 1) chain name hj).2 with
    ⟨fs, k, hexec, hk, hwarnings, hmarked⟩
  refine ⟨fs, k, ?_, hk, ?_, hmarked⟩
  · rw [e.exec_embed_eq_of_ok s hj hopened, exec_recover, hexec]
  · rw [hwarnings, h.warnings_embedded]

/-- Where what stands in the place of a name completes, embedding the name is reported as it is
visited. -/
theorem Quiet.embed_reports (h : e.Quiet) {mode : Mode} {remaining : Nat} {chain : Chain}
    {s : Scope} {name : String}
    (hs : Tree.Completes anyEmbedded s (e.inline mode remaining chain name)) :
    Run.Reports e.settings.dropGaps (e.embed mode remaining chain s name)
      (e.visits mode remaining chain s name) := by
  induction remaining generalizing chain s name with
  | zero =>
    rcases e.opened_zero mode chain name with ⟨failure, hopened⟩
    rw [visits, hopened]
    exact h.reports_of_error s hopened
  | succ below ih =>
    rw [visits]
    rcases hopened : e.opened mode (below + 1) chain name with failure | tree
    · exact h.reports_of_error s hopened
    · rw [inline_of_ok hopened, Tree.completes_expand] at hs
      exact h.reports_of_ok hopened (Tree.reports (fun u inner hinner => ih hinner) hs)

/-- No failure is silent, and none is reported twice. Over a source that makes no notices of its own, a
template of which the expanded tree completes gives a page. What is reported at a warning or above is
what there is to report of the visits, in their order, where each visit at which something is lost has
one report and any other has none. The errors are those of the refusals, and go with the markers of the
page: they name the templates that the markers stand for, in the same order. Where nothing is reported
no marker is on the page and nothing was lost. Over plain data the expanded tree completes if the
numerals in its paths can be read. -/
theorem fragments_reported (h : e.Quiet) (mode : Mode) (template : Compiled) (s : Scope) {j : Journal}
    (hj : j.Honest e.settings.dropGaps) :
    (Tree.Completes anyEmbedded s (e.expanded mode template) →
      ∃ fs k, Run.exec (e.fragments mode template s) j = (.ok fs, k) ∧
        Run.exec (e.render mode template s) j = (.ok (printPage fs), k) ∧
        k.warnings = j.warnings ++ e.reports mode template s ∧
        ((e.reports mode template s).filter (·.level = .error)).map Notice.failed? =
          (fs.filterMap Fragment.marked?).map some ∧
        (∀ visit ∈ e.visited mode template s, ∀ n, visit.report? = some n ↔
          visit.Loses n ∧ n.level = if visit.refused? = none then .warning else .error) ∧
        (e.reports mode template s = [] → fs.filterMap Fragment.marked? = [] ∧
          ∀ visit ∈ e.visited mode template s, ∀ n, ¬ visit.Loses n)) ∧
    (s.Plain → Tree.isReadable (e.expanded mode template) →
      Tree.Completes anyEmbedded s (e.expanded mode template)) := by
  refine ⟨fun hcompletes => ?_, fun hplain hreadable => hplain.completes hreadable⟩
  have hreports : Run.Reports e.settings.dropGaps (e.fragments mode template s)
      (e.visited mode template s) := by
    rw [expanded, Tree.completes_expand] at hcompletes
    rw [fragments_eq]
    exact Tree.reports (fun u inner hinner => h.embed_reports hinner) hcompletes
  rcases hreports j hj with ⟨fs, k, hexec, -, hwarnings, hmarked⟩
  -- a report names a template exactly if its visit leaves a marker
  have hnamed : (e.reports mode template s).filterMap Notice.failed? =
      fs.filterMap Fragment.marked? := by
    rw [reports, List.filterMap_filterMap, hmarked]
    exact List.filterMap_congr fun visit _ => visit.bind_failed?
  refine ⟨fs, k, hexec, by rw [exec_render, hexec]; rfl, hwarnings, ?_, ?_, ?_⟩
  · rw [map_failed?_errors, hnamed]
  · intro visit _ n
    rw [Visit.report?_eq_some_iff]
    exact ⟨fun hloses => ⟨hloses, hloses.level_eq⟩, And.left⟩
  · intro hnone
    refine ⟨by rw [← hnamed, hnone, List.filterMap_nil], fun visit hvisit n hloses => ?_⟩
    have hn := Visit.report?_eq_some_iff.mpr hloses
    rw [List.filterMap_eq_nil_iff.mp hnone visit hvisit] at hn
    cases hn

/-- A template that embeds another for each row and writes a value into a script. -/
def rowsTemplate : Compiled := ⟨[.each "rows" "row" "" [.embed "gone"], .json "x"], "page"⟩

/-- Rows, and an object, which has no JSON. -/
def rowsData : Value := .dict [(.str "rows", .list [.int 1, .int 2]), (.str "x", .object "o")]

/-- Without a source the other template is refused once for each row. -/
theorem fragments_reported_rows :
    Engine.Quiet ⟨none, {}⟩ ∧ (Journal.start none).Honest true ∧
    ∃ fs k, Run.exec (Engine.fragments ⟨none, {}⟩ .blocking rowsTemplate (.ofData rowsData))
        (.start none) = (.ok fs, k) ∧
      k.warnings.map Notice.failed? = [some "gone", some "gone", none] ∧
      k.warnings.map Notice.level = [.error, .error, .warning] ∧
      fs.filterMap Fragment.marked? = ["gone", "gone"] := by
  have hquiet : Engine.Quiet ⟨none, {}⟩ := nofun
  have hplain : (Scope.ofData rowsData).Plain := by
    refine ⟨⟨_, rfl, ?_⟩, fun layer hlayer => by cases hlayer⟩
    rintro k v (_ | ⟨_, _ | ⟨_, ⟨⟩⟩⟩)
    · decide
    · rfl
  have hhonest : (Journal.start none).Honest true := Journal.honest_of_cache_eq_none rfl
  have hreported := fragments_reported hquiet .blocking rowsTemplate (.ofData rowsData) hhonest
  have hreadable : Tree.isReadable (Engine.expanded ⟨none, {}⟩ .blocking rowsTemplate) := by decide
  obtain ⟨fs, k, hexec, -, hwarnings, hmarked, -⟩ := hreported.1 (hreported.2 hplain hreadable)
  have hnames : fs.filterMap Fragment.marked? = ["gone", "gone"] :=
    List.map_injective_iff.mpr (Option.some_injective String) hmarked.symm
  refine ⟨hquiet, hhonest, fs, k, hexec, ?_, ?_, hnames⟩
  · rw [hwarnings]
    rfl
  · rw [hwarnings]
    rfl

/-! ## An embedded template that fails half-way -/

/-- An embedded template that embeds what is not there, and then fails at a number of too many digits,
takes the inner marker back: one marker is left on the page, and two errors are reported. -/
theorem exec_fragments_ones {digits : Nat} (h : digitLimit < digits) (s : Scope) :
    ∃ k, Run.exec ((withTree [.embed "gone", .value (ones digits)]).fragments .blocking
        ⟨[.embed "p"], "page"⟩ s) (.start none) = (.ok [.marker "p"], k) ∧
      k.warnings.map Notice.failed? = [some "gone", some "p"] := by
  have hquiet : (withTree [.embed "gone", .value (ones digits)]).Quiet := by
    rintro _ ⟨⟩ name
    rfl
  have hgoneNormal : (Node.embed "gone").IsNormal := by
    rw [Node.IsNormal, Tag.IsNormal]
    exact ⟨by simp [Text.Braceless, Tag.isBrace], .inl (by decide)⟩
  have hnormal : Tree.IsNormal [.embed "gone", .value (ones digits)] :=
    Tree.isNormal_cons.mpr ⟨hgoneNormal, fun _ _ htext => htext.elim, Tree.isNormal_ones h⟩
  generalize hengine : withTree [.embed "gone", .value (ones digits)] = e at hquiet
  have hhonest : (Journal.start none).Honest e.settings.dropGaps :=
    Journal.honest_of_cache_eq_none rfl
  have hopened : e.opened .blocking 16 ["page"] "p" = .ok [.embed "gone", .value (ones digits)] :=
    hengine ▸ opened_withTree hnormal .blocking 15 (by decide)
  have hgone : e.opened .blocking 15 ["page", "p"] "gone" = .error (.notFound "gone" none) :=
    hengine ▸ rfl
  have hkept := (e.exec_embedded .blocking 16 ["page"] "p" hhonest).2
  have hsilent := hquiet.warnings_embedded .blocking 16 ["page"] "p" (.start none)
  have hembed := e.exec_embed_eq_of_ok s hhonest hopened
  generalize (Run.exec (e.embedded .blocking 16 ["page"] "p") (.start none)).2 = j
    at hkept hsilent hembed
  -- the inner marker is there when the number is come to, and its error is reported
  obtain ⟨fs, k, hinner, -, hwarnings, -⟩ := hquiet.reports_of_error s hgone j hkept
  have htree : Run.exec (Tree.render (e.embed .blocking 15 ["page", "p"]) s
      [.embed "gone", .value (ones digits)]) j =
        (.error (.badLookup (.numeral (.tooLongToRead digits))), k) := by
    rw [Tree.render_cons, Run.exec_bind, Node.render, hinner]
    dsimp only
    rw [Run.exec_bind, Tree.exec_render_ones _ _ _ h]
  refine ⟨k.noting [.embedFailed "p" (LookupFault.numeral (.tooLongToRead digits)).message], ?_, ?_⟩
  · have hdepth : e.settings.maxDepth.toNat = 15 + 1 := hengine ▸ rfl
    rw [fragments_eq, Tree.render_singleton, Node.render, hdepth]
    exact hembed.trans (by rw [exec_recover]; exact htree ▸ rfl)
  · rw [Journal.warnings_noting, hwarnings, hsilent]
    rfl

/-- With a number of five thousand digits there are two errors and one marker. -/
theorem fragments_ones :
    ∃ k, Run.exec ((withTree [.embed "gone", .value (ones 5000)]).fragments .blocking
        ⟨[.embed "p"], "page"⟩ (.ofData (.dict []))) (.start none) = (.ok [.marker "p"], k) ∧
      k.warnings.map Notice.failed? = [some "gone", some "p"] :=
  exec_fragments_ones (by decide) _

end Engine

end Curly
