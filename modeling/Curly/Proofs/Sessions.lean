import Curly.Proofs.Engines
import Curly.Proofs.Grammar
import Curly.Proofs.Honesty

/-!
# Sessions

In a session several engines work one after another and share one cache, while the sources of
templates change between their steps. An entry of the cache is found by its name and its source
alone, so it may come from an engine that treats gaps differently, and then the cache is seen in the
answers. It cannot be seen in any session exactly if all engines agree on whether gaps are dropped:
the depths to which they embed need not agree.

One direction is a simulation: a session with a cache that is honest answers as the session without
one, and stays honest (`Session.Similar.step`). The other is one template with one gap, asked for by
two engines (`Session.answers_gapSteps`).
-/

namespace Curly

/-! ## Sessions -/

/-- A step of a session. The engine at `i` compiles a text, gets a template by its name, renders the
template that was the `k`-th to be given, or a given tree, or a template by its name, or a text, or
a view in its layouts. Between that sources are changed, and entries are taken out of the cache. -/
inductive Session.Step (ι : Type) where
  | change (sources : ι → Option Source)
  | compile (i : ι) (text name : String)
  | getTemplate (i : ι) (mode : Mode) (name : String)
  | renderGiven (i : ι) (mode : Mode) (k : Nat) (s : Scope)
  | render (i : ι) (mode : Mode) (template : Compiled) (s : Scope)
  | renderNamed (i : ι) (mode : Mode) (name : String) (s : Scope)
  | renderText (i : ι) (mode : Mode) (text name : String) (s : Scope)
  | renderWrapped (i : ι) (mode : Mode) (view : String) (layouts : List String)
      (data : Option Value) (extension : Option Extension)
  | invalidate (name : String)
  | clear

/-- What a step answers: a template or a page, or the failure in its place. -/
inductive Session.Answer where
  | done
  | template (result : Except Failure Compiled)
  | page (result : Except Failure String)

/-- A session between two steps: the source of each engine, the templates given so far, and the
cache, if there is one. -/
structure Session (ι : Type) where
  sources : ι → Option Source
  given : List Compiled
  cache : Option (Cache Tree)

variable {ι : Type}

namespace Session

/-- A session that begins. -/
def start (sources : ι → Option Source) (cache : Option (Cache Tree)) : Session ι :=
  ⟨sources, [], cache⟩

/-- Does work in a session. -/
def perform {α : Type} (st : Session ι) (work : Run α) : Except Failure α × Session ι :=
  ((work.exec (.start st.cache)).1, { st with cache := (work.exec (.start st.cache)).2.cache })

/-- Does work that gives a template, and keeps the template. -/
def performGiving (st : Session ι) (work : Run Compiled) : Answer × Session ι :=
  let (result, st) := st.perform work
  match result with
  | .ok template => (.template (.ok template), { st with given := st.given ++ [template] })
  | .error failure => (.template (.error failure), st)

/-- Does work that gives a page. -/
def performPage (st : Session ι) (work : Run String) : Answer × Session ι :=
  let (result, st) := st.perform work
  (.page result, st)

variable (settings : ι → Settings)

/-- The engine at `i`. -/
def engine (st : Session ι) (i : ι) : Engine := ⟨st.sources i, settings i⟩

/-- What a step answers, and the session after it. -/
def step (st : Session ι) : Step ι → Answer × Session ι
  | .change sources => (.done, { st with sources })
  | .compile i text name => st.performGiving do
    return ⟨← (st.engine settings i).compile text name, name⟩
  | .getTemplate i mode name => st.performGiving ((st.engine settings i).named mode name)
  | .renderGiven i mode k s =>
    match st.given[k]? with
    | some template => st.performPage ((st.engine settings i).render mode template s)
    | none => (.done, st)
  | .render i mode template s => st.performPage ((st.engine settings i).render mode template s)
  | .renderNamed i mode name s =>
    st.performPage ((st.engine settings i).renderNamed mode name s)
  | .renderText i mode text name s =>
    st.performPage ((st.engine settings i).renderText mode text name s)
  | .renderWrapped i mode view layouts data extension =>
    st.performPage ((st.engine settings i).renderWrapped mode view layouts data extension)
  | .invalidate name => (.done, { st with cache := st.cache.map fun c => (c.take name).2 })
  | .clear => (.done, { st with cache := st.cache.map Cache.clear })

/-- The answers to steps, one after another. -/
def answers (st : Session ι) : List (Step ι) → List Answer
  | [] => []
  | x :: rest => (st.step settings x).1 :: (st.step settings x).2.answers rest

end Session

/-! ## Work that does not see the cache -/

/-- A journal with an honest cache or without one, and one without. -/
def Journal.Uncached (dropGaps : Bool) (j j' : Journal) : Prop :=
  j.Honest dropGaps ∧ j'.cache = none

/-- Work that has the same outcome through an honest cache and without one. -/
abbrev Run.Transparent (dropGaps : Bool) {α : Type} (work : Run α) : Prop :=
  Run.Related (Journal.Uncached dropGaps) Eq Eq work work

variable {dropGaps : Bool}

theorem Journal.Uncached.noting {j j' : Journal} (ns : List Notice)
    (h : Journal.Uncached dropGaps j j') : Journal.Uncached dropGaps (j.noting ns) (j'.noting ns) :=
  ⟨h.1.congr rfl, h.2⟩

theorem fetch_transparent (source : Source) (chain : Chain) (name : String) :
    Run.Transparent dropGaps (fetch source chain name) := by
  intro j j' hj
  rw [exec_fetch, exec_fetch]
  exact ⟨Run.agree_refl _, hj.1.congr rfl, hj.2⟩

namespace Engine

variable {e : Engine}

theorem compile_transparent (text name : String) :
    Run.Transparent dropGaps (e.compile text name) := by
  intro j j' hj
  rcases e.exec_compile text name j with ⟨hresult, hcache⟩
  rcases e.exec_compile text name j' with ⟨hresult', hcache'⟩
  rw [hresult, hresult']
  exact ⟨Run.agree_refl _, hj.1.congr hcache, hcache'.trans hj.2⟩

/-- Compiling through the cache is what compiling is without it. -/
theorem compileNamed_transparent (he : e.settings.dropGaps = dropGaps) (name text : String) :
    Run.Transparent dropGaps (e.compileNamed name text) := by
  subst he
  intro j j' hj
  rcases e.exec_compileNamed name text hj.1 with ⟨hresult, hhonest⟩
  rcases e.exec_compile text name j' with ⟨hresult', hcache'⟩
  rw [e.exec_compileNamed_of_none name text hj.2, hresult, hresult']
  exact ⟨Run.agree_refl _, hhonest, hcache'.trans hj.2⟩

/-- An engine is like itself, whether it has an honest cache or none. -/
theorem alike_self (he : e.settings.dropGaps = dropGaps) (mode : Mode) :
    Alike (Journal.Uncached dropGaps) e mode e mode := by
  have hsources : Option.Rel (Alike.SourcesAlike (Journal.Uncached dropGaps) mode mode) e.source
      e.source := by
    rcases e.source with _ | source
    · exact .none
    · exact .some ⟨rfl, fetch_transparent source⟩
  refine .of_sources (fun ns hj => hj.noting ns) rfl hsources compile_transparent
    (compileNamed_transparent he) ?_
  intro view layout j j' hj
  cases mode with
  | blocking => exact ⟨rfl, hj.noting [.wrapping view layout]⟩
  | waiting => exact ⟨rfl, hj⟩

end Engine

/-! ## Sessions that do not see the cache -/

namespace Session

variable {settings : ι → Settings}

/-- Two sessions that differ in the cache alone, which the second has not and which is honest in the
first. -/
structure Similar (dropGaps : Bool) (st st' : Session ι) : Prop where
  sources : st'.sources = st.sources
  given : st'.given = st.given
  honest : ∀ c, st.cache = some c → c.Honest dropGaps
  uncached : st'.cache = none

variable {st st' : Session ι}

/-- Work that does not see the cache has one outcome in similar sessions, and leaves them so. -/
theorem Similar.perform (h : Similar dropGaps st st') {α : Type} {work : Run α}
    (hwork : Run.Transparent dropGaps work) :
    (st'.perform work).1 = (st.perform work).1 ∧
      Similar dropGaps (st.perform work).2 (st'.perform work).2 := by
  obtain ⟨hagree, hhonest, hnone⟩ := hwork (.start st.cache) (.start st'.cache)
    ⟨h.honest, h.uncached⟩
  exact ⟨hagree.eq.symm, h.sources, h.given, hhonest, hnone⟩

theorem Similar.performPage (h : Similar dropGaps st st') {work : Run String}
    (hwork : Run.Transparent dropGaps work) :
    (st'.performPage work).1 = (st.performPage work).1 ∧
      Similar dropGaps (st.performPage work).2 (st'.performPage work).2 := by
  rcases h.perform hwork with ⟨hresult, hsimilar⟩
  exact ⟨congrArg Answer.page hresult, hsimilar⟩

theorem Similar.performGiving (h : Similar dropGaps st st') {work : Run Compiled}
    (hwork : Run.Transparent dropGaps work) :
    (st'.performGiving work).1 = (st.performGiving work).1 ∧
      Similar dropGaps (st.performGiving work).2 (st'.performGiving work).2 := by
  rcases h.perform hwork with ⟨hresult, hsimilar⟩
  unfold Session.performGiving
  -- a template that is given is kept in both sessions, and it is the same
  rcases hst : st.perform work with ⟨failure | template, after⟩ <;>
    rcases hst' : st'.perform work with ⟨failure' | template', after'⟩ <;>
    rw [hst, hst'] at hresult hsimilar
  · cases hresult
    exact ⟨rfl, hsimilar⟩
  · cases hresult
  · cases hresult
  · cases hresult
    refine ⟨rfl, hsimilar.sources, ?_, hsimilar.honest, hsimilar.uncached⟩
    exact congrArg (· ++ [template]) hsimilar.given

/-- A step has one answer in similar sessions, and leaves them similar. -/
theorem Similar.step (hsettings : ∀ i, (settings i).dropGaps = dropGaps)
    (h : Similar dropGaps st st') (x : Step ι) :
    (st'.step settings x).1 = (st.step settings x).1 ∧
      Similar dropGaps (st.step settings x).2 (st'.step settings x).2 := by
  -- the engines are the same, so only what their work does to the caches matters
  have hengine : ∀ i, st'.engine settings i = st.engine settings i := by
    intro i
    rw [engine, engine, h.sources]
  have halike : ∀ i mode, Engine.Alike (Journal.Uncached dropGaps) (st.engine settings i) mode
      (st.engine settings i) mode :=
    fun i => Engine.alike_self (hsettings i)
  cases x with
  | change sources => exact ⟨rfl, rfl, h.given, h.honest, h.uncached⟩
  | compile i text name =>
    simp only [Session.step, hengine]
    refine h.performGiving (Run.Related.bind (Engine.compile_transparent text name) ?_)
    rintro tree _ rfl
    exact .pure rfl
  | getTemplate i mode name =>
    simp only [Session.step, hengine]
    exact h.performGiving ((halike i mode).named name)
  | renderGiven i mode k s =>
    simp only [Session.step, hengine, h.given]
    split
    · exact h.performPage ((halike i mode).render _ s)
    · exact ⟨rfl, h⟩
  | render i mode template s =>
    simp only [Session.step, hengine]
    exact h.performPage ((halike i mode).render template s)
  | renderNamed i mode name s =>
    simp only [Session.step, hengine]
    exact h.performPage ((halike i mode).renderNamed name s)
  | renderText i mode text name s =>
    simp only [Session.step, hengine]
    exact h.performPage ((halike i mode).renderText text name s)
  | renderWrapped i mode view layouts data extension =>
    simp only [Session.step, hengine]
    exact h.performPage ((halike i mode).renderWrapped view layouts data extension)
  | invalidate name =>
    refine ⟨rfl, h.sources, h.given, ?_, ?_⟩
    · intro c hc
      rcases Option.map_eq_some_iff.mp hc with ⟨c', hc', rfl⟩
      exact (h.honest c' hc').erase name
    · exact Option.map_eq_none_iff.mpr h.uncached
  | clear =>
    refine ⟨rfl, h.sources, h.given, ?_, ?_⟩
    · intro c hc
      rcases Option.map_eq_some_iff.mp hc with ⟨c', hc', rfl⟩
      exact Cache.Honest.empty
    · exact Option.map_eq_none_iff.mpr h.uncached

/-- Similar sessions have the same answers. -/
theorem Similar.answers (hsettings : ∀ i, (settings i).dropGaps = dropGaps)
    (h : Similar dropGaps st st') (steps : List (Step ι)) :
    st'.answers settings steps = st.answers settings steps := by
  induction steps generalizing st st' with
  | nil => rfl
  | cons x rest ih =>
    rcases h.step hsettings x with ⟨hanswer, hsimilar⟩
    rw [Session.answers, Session.answers, hanswer, ih hsimilar]

end Session

/-! ## A session that sees the cache -/

/-- A template with a gap, which is all that its loop repeats. -/
def gapText : String := "\x7b#each x\x7d \x7b/each\x7d"

/-- What the template compiles to. -/
def gapTree (trim : Bool) : Tree :=
  [.each "x" "item" "" (if trim then [] else [.text " "])]

theorem pieces_gapText : pieces gapText.toList =
    [.tag "#each x".toList (.eachOpen "x" "item" ""), .text [' '],
      .tag "/each".toList (.close .each)] := by
  have hopen : Tag.read? gapText.toList =
      some ("#each x".toList, .eachOpen "x" "item" "", ' ' :: "\x7b/each\x7d".toList) := by decide
  have hgap : Tag.read? (' ' :: "\x7b/each\x7d".toList) = none := by decide
  have hclose : Tag.read? "\x7b/each\x7d".toList = some ("/each".toList, .close .each, []) := by
    decide
  rw [pieces_of_read?_eq_some hopen, pieces_of_read?_eq_none hgap, pieces_of_read?_eq_some hclose,
    pieces_nil]
  rfl

theorem compile_gapText (name : String) (trim : Bool) :
    Curly.compile gapText name trim = .ok (gapTree trim) := by
  rw [compile_eq_ok_iff_build, Token.ofText, pieces_gapText]
  cases trim with
  | true => rfl
  | false => rfl

/-- The data of one item. -/
def gapScope : Scope := .ofData (.dict [(.str "x", .list [.null])])

/-- The page of the template. -/
def gapPage (trim : Bool) : String := if trim then "" else " "

theorem render_gapTree (e : Engine) (mode : Mode) (trim : Bool) (j : Journal) :
    Run.exec (e.render mode ⟨gapTree trim, "gap"⟩ gapScope) j = (.ok (gapPage trim), j) := by
  have hitems : loopItems gapScope "x" = pure [.null] := rfl
  rw [Engine.exec_render, Engine.fragments_eq, gapTree, Tree.render_singleton, Node.render_each, hitems]
  cases trim with
  | true => simp [gapPage, renderItems, Except.map, printPage]
  | false => simp [gapPage, renderItems, Except.map, Node.render, printPage, Fragment.print]

/-- The source of the template. -/
def gapSource : Source := .ofTable [("gap", gapText)]

/-- The page is that of the tree that compiling through the cache gives. -/
theorem exec_renderNamed_gap {e : Engine} (he : e.source = some gapSource) {j k : Journal}
    {trim : Bool} (h : Run.exec (e.compileNamed "gap" gapText)
      { j with loads := j.loads ++ [⟨[], "gap"⟩] } = (.ok (gapTree trim), k)) :
    Run.exec (e.renderNamed .blocking "gap" gapScope) j = (.ok (gapPage trim), k) := by
  have hfetch : Run.exec (fetch gapSource [] "gap") j =
      (.ok gapText, { j with loads := j.loads ++ [⟨[], "gap"⟩] }) := by
    rw [exec_fetch]
    simp [gapSource, Source.ofTable, Source.ofFunction]
  have hnamed : Run.exec (e.named .blocking "gap") j = (.ok ⟨gapTree trim, "gap"⟩, k) := by
    have hreach : gapSource.reaches .blocking := rfl
    rw [Engine.named_eq, Engine.required, he]
    dsimp only
    rw [pure_bind, if_pos hreach, Run.exec_bind, hfetch]
    show Run.exec (e.compileNamed "gap" gapText >>= _) _ = _
    rw [Run.exec_bind, h]
    rfl
  rw [Engine.renderNamed_eq, Run.exec_bind, hnamed]
  exact render_gapTree e .blocking trim k

namespace Session

/-- Two engines render the template with a gap, one after the other. -/
def gapSteps (i j : ι) : List (Step ι) :=
  [.change fun _ => some gapSource, .renderNamed i .blocking "gap" gapScope,
    .renderNamed j .blocking "gap" gapScope]

variable (settings : ι → Settings)

theorem step_renderNamed_gap {st : Session ι} (hst : st.sources = fun _ => some gapSource) (i : ι)
    {k : Journal} {trim : Bool}
    (h : Run.exec ((st.engine settings i).compileNamed "gap" gapText)
      ⟨[], [⟨[], "gap"⟩], st.cache⟩ = (.ok (gapTree trim), k)) :
    st.step settings (.renderNamed i .blocking "gap" gapScope) =
      (.page (.ok (gapPage trim)), { st with cache := k.cache }) := by
  have hsource : (st.engine settings i).source = some gapSource := by
    rw [engine, hst]
  rw [Session.step, performPage, perform, exec_renderNamed_gap hsource h]

/-- Through one cache the second engine gives the page of the first, and without it its own. -/
theorem answers_gapSteps (sources : ι → Option Source) (i j : ι) :
    (start sources (some .empty)).answers settings (gapSteps i j) =
        [.done, .page (.ok (gapPage (settings i).dropGaps)),
          .page (.ok (gapPage (settings i).dropGaps))] ∧
      (start sources none).answers settings (gapSteps i j) =
        [.done, .page (.ok (gapPage (settings i).dropGaps)),
          .page (.ok (gapPage (settings j).dropGaps))] := by
  have hchange : ∀ cache, (start sources cache).step settings (.change fun _ => some gapSource) =
      (.done, start (fun _ => some gapSource) cache) := fun _ => rfl
  constructor
  · have hcompile : ∀ e : Engine,
        Run.exec (e.compileNamed "gap" gapText) ⟨[], [⟨[], "gap"⟩], some .empty⟩ =
          (.ok (gapTree e.settings.dropGaps), ⟨[.compiled "gap" 1, .stored "gap"], [⟨[], "gap"⟩],
            some (Cache.put ⟨[], 0, 1, 0⟩ "gap" gapText (gapTree e.settings.dropGaps))⟩) := by
      intro e
      rw [e.exec_compileNamed_of_miss rfl rfl, compile_gapText]
      rfl
    have hget : ∀ (c : Cache Tree) (tree : Tree),
        (c.put "gap" gapText tree).get? "gap" gapText = some tree := by
      intro c tree
      simp [Cache.get?, Cache.find?_put]
    simp only [gapSteps, answers, hchange]
    rw [step_renderNamed_gap settings rfl i (hcompile _)]
    -- the second engine finds the entry of the first
    rw [step_renderNamed_gap settings rfl j (Engine.exec_compileNamed_of_hit _ rfl (hget _ _))]
    rfl
  · have hcompile : ∀ e : Engine,
        Run.exec (e.compileNamed "gap" gapText) ⟨[], [⟨[], "gap"⟩], none⟩ =
          (.ok (gapTree e.settings.dropGaps), ⟨[.compiled "gap" 1], [⟨[], "gap"⟩], none⟩) := by
      intro e
      rw [e.exec_compileNamed_of_none "gap" gapText rfl, Engine.compile, compile_gapText]
      rfl
    simp only [gapSteps, answers, hchange]
    rw [step_renderNamed_gap settings rfl i (hcompile _)]
    rw [step_renderNamed_gap settings rfl j (hcompile _)]
    rfl

/-- A cache that engines share is seen in no session exactly if all engines agree on whether gaps
are dropped: then each session that begins with an empty cache has the answers of the session
without one. -/
theorem answers_cache_eq_iff :
    (∀ (sources : ι → Option Source) (steps : List (Step ι)),
      (start sources (some .empty)).answers settings steps =
        (start sources none).answers settings steps) ↔
      ∀ i j, (settings i).dropGaps = (settings j).dropGaps := by
  constructor
  · intro h i j
    -- two engines that disagree give different pages of one template
    have hanswers := h (fun _ => none) (gapSteps i j)
    rw [(answers_gapSteps settings _ i j).1, (answers_gapSteps settings _ i j).2] at hanswers
    have hpage : gapPage (settings i).dropGaps = gapPage (settings j).dropGaps := by
      simpa using hanswers
    cases hi : (settings i).dropGaps <;> cases hj : (settings j).dropGaps <;>
      simp [hi, hj, gapPage] at hpage ⊢
  · intro h sources steps
    -- what the engines agree on is what the entries of an honest cache are compiled with
    have hagree : ∃ dropGaps, ∀ i, (settings i).dropGaps = dropGaps := by
      by_cases hne : Nonempty ι
      · rcases hne with ⟨i⟩
        exact ⟨(settings i).dropGaps, fun k => h k i⟩
      · exact ⟨true, fun i => (hne ⟨i⟩).elim⟩
    rcases hagree with ⟨dropGaps, hsettings⟩
    have hsimilar : Similar dropGaps (start sources (some .empty)) (start sources none) := by
      refine ⟨rfl, rfl, ?_, rfl⟩
      intro c hc
      cases hc
      exact Cache.Honest.empty
    exact (hsimilar.answers hsettings steps).symm

/-- An engine that drops gaps makes the cache seen by one that does not. -/
theorem answers_gapSteps_ne :
    (start (fun _ => none) (some .empty)).answers (fun trim : Bool => { dropGaps := trim })
        (gapSteps true false) ≠
      (start (fun _ => none) none).answers (fun trim : Bool => { dropGaps := trim })
        (gapSteps true false) := by
  rw [(answers_gapSteps _ _ true false).1, (answers_gapSteps _ _ true false).2]
  simp [gapPage]

end Session

end Curly
