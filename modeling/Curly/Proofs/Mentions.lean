import Curly.Proofs.Chains
import Curly.Proofs.Layers

/-!
# Names that a template mentions

A path looks one name up, the one it begins with, unless it is a literal (`Path.name?`). A template
mentions the names of all paths in it and in the templates that it embeds (`Engine.Mentions`). Data
matters to a rendering under these names only: over two mappings that have the same under each of
them, a template gives one page or fails alike, and leaves one journal
(`Engine.render_eq_of_mentions`). For scopes that agree on names do so under every layer that a loop
puts on both, and the templates that are embedded there mention no further names.
-/

namespace Curly

/-! ## The name of a path -/

/-- The name that a path looks up. A literal looks none up, and neither does the empty path. -/
def Path.name? (path : String) : Option String :=
  let cs := Text.trim path.toList
  match literal? cs with
  | some _ => none
  | none => if cs = [] then none else some (String.ofList (Text.split '.' cs).1)

theorem Tree.mem_paths_of_mem {n : Node} {t : Tree} {path : String} (hn : n ∈ t)
    (hpath : path ∈ n.paths) : path ∈ Tree.paths t := by
  induction t with
  | nil => cases hn
  | cons m rest ih =>
    rw [Tree.paths, List.mem_append]
    rcases List.mem_cons.mp hn with rfl | hn
    · exact .inl hpath
    · exact .inr (ih hn)

/-- The path of a node that stands in a tree is one of the tree. -/
theorem Tree.mem_paths_of_occurs {n : Node} {t : Tree} {path : String} (h : n.Occurs t)
    (hpath : n.path? = some path) : path ∈ Tree.paths t := by
  induction h with
  | here hn =>
    refine Tree.mem_paths_of_mem hn ?_
    cases n with
    | cond condition test body other =>
      have htest : test.path? = some path := hpath
      cases other <;> simp [Node.paths, htest]
    | each collection item index body =>
      cases hpath
      exact List.mem_cons_self
    | value | json | html =>
      cases hpath
      exact List.mem_singleton_self _
    | text | embed | bare => cases hpath
  | @inBody t condition test body other hb _ ih =>
    refine Tree.mem_paths_of_mem hb ?_
    cases other <;> simp [Node.paths, ih]
  | inOther hb _ ih =>
    refine Tree.mem_paths_of_mem hb ?_
    simp [Node.paths, ih]
  | inLoop hb _ ih =>
    refine Tree.mem_paths_of_mem hb ?_
    exact List.mem_cons_of_mem _ ih

namespace Scope

/-- The value of a path is a matter of what its name stands for. -/
theorem value_congr {s s' : Scope} {path : String}
    (h : ∀ name, Path.name? path = some name → s'.get name = s.get name) :
    s'.value path = s.value path := by
  rw [value, value]
  dsimp only
  rcases hliteral : Path.literal? (Text.trim path.toList) with _ | v
  · dsimp only
    by_cases hnil : Text.trim path.toList = []
    · rw [if_pos hnil, if_pos hnil]
    · have hname : Path.name? path =
          some (String.ofList (Text.split '.' (Text.trim path.toList)).1) := by
        rw [Path.name?]
        simp only [hliteral, if_neg hnil]
      rw [if_neg hnil, if_neg hnil, h _ hname]
  · rfl

/-- Two scopes over mappings that answer alike for the names in `K`. -/
structure AgreeOn (K : String → Prop) (s s' : Scope) : Prop where
  isMapping : ∃ entries, s.data.entries? = some entries
  isMapping' : ∃ entries, s'.data.entries? = some entries
  get : ∀ name, K name → s'.get name = s.get name

/-- Scopes that agree on names do so under a further layer, whatever it binds. -/
theorem AgreeOn.push {K : String → Prop} {s s' : Scope} (h : AgreeOn K s s') (layer : Bindings) :
    AgreeOn K (s.push layer) (s'.push layer) where
  isMapping := h.isMapping
  isMapping' := h.isMapping'
  get name hname := get_push_congr h.isMapping h.isMapping' (h.get name hname) layer

end Scope

/-! ## Renderings that agree -/

/-- The comparison of two renderings that do the same, in scopes that agree on the names in `K`. -/
def Comparison.agreeing (K : String → Prop) : Comparison where
  journals j j' := j = j' ∧ j.Genuine
  failures := Eq
  fragments := Eq
  scopes := Scope.AgreeOn K
  paths path := ∀ name, Path.name? path = some name → K name
  noted := by
    rintro j _ ns ⟨rfl, hj⟩
    exact ⟨rfl, hj.congr rfl⟩
  nil := List.reverse_nil
  append := append_eq_append
  agreed hs hpath := Scope.value_congr fun name hname => hs.get name (hpath name hname)
  caused _ _ := rfl
  looped _ _ _ hs _ _ _ := hs.push _

namespace Engine

variable (e : Engine) (mode : Mode)

/-- A template mentions a name: a path in it, or in a template embedded in it, looks the name up. -/
def Mentions (t : Tree) (name : String) : Prop :=
  ∃ u, e.Reaches mode t u ∧ ∃ path ∈ Tree.paths u, Path.name? path = some name

variable {e mode}

/-- In a tree that is reached, scopes are asked for names only that the whole mentions. -/
theorem fits_agreeing {t u : Tree} (hu : e.Reaches mode t u)
    {embed : Scope → String → Run (List Fragment)}
    (hembed : ∀ name, Node.Occurs (.embed name) u → ∀ s s', Scope.AgreeOn (e.Mentions mode t) s s' →
      (Comparison.agreeing (e.Mentions mode t)).Related (embed s name) (embed s' name)) :
    (Comparison.agreeing (e.Mentions mode t)).Fits embed embed u where
  paths _ hn path hpath _ hname := ⟨u, hu, path, Tree.mem_paths_of_occurs hn hpath, hname⟩
  leaf _ _ _ _ _ _ _ _ := rfl
  embed := hembed

/-- A template is embedded alike in scopes that agree on what the whole mentions. -/
theorem embed_agreeing {t : Tree} (remaining : Nat) (chain : Chain) {name : String}
    (hname : e.Contains mode t (.embed name)) {s s' : Scope}
    (hs : Scope.AgreeOn (e.Mentions mode t) s s') :
    (Comparison.agreeing (e.Mentions mode t)).Related (e.embed mode remaining chain s name)
      (e.embed mode remaining chain s' name) := by
  induction remaining generalizing chain name s s' with
  | zero =>
    have hself := (Run.related_refl (e.embed mode 0 chain s name)).and_ensures
      (e.embed_ensures 0 chain hname s)
    have hscope : e.embed mode 0 chain s' name = e.embed mode 0 chain s name := by
      rw [embed_zero, embed_zero]
    rw [hscope]
    exact hself.mono (fun _ _ h => h) fun _ _ h => h.1
  | succ below ih =>
    have hopened := (Run.related_refl (e.embedded mode (below + 1) chain name)).and_ensures
      (e.embedded_ensures hname (below + 1) chain)
    rw [embed_succ, embed_succ, recover, recover]
    refine .tryCatch (.bind hopened ?_) ?_
    · -- the templates inside this one are reached by way of it
      rintro tree _ ⟨rfl, -, htree⟩
      refine Tree.render_related (fits_agreeing htree ?_) hs
      intro inner hinner u u' hu
      exact ih (chain ++ [name]) ⟨tree, htree, hinner⟩ hu
    · rintro failure _ rfl
      refine .bind (Comparison.note_related _) ?_
      intro _ _ _
      exact .pure rfl

/-- Data matters under the names that a template mentions and under no others. Over two mappings,
with or without layers, that answer alike for each name that is looked up by a path of the template
or of one that it embeds, at whatever depth, the template gives the same page or failure and leaves
the same journal: notices, requests and cache. Literals look up no name, even if the data has one
that reads like them. -/
theorem render_eq_of_mentions (e : Engine) (mode : Mode) (template : Compiled) {s s' : Scope}
    (hs : s.AgreeOn (e.Mentions mode template.tree) s') {j : Journal} (hj : j.Genuine) :
    Run.exec (e.render mode template s') j = Run.exec (e.render mode template s) j := by
  have hfits : (Comparison.agreeing (e.Mentions mode template.tree)).Fits
      (e.embed mode e.settings.maxDepth.toNat (rootChain template.name))
      (e.embed mode e.settings.maxDepth.toNat (rootChain template.name)) template.tree :=
    fits_agreeing .self fun name hname _ _ hu =>
      embed_agreeing _ _ ⟨template.tree, .self, hname⟩ hu
  obtain ⟨hresult, hjournal, -⟩ := Tree.render_related hfits hs j j ⟨rfl, hj⟩
  rw [exec_render, exec_render, fragments_eq, fragments_eq, hresult.eq, hjournal]

/-- A row of a table, with a literal after its name. -/
def rowText : String := "\x7b row.name \x7d\x7b true \x7d"

theorem compile_rowText (name : String) (trim : Bool) :
    Curly.compile rowText name trim = .ok [.value "row.name", .value "true"] := by
  have hfirst : Tag.read? rowText.toList =
      some (" row.name ".toList, .value "row.name", "\x7b true \x7d".toList) := by decide
  have hsecond : Tag.read? "\x7b true \x7d".toList =
      some (" true ".toList, .value "true", []) := by decide
  rw [compile_eq_ok_iff_build, Token.ofText, pieces_of_read?_eq_some hfirst,
    pieces_of_read?_eq_some hsecond, pieces_nil]
  cases trim with
  | true => rfl
  | false => rfl

/-- A table with a title, which embeds a template for each row. -/
def tableTree : Tree :=
  [.each "rows" "row" "i" [.embed "row"], .cond "!draft" (.negated "draft") [.json "title"] none,
    .value "1"]

/-- An engine with the template of a row. -/
def tableEngine : Engine := ⟨some (.ofTable [("row", rowText)]), {}⟩

/-- The table and its rows mention four names; the literals are none. -/
theorem mem_of_mentions_table {name : String} (h : tableEngine.Mentions .blocking tableTree name) :
    name ∈ ["rows", "row", "draft", "title"] := by
  have hnames : ∀ path ∈ ["rows", "draft", "title", "1", "row.name", "true"],
      ∀ found, Path.name? path = some found → found ∈ ["rows", "row", "draft", "title"] := by
    decide
  obtain ⟨u, hu, path, hpath, hname⟩ := h
  refine hnames path ?_ name hname
  cases hu with
  | self =>
    have hpaths : Tree.paths tableTree = ["rows", "draft", "title", "1"] := rfl
    rw [hpaths] at hpath
    exact List.mem_append_left ["row.name", "true"] hpath
  | embedded _ _ hsource _ hfetch hcompile =>
    cases hsource
    cases List.mem_singleton.mp (Source.mem_of_fetch_ofTable hfetch)
    rw [compile_rowText] at hcompile
    cases hcompile
    have hpaths : Tree.paths [.value "row.name", .value "true"] = ["row.name", "true"] := rfl
    rw [hpaths] at hpath
    exact List.mem_append_right ["rows", "draft", "title", "1"] hpath

/-- Data that differ in a secret, in keys that read like the literals, and in their order fill the
table alike. -/
theorem render_eq_of_mentions_table :
    Scope.AgreeOn (tableEngine.Mentions .blocking tableTree)
      (.ofData (.dict [(.str "rows", .list [.dict [(.str "name", .str "x")]]),
        (.str "title", .str "T"), (.str "secret", .int 1), (.str "1", .str "a")]))
      (.ofData (.view [(.str "true", .str "b"), (.str "title", .str "T"),
        (.str "rows", .list [.dict [(.str "name", .str "x")]])])) ∧
    (Journal.start none).Genuine ∧
    Run.exec (tableEngine.render .blocking ⟨tableTree, "table"⟩
        (.ofData (.view [(.str "true", .str "b"), (.str "title", .str "T"),
          (.str "rows", .list [.dict [(.str "name", .str "x")]])]))) (.start none) =
      Run.exec (tableEngine.render .blocking ⟨tableTree, "table"⟩
        (.ofData (.dict [(.str "rows", .list [.dict [(.str "name", .str "x")]]),
          (.str "title", .str "T"), (.str "secret", .int 1), (.str "1", .str "a")])))
        (.start none) := by
  have hgenuine : (Journal.start none).Genuine := fun c hc => nomatch hc
  have hagree : Scope.AgreeOn (tableEngine.Mentions .blocking tableTree)
      (.ofData (.dict [(.str "rows", .list [.dict [(.str "name", .str "x")]]),
        (.str "title", .str "T"), (.str "secret", .int 1), (.str "1", .str "a")]))
      (.ofData (.view [(.str "true", .str "b"), (.str "title", .str "T"),
        (.str "rows", .list [.dict [(.str "name", .str "x")]])])) := by
    refine ⟨⟨_, rfl⟩, ⟨_, rfl⟩, fun name hname => ?_⟩
    have hmem := mem_of_mentions_table hname
    simp only [List.mem_cons, List.not_mem_nil, or_false] at hmem
    rcases hmem with rfl | rfl | rfl | rfl <;> rfl
  exact ⟨hagree, hgenuine,
    render_eq_of_mentions tableEngine .blocking ⟨tableTree, "table"⟩ hagree hgenuine⟩

end Engine

end Curly
