import Curly.Proofs.Gaps
import Curly.Proofs.Injection
import Curly.Proofs.PlainData
import Curly.Proofs.Scanning
import Curly.Proofs.Search

/-!
# Texts with values in them

The page of a text that has no tags but those that show a value is the text with each tag replaced
by what it shows. `interpolated` says this of the characters alone: it goes over the text once, with
the search for a tag at each place, and keeps every character where none is found. No step between
the text and the page loses a character or moves one: such a text has no gaps (`dropGaps_eq_self`),
its tree is its tags and texts in their order (`compile_eq_ok_of_flat`), and the pieces of a text
are filled as its characters are (`fill_pieces`).
-/

namespace Curly

/-! ## The text with its tags replaced -/

/-- The text that the value at a path is shown as, if there is a value. -/
def Scope.shown? (s : Scope) (path : String) : Except Failure (Option String) :=
  match s.value path with
  | .ok none => .ok none
  | .ok (some v) => (v.shown.mapError .notShown).map some
  | .error fault => .error (.badLookup fault)

/-- The JSON of the value at a path, or null if there is no value or it has no JSON. -/
def Scope.json (s : Scope) (path : String) : Except Failure String :=
  match s.value path with
  | .ok found => .ok ((found.bind fun v => (Json.scriptSafe v).toOption).getD "null")
  | .error fault => .error (.badLookup fault)

namespace Tag

/-- What stands in a page in the place of a tag that shows a value; it is empty if there is no value
to be shown. Other tags show nothing. -/
def fill (s : Scope) : Tag → Except Failure String
  | value path => (s.shown? path).map fun text => text.elim "" Text.escape
  | html path => (s.shown? path).map fun text => text.elim "" id
  | json path => s.json path
  | _ => .ok ""

/-- The tag that the search for a tag finds at the start of a text, and what follows it. It is
irreducible, so that no unification runs the search. -/
@[irreducible] def found? (cs : List Char) : Option (Tag × List Char) :=
  (pattern.first cs).bind fun w => (ofCaptures w.captures).map fun tag => (tag, w.rest)

/-- The tag that is found is the one that is read. -/
theorem found?_eq (cs : List Char) : found? cs = (read? cs).map Prod.snd := by
  have h := congrArg (Option.map Prod.snd) (first_eq_read? cs)
  rw [Option.map_bind, Option.map_map] at h
  simp only [Function.comp_def, Option.map_map] at h
  rw [found?]
  exact h

theorem found?_eq_some {cs body rest : List Char} {tag : Tag}
    (h : read? cs = some (body, tag, rest)) : found? cs = some (tag, rest) := by
  rw [found?_eq, h]
  rfl

theorem found?_eq_none {cs : List Char} (h : read? cs = none) : found? cs = none := by
  rw [found?_eq, h]
  rfl

theorem length_lt_of_found? {cs rest : List Char} {tag : Tag} (h : found? cs = some (tag, rest)) :
    rest.length < cs.length := by
  rw [found?_eq] at h
  rcases Option.map_eq_some_iff.mp h with ⟨⟨body, tag, rest⟩, hread, ⟨⟩⟩
  exact length_lt_of_read? hread

end Tag

/-- The text with each tag replaced by what it shows, and every other character kept. -/
def interpolated (s : Scope) (cs : List Char) : Except Failure String :=
  match h : Tag.found? cs with
  | some (tag, rest) => do
    have := Tag.length_lt_of_found? h
    return (← tag.fill s) ++ (← interpolated s rest)
  | none =>
    match cs with
    | [] => return ""
    | c :: rest => return String.singleton c ++ (← interpolated s rest)
  termination_by cs.length

section Interpolated

variable {s : Scope}

theorem interpolated_of_found? {cs rest : List Char} {tag : Tag}
    (h : Tag.found? cs = some (tag, rest)) :
    interpolated s cs = (do return (← tag.fill s) ++ (← interpolated s rest)) := by
  rw [interpolated]
  split
  · next heq =>
    rw [h] at heq
    cases heq
    rfl
  · next heq =>
    rw [h] at heq
    cases heq

theorem interpolated_cons {c : Char} {rest : List Char} (h : Tag.found? (c :: rest) = none) :
    interpolated s (c :: rest) = (do return String.singleton c ++ (← interpolated s rest)) := by
  rw [interpolated]
  split
  · next heq =>
    rw [h] at heq
    cases heq
  · rfl

@[simp] theorem interpolated_nil : interpolated s [] = .ok "" := by
  have hfound : Tag.found? [] = none := Tag.found?_eq_none rfl
  rw [interpolated]
  split
  · next heq =>
    rw [hfound] at heq
    cases heq
  · rfl

/-- A text in which no tag is found is kept as it is. -/
theorem interpolated_of_absent {cs : List Char} (h : Tag.Absent cs) :
    interpolated s cs = .ok (String.ofList cs) := by
  induction cs with
  | nil => exact interpolated_nil
  | cons c rest ih =>
    rw [interpolated_cons (Tag.found?_eq_none (h _ List.suffix_rfl)), ih h.tail, String.ofList_cons]
    rfl

end Interpolated

/-! ## From the text to its pieces -/

/-- What stands in a page for a tag or a text. -/
def Symbol.fill (s : Scope) : Symbol → Except Failure String
  | .text content => .ok content
  | .tag found => found.fill s

/-- What stands in a page for tags and texts, one after another. -/
def fillAll (s : Scope) : List Symbol → Except Failure String
  | [] => return ""
  | x :: rest => do return (← x.fill s) ++ (← fillAll s rest)

theorem fillAll_text (s : Scope) (content : String) (rest : List Symbol) :
    fillAll s (.text content :: rest) = (do return content ++ (← fillAll s rest)) := rfl

theorem fillAll_consChar (s : Scope) (c : Char) (ps : List Piece) :
    fillAll s ((Piece.consChar c ps).map Piece.symbol) =
      (do return String.singleton c ++ (← fillAll s (ps.map Piece.symbol))) := by
  rcases ps with _ | ⟨cs | ⟨body, tag⟩, more⟩
  · rfl
  · rw [Piece.consChar, List.map_cons, List.map_cons, Piece.symbol, Piece.symbol, fillAll_text,
      fillAll_text, String.ofList_cons]
    simp only [bind_assoc, pure_bind, String.append_assoc]
  · rfl

/-- The pieces of a text are filled as its characters are. -/
theorem fill_pieces (s : Scope) (cs : List Char) :
    fillAll s ((pieces cs).map Piece.symbol) = interpolated s cs := by
  induction cs using pieces.induct with
  | case1 cs body tag rest hread _ ih =>
    rw [pieces_of_read?_eq_some hread, List.map_cons, fillAll, ih,
      interpolated_of_found? (Tag.found?_eq_some hread)]
    rfl
  | case2 _ =>
    rw [pieces_nil, interpolated_nil]
    rfl
  | case3 c rest hread ih =>
    rw [pieces_of_read?_eq_none hread, fillAll_consChar, ih,
      interpolated_cons (Tag.found?_eq_none hread)]

/-! ## From the pieces to the page -/

/-- Where there is no boundary there are no gaps. -/
theorem dropGaps_eq_self {tokens : List Token} (h : ∀ t ∈ tokens, t.isBoundary = false) :
    dropGaps false tokens = tokens := by
  induction tokens with
  | nil => rfl
  | cons t rest ih =>
    rcases List.forall_mem_cons.mp h with ⟨ht, hrest⟩
    rw [dropGaps, ht, ih hrest]
    rfl

/-- A symbol that is no boundary is a node without parts. -/
theorem Symbol.exists_node {x : Symbol} (h : x.isBoundary = false) :
    ∃ n, x.node? = some n ∧ n.symbols = [x] ∧ Tree.IsRead [n] := by
  have hleaf : ∀ n : Node, n.IsLeaf → n.IsRead → Tree.IsRead [n] :=
    fun n hn => (Tree.isRead_leaf hn).mpr
  cases x with
  | text content => exact ⟨.text content, rfl, rfl, hleaf _ trivial trivial⟩
  | tag found =>
    cases found with
    | value path => exact ⟨.value path, rfl, rfl, hleaf _ trivial trivial⟩
    | json path => exact ⟨.json path, rfl, rfl, hleaf _ trivial trivial⟩
    | html path => exact ⟨.html path, rfl, rfl, hleaf _ trivial trivial⟩
    | _ => cases h

/-- Symbols without boundaries are those of their nodes. -/
theorem isRead_and_symbols_of_flat {xs : List Symbol} (h : ∀ x ∈ xs, x.isBoundary = false) :
    Tree.IsRead (xs.filterMap Symbol.node?) ∧ Tree.symbols (xs.filterMap Symbol.node?) = xs := by
  induction xs with
  | nil => exact ⟨Tree.isRead_nil, rfl⟩
  | cons x rest ih =>
    rcases List.forall_mem_cons.mp h with ⟨hx, hrest⟩
    rcases Symbol.exists_node hx with ⟨n, hn, hsymbols, hread⟩
    rcases ih hrest with ⟨hreads, hall⟩
    rw [List.filterMap_cons_some hn, Tree.isRead_cons, Tree.symbols_cons, hall, hsymbols]
    exact ⟨⟨hread, hreads⟩, rfl⟩

section Flat

variable {text : String}

theorem Symbol.isBoundary_of_flat (h : ∀ t ∈ Token.ofText text, t.isBoundary = false) :
    ∀ x ∈ symbolsOf text, x.isBoundary = false := by
  intro x hx
  rcases List.mem_filterMap.mp hx with ⟨⟨form, source, location⟩, ht, hsymbol⟩
  have hboundary := h _ ht
  cases form with
  | stop => cases hsymbol
  | text =>
    cases hsymbol
    rfl
  | tag tag =>
    cases hsymbol
    exact hboundary

theorem Token.isBoundary_of_flat (h : ∀ x ∈ symbolsOf text, x.isBoundary = false) :
    ∀ t ∈ Token.ofText text, t.isBoundary = false := by
  rintro ⟨form, source, location⟩ ht
  cases form with
  | stop => rfl
  | text => rfl
  | tag tag => exact h (.tag tag) (List.mem_filterMap.mpr ⟨_, ht, rfl⟩)

/-- A text without boundaries compiles to its tags and texts in their order. -/
theorem compile_eq_ok_of_flat (h : ∀ t ∈ Token.ofText text, t.isBoundary = false) (name : String)
    (trim : Bool) :
    compile text name trim = .ok ((symbolsOf text).filterMap Symbol.node?) := by
  have hdrop : (if trim then dropGaps false (Token.ofText text) else Token.ofText text) =
      Token.ofText text := by
    rw [dropGaps_eq_self h, ite_self]
  rw [compile_eq_ok_iff_build, hdrop, build_eq_ok]
  exact isRead_and_symbols_of_flat (Symbol.isBoundary_of_flat h)

end Flat

section Render

variable (embed : Scope → String → Run (List Fragment)) (s : Scope)

theorem printPage_singleton (f : Fragment) : printPage [f] = f.print := by
  rw [printPage, List.map_singleton, String.join_cons, String.join_nil, String.append_empty]

/-- A node that shows a value puts out one fragment, or none if there is no value. -/
theorem exec_shown (make : String → Fragment) (path : String) (j : Journal) :
    (Run.exec (do
      match ← valueOf s path with
      | none => return []
      | some v => return [make (← showValue v)]) j).1.map printPage =
      (s.shown? path).map fun text => text.elim "" fun shown => (make shown).print := by
  rw [Run.exec_bind, exec_valueOf, Scope.shown?]
  rcases s.value path with fault | _ | v
  · rfl
  · rfl
  · simp only [mapError_ok, Run.exec_bind, exec_showValue]
    rcases v.shown with fault | text
    · rfl
    · exact congrArg Except.ok (printPage_singleton _)

theorem exec_jsonFragment (path : String) (j : Journal) :
    (Run.exec (jsonFragment s path) j).1.map printPage = s.json path := by
  rw [jsonFragment, Run.exec_bind, exec_valueOf, Scope.json]
  rcases s.value path with fault | _ | v
  · rfl
  · exact congrArg Except.ok (printPage_singleton _)
  · simp only [mapError_ok, Option.bind_some]
    rcases Json.scriptSafe v with fault | text
    · exact congrArg Except.ok (printPage_singleton _)
    · exact congrArg Except.ok (printPage_singleton _)

/-- The node of a symbol puts out what stands for the symbol. -/
theorem Symbol.exec_render {x : Symbol} {n : Node} (hx : x.isBoundary = false)
    (hn : x.node? = some n) (j : Journal) :
    (Run.exec (n.render embed s) j).1.map printPage = x.fill s := by
  cases x with
  | text content =>
    cases hn
    rw [Node.render, Run.exec_pure]
    exact congrArg Except.ok (printPage_singleton _)
  | tag found =>
    cases found with
    | value path =>
      cases hn
      rw [Node.render]
      exact exec_shown s (fun text => .value (Text.escape text)) path j
    | html path =>
      cases hn
      rw [Node.render]
      exact exec_shown s .html path j
    | json path =>
      cases hn
      rw [Node.render]
      exact exec_jsonFragment s path j
    | _ => cases hx

/-- Symbols without boundaries put out what stands for them. -/
theorem exec_render_flat {xs : List Symbol} (h : ∀ x ∈ xs, x.isBoundary = false) (j : Journal) :
    (Run.exec (Tree.render embed s (xs.filterMap Symbol.node?)) j).1.map printPage =
      fillAll s xs := by
  induction xs generalizing j with
  | nil => rfl
  | cons x rest ih =>
    rcases List.forall_mem_cons.mp h with ⟨hx, hrest⟩
    rcases Symbol.exists_node hx with ⟨n, hn, -, -⟩
    have hfirst := Symbol.exec_render embed s hx hn j
    rw [List.filterMap_cons_some hn, Tree.render_cons, Run.exec_bind, fillAll, ← hfirst]
    rcases Run.exec (n.render embed s) j with ⟨failure | fs, k⟩
    · rfl
    · dsimp only
      rw [Run.exec_bind, ← ih hrest k]
      rcases Run.exec (Tree.render embed s (rest.filterMap Symbol.node?)) k with ⟨failure | gs, k'⟩
      · rfl
      · exact congrArg Except.ok (printPage_append fs gs)

end Render

/-! ## Where nothing fails -/

/-- The path that a symbol looks up. -/
def Symbol.path? (x : Symbol) : Option String := x.node?.bind Node.path?

/-- A tree of symbols looks up the paths of its symbols. -/
theorem Tree.paths_filterMap_node? (xs : List Symbol) :
    Tree.paths (xs.filterMap Symbol.node?) = xs.filterMap Symbol.path? := by
  induction xs with
  | nil => rfl
  | cons x rest ih =>
    rcases hnode : x.node? with _ | n
    · have hpath : x.path? = none := by rw [Symbol.path?, hnode, Option.bind_none]
      rw [List.filterMap_cons_none hnode, List.filterMap_cons_none hpath, ih]
    · have hpath : x.path? = n.path? := by rw [Symbol.path?, hnode, Option.bind_some]
      have hpaths : n.paths = n.path?.toList := by
        cases x with
        | text => cases hnode; rfl
        | tag found => cases found <;> cases hnode <;> rfl
      rw [List.filterMap_cons_some hnode, Tree.paths, hpaths, ih, ← hpath]
      rcases hx : x.path? with _ | path
      · rw [List.filterMap_cons_none hx]
        rfl
      · rw [List.filterMap_cons_some hx]
        rfl

/-- In a text without tokens that are tags no tag stands. -/
theorem Token.absent_of_forall_not_isTag {text : String} (h : ∀ t ∈ ofText text, ¬ t.IsTag) :
    Tag.Absent text.toList := by
  rintro rest ⟨before, heq⟩
  rcases hread : Tag.read? rest with _ | ⟨body, tag, after⟩
  · rfl
  · rcases Tag.braceless_of_read? hread with ⟨hbody, htag⟩
    rw [Tag.eq_of_read? hread] at heq
    have ht := tag_mem_ofText_iff.mpr ⟨before, body, tag, after, heq.symm, hbody, htag, rfl⟩
    exact (h _ ht.1 ht.2).elim

namespace Engine

/-- A text that compiles is rendered as its tree is. -/
theorem exec_renderText_of_compile {e : Engine} {text name : String} {tree : Tree}
    (h : Curly.compile text name e.settings.dropGaps = .ok tree) (mode : Mode) (s : Scope)
    (j : Journal) :
    Run.exec (e.renderText mode text name s) j =
      Run.exec (e.render mode ⟨tree, name⟩ s) (j.noting [.compiled name tree.length]) := by
  rw [renderText, Run.exec_bind, compile, h]
  rfl

/-- A text without boundaries is rendered by filling it. -/
theorem exec_renderText_flat (e : Engine) (mode : Mode) (name : String) {text : String}
    (h : ∀ t ∈ Token.ofText text, t.isBoundary = false) (s : Scope) (j : Journal) :
    (Run.exec (e.renderText mode text name s) j).1 = interpolated s text.toList := by
  rw [exec_renderText_of_compile (compile_eq_ok_of_flat h name e.settings.dropGaps), exec_render,
    fragments_eq, exec_render_flat _ s (Symbol.isBoundary_of_flat h), symbolsOf_eq_map, fill_pieces]

/-- Interpolation touches nothing but the tags. Where no tag of a text gives it a shape, whether
gaps are dropped or not, the page of the text is the text with each tag replaced by what it shows
and every other character kept, and a tag that cannot be filled is the one way in which the rendering
fails; over plain data, where the numerals in the paths of the tags can be read, there is always such a
page; and a text without tags is its own page, whatever the data is. -/
theorem render_interpolated (e : Engine) (mode : Mode) (name : String) {text : String}
    (h : ∀ t ∈ Token.ofText text, t.isBoundary = false) :
    (∀ s j, (Run.exec (e.renderText mode text name s) j).1 = interpolated s text.toList) ∧
    (∀ s : Scope, s.Plain →
      (∀ x ∈ symbolsOf text, ∀ path, x.path? = some path → Path.isReadable path) →
      ∀ j, ∃ page, interpolated s text.toList = .ok page ∧
        (Run.exec (e.renderText mode text name s) j).1 = .ok page) ∧
    ((∀ t ∈ Token.ofText text, ¬ t.IsTag) →
      ∀ s j, (Run.exec (e.renderText mode text name s) j).1 = .ok text) := by
  refine ⟨e.exec_renderText_flat mode name h, ?_, ?_⟩
  · intro s hs hpaths j
    have hreadable : Tree.isReadable ((symbolsOf text).filterMap Symbol.node?) := by
      rw [Tree.isReadable, Tree.paths_filterMap_node?, List.all_eq_true]
      intro path hpath
      obtain ⟨x, hx, hlooked⟩ := List.mem_filterMap.mp hpath
      exact hpaths x hx path hlooked
    have hcompile := compile_eq_ok_of_flat h name e.settings.dropGaps
    obtain ⟨page, hpage⟩ := (e.exists_page_iff mode ⟨_, name⟩ s _).mpr (hs.completes hreadable)
    rw [← exec_renderText_of_compile hcompile mode s j] at hpage
    exact ⟨page, by rw [← e.exec_renderText_flat mode name h s j, hpage], hpage⟩
  · intro htags s j
    rw [e.exec_renderText_flat mode name h,
      interpolated_of_absent (Token.absent_of_forall_not_isTag htags), String.ofList_toList]

end Engine

/-- A text with a tag, a blank and braces that are no tag. -/
def mixedText : String := "<\x7b x \x7d \x7b\x7d"

theorem pieces_mixedText : pieces mixedText.toList =
    [.text ['<'], .tag " x ".toList (.value "x"), .text " \x7b\x7d".toList] := by
  have hfirst : Tag.read? ('<' :: "\x7b x \x7d \x7b\x7d".toList) = none := by decide
  have htag : Tag.read? "\x7b x \x7d \x7b\x7d".toList =
      some (" x ".toList, .value "x", [' ', '\x7b', '\x7d']) := by decide
  have hblank : Tag.read? [' ', '\x7b', '\x7d'] = none := by decide
  have hopen : Tag.read? ['\x7b', '\x7d'] = none := by decide
  have hclose : Tag.read? ['\x7d'] = none := by decide
  have hrest : pieces [' ', '\x7b', '\x7d'] = [.text " \x7b\x7d".toList] := by
    rw [pieces_of_read?_eq_none hblank, pieces_of_read?_eq_none hopen,
      pieces_of_read?_eq_none hclose, pieces_nil]
    rfl
  have hmixed : mixedText.toList = '<' :: "\x7b x \x7d \x7b\x7d".toList := rfl
  rw [hmixed, pieces_of_read?_eq_none hfirst, pieces_of_read?_eq_some htag, hrest]
  rfl

namespace Engine

/-- The text with a tag over a mapping that has markup in it, and a text without a tag. -/
theorem render_interpolated_mixed :
    (∀ t ∈ Token.ofText mixedText, t.isBoundary = false) ∧
    (Run.exec (Engine.renderText ⟨none, {}⟩ .blocking mixedText ""
      (.ofData (.dict [(.str "x", .str "&")]))) (.start none)).1 = .ok "<&amp; \x7b\x7d" ∧
    (Run.exec (Engine.renderText ⟨none, {}⟩ .blocking "a b" "" (.ofData .null)) (.start none)).1 =
      .ok "a b" := by
  have hflat : ∀ t ∈ Token.ofText mixedText, t.isBoundary = false := by
    rw [Token.ofText, pieces_mixedText]
    decide
  have hplain : Token.ofText "a b" = locate .start [.text "a b".toList] := by
    rw [Token.ofText]
    exact congrArg (locate .start) (pieces_of_not_mem_brace (by decide))
  have hdata : (Scope.ofData (.dict [(.str "x", .str "&")])).Plain := by
    refine ⟨⟨_, rfl, ?_⟩, fun layer hlayer => by cases hlayer⟩
    intro k v hmem
    cases List.mem_singleton.mp hmem
    rfl
  have hpaths : ∀ x ∈ symbolsOf mixedText, ∀ path, x.path? = some path →
      Path.isReadable path := by
    rw [symbolsOf_eq_map, pieces_mixedText]
    rintro x (_ | ⟨_, _ | ⟨_, _ | ⟨_, ⟨⟩⟩⟩⟩) path hpath
    · cases hpath
    · cases hpath
      decide
    · cases hpath
  have htext : ∀ t ∈ Token.ofText "a b", t.isBoundary = false ∧ ¬ t.IsTag := by
    rw [hplain]
    rintro _ (_ | ⟨_, _ | ⟨_, ⟨⟩⟩⟩)
    · refine ⟨rfl, ?_⟩
      rintro ⟨_, ⟨⟩⟩
    · refine ⟨rfl, ?_⟩
      rintro ⟨_, ⟨⟩⟩
  obtain ⟨page, hpage, hexec⟩ := (render_interpolated ⟨none, {}⟩ .blocking "" hflat).2.1 _ hdata
    hpaths (.start none)
  refine ⟨hflat, ?_, ?_⟩
  · rw [hexec]
    -- the page is computed piece by piece
    rw [← fill_pieces, pieces_mixedText] at hpage
    cases hpage
    rfl
  · exact (render_interpolated ⟨none, {}⟩ .blocking "" fun t ht => (htext t ht).1).2.2
      (fun t ht => (htext t ht).2) (.ofData .null) (.start none)

/-- A text that shows nothing but a number of too many digits has no page. -/
theorem exec_renderText_ones {digits : Nat} (h : digitLimit < digits) (s : Scope) (j : Journal) :
    (∀ t ∈ Token.ofText (Tree.print [.value (ones digits)]), t.isBoundary = false) ∧
    (Run.exec (Engine.renderText ⟨none, ⟨false, 16⟩⟩ .blocking (Tree.print [.value (ones digits)]) ""
      s) j).1 = .error (.badLookup (.numeral (.tooLongToRead digits))) := by
  have hnormal := Tree.isNormal_ones h
  constructor
  · refine Token.isBoundary_of_flat ?_
    rw [Tree.symbolsOf_print hnormal]
    exact List.forall_mem_singleton.mpr rfl
  · rw [exec_renderText_of_compile (Tree.compile_print hnormal ""), exec_render_ones _ _ _ _ _ h]

/-- A number of five thousand digits makes a text fail of which it is the one tag. -/
theorem renderText_ones :
    (∀ t ∈ Token.ofText (Tree.print [.value (ones 5000)]), t.isBoundary = false) ∧
    (Run.exec (Engine.renderText ⟨none, ⟨false, 16⟩⟩ .blocking (Tree.print [.value (ones 5000)]) ""
      (.ofData (.dict []))) (.start none)).1 =
        .error (.badLookup (.numeral (.tooLongToRead 5000))) :=
  exec_renderText_ones (by decide) _ _

end Engine

end Curly
