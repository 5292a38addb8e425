import Curly.Proofs.Entities
import Curly.Proofs.Interpolation
import Curly.Proofs.Layers
import Mathlib.Data.List.Infix

/-!
# The names of a loop

A loop binds its names for the tags of its body. A name is a word of any script, a path is written
in ASCII, and a path that reads as a literal is looked up nowhere; so which names a tag of the body
can show is a matter of three readers that do not know of each other. They agree on the ASCII words
that are no literals (`Scope.value_of_word`, `Engine.render_loop_names`). A name that is a literal
is bound, but shown as the literal, and a tag with a name in another script is no tag
(`Engine.render_loop_names_hidden`).
-/

namespace Curly

open Text

/-! ## Words as paths -/

/-- Whether a word is one of a class can be computed. -/
theorem Text.isRun_of_all {p : Char → Bool} {word : String} (hne : word ≠ "")
    (h : word.toList.all p = true) : IsRun p word :=
  ⟨hne, List.all_eq_true.mp h⟩

/-- A word in ASCII can be written as a path. -/
theorem Text.IsRun.isPath {name : String} (h : IsRun isWord name)
    (hascii : ∀ c ∈ name.toList, c.toNat < 0x80) : IsRun Path.isPathChar name := by
  refine ⟨h.1, fun c hc => ?_⟩
  have hword := h.2 c hc
  rw [isWord, if_pos (hascii c hc)] at hword
  rw [Path.isPathChar, hword, Bool.true_or]

/-- A word is looked up as a name, unless it is a literal. -/
theorem Scope.value_of_word {name : String} (h : IsRun isWord name) (s : Scope) :
    s.value name = match Path.literal? name.toList with
      | some (.ok v) => .ok (some v)
      | some (.error fault) => .error (.numeral fault)
      | none => s.get name := by
  have htrim : trim name.toList = name.toList := h.trim_eq_self fun _ => isBlank_of_isWord
  have hdot : '.' ∉ name.toList := fun hmem => Bool.false_ne_true (h.2 _ hmem)
  rw [Scope.value, htrim, split_of_not_mem hdot]
  dsimp only
  rw [if_neg h.toList_ne_nil, String.ofList_toList]
  rcases Path.literal? name.toList with _ | fault | v
  · rcases s.get name with fault | _ | v
    · rfl
    · rfl
    · rfl
  · rfl
  · rfl

/-- A layer answers for the names that it binds. -/
theorem Scope.get_push_of_bound {bindings : Bindings} {name : String} {found : Option Value}
    (h : Bindings.get? name bindings = some found) (s : Scope) :
    (s.push bindings).get name = .ok found := by
  rw [Scope.get, Scope.push, List.findSome?_cons, h]

/-- The decimal text of a number has nothing to escape. -/
theorem Text.escape_natRepr (k : Nat) : escape (toString k) = toString k := by
  have hmarkup : ('&' :: markupChars).all (!·.isDigit) = true := by decide
  have hkept : ∀ c ∈ (toString k).toList, entity c = [c] := by
    intro c hc
    have hdigits : (toString k).toList = Decimal.digitsOf k := Nat.toList_repr
    have hdigit := Path.isDigit_of_mem_digitsOf (hdigits ▸ hc)
    refine entity_of_not_mem fun hmem => ?_
    have hno := List.all_eq_true.mp hmarkup c hmem
    rw [hdigit] at hno
    cases hno
  rw [← String.toList_inj, toList_escape, List.flatMap_congr hkept, List.flatMap_singleton']

/-! ## What the body of a loop shows -/

/-- What a tag in the body of a loop shows of a name: the literal that it is, if it can be read, or else
what is bound to it. -/
def nameText (name : String) (bound : Except Failure String) : Except Failure String :=
  match Path.literal? name.toList with
  | some (.ok v) => (v.shown.map escape).mapError .notShown
  | some (.error fault) => .error (.badLookup (.numeral fault))
  | none => bound

/-- The decimal text of a place. -/
def placeText (k : Nat) : Except Failure String :=
  (Numeral.write k).mapError fun fault => .notShown (.numeral fault)

/-- What is shown for an item and its place by a tag for each, with a colon between them and a
semicolon after them. -/
def passText (item index : String) (x : Value) (k : Nat) : Except Failure String := do
  let shown ← nameText item ((x.shown.map escape).mapError .notShown)
  let place ← nameText index (placeText k)
  return shown ++ ":" ++ place ++ ";"

/-- The text of a place that can be counted is its digits. -/
theorem placeText_of_le {k : Nat} (h : k ≤ countLimit) : placeText k = .ok (toString k) := by
  rw [placeText, Numeral.write_of_fits (Numeral.fits_of_le_countLimit h)]
  rfl

/-- The text of a place has nothing to escape. -/
theorem shown_place (k : Nat) :
    ((Value.int k).shown.map escape).mapError Failure.notShown = placeText k := by
  have hshown : (Value.int k).shown = (Numeral.write k).mapError .numeral := rfl
  rw [hshown, placeText, Numeral.write]
  split
  · exact congrArg Except.ok (escape_natRepr k)
  · rfl

/-- The tags and texts that show a loop's item and its index. -/
def bodySymbols (item index : String) : List Symbol :=
  [.tag (.value item), .text ":", .tag (.value index), .text ";"]

theorem fill_value_of_bound {s : Scope} {name : String} (hname : IsRun isWord name) {v : Value}
    (h : s.get name = .ok (some v)) :
    (Tag.value name).fill s = nameText name ((v.shown.map escape).mapError .notShown) := by
  rw [Tag.fill, Scope.shown?, Scope.value_of_word hname, nameText]
  rcases Path.literal? name.toList with _ | fault | u
  · rw [h]
    dsimp only
    cases v.shown with
    | ok text => rfl
    | error fault => rfl
  · rfl
  · dsimp only
    cases u.shown with
    | ok text => rfl
    | error fault => rfl

/-- One pass through the loop shows the item and its place. -/
theorem fillAll_bodySymbols {item index : String} (hitem : IsRun isWord item)
    (hindex : IsRun isWord index) (hne : item ≠ index) (s : Scope) (k : Nat) (x : Value) :
    fillAll (s.push (loopBindings item index k x)) (bodySymbols item index) =
      passText item index x k := by
  have hbindings : loopBindings item index k x =
      Bindings.insert (.str index) (some (.int k)) [(.str item, some x)] := if_neg hindex.1
  have hx : (s.push (loopBindings item index k x)).get item = .ok (some x) := by
    refine Scope.get_push_of_bound ?_ s
    rw [hbindings, Bindings.get?_insert_of_ne (fun heq => hne (Key.str.inj heq).symm),
      Bindings.get?_cons_self]
  have hk : (s.push (loopBindings item index k x)).get index = .ok (some (.int k)) := by
    refine Scope.get_push_of_bound ?_ s
    rw [hbindings, Bindings.get?_insert_self]
  have hfirst := fill_value_of_bound hitem hx
  have hsecond := fill_value_of_bound hindex hk
  rw [shown_place] at hsecond
  simp only [bodySymbols, fillAll, Symbol.fill, hfirst, hsecond, passText]
  rcases nameText item ((x.shown.map escape).mapError .notShown) with failure | shown
  · rfl
  rcases nameText index (placeText k) with failure | place
  · rfl
  · refine congrArg Except.ok ?_
    simp only [String.append_assoc, String.append_empty]

/-! ## From a loop to its passes -/

/-- A loop puts out what its passes do, in order, where a pass puts out the same with every
journal. -/
theorem exec_renderItems {body : Nat → Value → Run (List Fragment)}
    {pass : Value × Nat → Except Failure String}
    (h : ∀ k x j, (Run.exec (body k x) j).1.map printPage = pass (x, k)) (k : Nat)
    (items : List Value) (j : Journal) :
    (Run.exec (renderItems body k items) j).1.map printPage =
      ((items.zipIdx k).mapM pass).map String.join := by
  induction items generalizing k j with
  | nil => rfl
  | cons x rest ih =>
    rw [renderItems, Run.exec_bind, List.zipIdx_cons, List.mapM_cons, ← h k x j]
    rcases Run.exec (body k x) j with ⟨failure | fs, j'⟩
    · rfl
    · dsimp only
      rw [Run.exec_bind]
      have hrest := ih (k + 1) j'
      generalize (rest.zipIdx (k + 1)).mapM pass = result at hrest ⊢
      generalize Run.exec (renderItems body (k + 1) rest) j' = last at hrest ⊢
      -- the passes after the first one fail or not on both sides
      rcases last with ⟨failure | gs, _⟩
      · cases result with
        | error other =>
          cases hrest
          rfl
        | ok texts => cases hrest
      · cases result with
        | error other => cases hrest
        | ok texts =>
          refine congrArg Except.ok ?_
          rw [printPage_append, Except.ok.inj hrest]
          exact String.join_cons.symm

/-- The text of a loop that shows its item and its index by their names. -/
def namesText (tag item index : String) : String :=
  tag ++ "\x7b " ++ item ++ " \x7d:\x7b " ++ index ++ " \x7d;\x7b/each\x7d"

/-- What the text compiles to. -/
def namesTree (collection item index : String) : Tree :=
  [.each collection item index [.value item, .text ":", .value index, .text ";"]]

/-- Whether a tag stands in a text can be seen at each place of it. -/
theorem Tag.absent_iff {cs : List Char} : Absent cs ↔ ∀ rest ∈ cs.tails, read? rest = none := by
  simp only [Absent, List.mem_tails]

/-- A text in which no tag stands can be written before a tag. -/
theorem lexical_text_tag {content : String} {tag : Tag} {rest : List Symbol} (hne : content ≠ "")
    (habsent : ∀ part ∈ content.toList.tails, Tag.read? part = none)
    (h : Lexical (.tag tag :: rest)) : Lexical (.text content :: .tag tag :: rest) := by
  refine lexical_cons.mpr ⟨⟨hne, Tag.absent_iff.mpr habsent⟩, h, ?_⟩
  rintro _ ⟨⟩ -
  exact id

/-- The rest of a loop from the tag that shows its index. -/
theorem lexical_index {index : String} (hindex : IsRun Path.isPathChar index) :
    Lexical [.tag (.value index), .text ";", .tag (.close .each)] :=
  lexical_tag_cons.mpr ⟨hindex, lexical_text_tag (by decide) (by decide)
    (lexical_tag_cons.mpr ⟨trivial, lexical_nil⟩)⟩

theorem symbolsOf_namesText {tag collection item index : String} {body : List Char}
    (htag : Tag.read? tag.toList = some (body, .eachOpen collection item index, []))
    (hitem : IsRun Path.isPathChar item) (hindex : IsRun Path.isPathChar index) :
    symbolsOf (namesText tag item index) = Tree.symbols (namesTree collection item index) := by
  have hlexical : Lexical (bodySymbols item index ++ [.tag (.close .each)]) :=
    lexical_tag_cons.mpr ⟨hitem, lexical_text_tag (by decide) (by decide) (lexical_index hindex)⟩
  have hvalue : ∀ path : String, (Symbol.tag (.value path)).source =
      "\x7b ".toList ++ (path.toList ++ " \x7d".toList) :=
    fun path => congrArg ("\x7b ".toList ++ ·) (List.append_assoc path.toList [' '] ['\x7d'])
  have hclose : (Symbol.tag (.close .each)).source = "\x7b/each\x7d".toList := rfl
  have hcolonText : " \x7d:\x7b ".toList = " \x7d".toList ++ (":".toList ++ "\x7b ".toList) := rfl
  have hend : " \x7d;\x7b/each\x7d".toList =
      " \x7d".toList ++ (";".toList ++ "\x7b/each\x7d".toList) := rfl
  have htext : (namesText tag item index).toList = tag.toList ++
      (bodySymbols item index ++ [Symbol.tag (.close .each)]).flatMap Symbol.source := by
    rw [namesText]
    simp only [String.toList_append, hcolonText, hend, bodySymbols, List.cons_append,
      List.nil_append, List.flatMap_cons, List.flatMap_nil, hvalue, hclose, List.append_assoc,
      List.append_nil]
    rfl
  rw [symbolsOf_eq_map, htext, pieces_of_read?_eq_some (Tag.read?_append htag _), List.nil_append,
    List.map_cons, hlexical.map_symbol_pieces]
  rfl

/-- A tree without gaps is compiled from the texts with its symbols, whether gaps are dropped or
not. -/
theorem compile_of_symbols {text : String} {tree : Tree} (hread : tree.IsRead)
    (hsymbols : symbolsOf text = Tree.symbols tree)
    (hgaps : Tree.withoutGaps false false tree = tree) (name : String) (trim : Bool) :
    compile text name trim = .ok tree := by
  have hplain : compile text name false = .ok tree := compile_eq_ok.mpr ⟨hread, hsymbols.symm⟩
  cases trim with
  | false => exact hplain
  | true => rw [compile_trim_eq_map, hplain, Except.map, hgaps]

theorem isBoundary_of_mem_bodySymbols (item index : String) :
    ∀ x ∈ bodySymbols item index, x.isBoundary = false := by
  simp [bodySymbols, Symbol.isBoundary, Tag.isBoundary]

theorem compile_namesText {tag collection item index : String} {body : List Char}
    (htag : Tag.read? tag.toList = some (body, .eachOpen collection item index, []))
    (hitem : IsRun Path.isPathChar item) (hindex : IsRun Path.isPathChar index) (name : String)
    (trim : Bool) :
    compile (namesText tag item index) name trim = .ok (namesTree collection item index) := by
  have hread : Tree.IsRead (namesTree collection item index) :=
    Tree.isRead_each.mpr (isRead_and_symbols_of_flat (isBoundary_of_mem_bodySymbols item index)).1
  exact compile_of_symbols hread (symbolsOf_namesText htag hitem hindex) rfl name trim

namespace Engine

/-- The names of a loop that are ASCII words can be shown in its body. Whichever way the tag of the
loop is written, each pass over a list or a tuple shows the item under its name, escaped, and its
place under the name of the index, in digits; only a name that is a literal is shown as the literal. -/
theorem render_loop_names (e : Engine) (mode : Mode) (name : String)
    {tag collection item index : String} {body : List Char}
    (htag : Tag.read? tag.toList = some (body, .eachOpen collection item index, []))
    (hindex : index ≠ "") (hne : item ≠ index)
    (hascii : ∀ c ∈ item.toList ++ index.toList, c.toNat < 0x80) {s : Scope} {v : Value}
    {items : List Value} (hvalue : s.value collection = .ok (some v))
    (hitems : v.items? = some items) (j : Journal) :
    (Run.exec (e.renderText mode (namesText tag item index) name s) j).1 =
      (items.zipIdx.mapM fun (x, k) => passText item index x k).map String.join ∧
    ∀ k ≤ countLimit, placeText k = .ok (toString k) := by
  refine ⟨?_, fun k => placeText_of_le⟩
  rcases Tag.braceless_of_read? htag with ⟨hbody, hread⟩
  rcases Tag.isNormal_of_ofBody? hbody hread with ⟨-, hitem, hempty | hplace⟩
  · exact (hindex hempty).elim
  rcases List.forall_mem_append.mp hascii with ⟨hitemAscii, hplaceAscii⟩
  have hcompile := compile_namesText htag (hitem.isPath hitemAscii) (hplace.isPath hplaceAscii) name
    e.settings.dropGaps
  rw [exec_renderText_of_compile hcompile, exec_render, fragments_eq, namesTree,
    Tree.render_singleton, Node.render_each_eq hvalue hitems]
  refine exec_renderItems (fun k x j' => ?_) 0 items _
  have hpass := exec_render_flat (e.embed mode e.settings.maxDepth.toNat (rootChain name))
    (s.push (loopBindings item index k x)) (isBoundary_of_mem_bodySymbols item index) j'
  exact hpass.trans (fillAll_bodySymbols hitem hplace hne s k x)

end Engine

/-! ## Names that are not shown -/

/-- The page of a loop over one item that shows it and its place by their names. -/
def namesPage (tag item index : String) : Except Failure String :=
  (Run.exec (Engine.renderText ⟨none, {}⟩ .blocking (namesText tag item index) ""
    (.ofData (.dict [(.str "xs", .list [.str "<"])]))) (.start none)).1

/-- What the text of a loop whose item has a name in another script compiles to: the tag with the
name is text. -/
def foreignTree : Tree := [.each "xs" "é" "i" [.text "\x7b é \x7d:", .value "i", .text ";"]]

theorem compile_foreign (trim : Bool) :
    compile (namesText "\x7b#each xs as é, i\x7d" "é" "i") "" trim = .ok foreignTree := by
  have hindex : IsRun Path.isPathChar "i" := isRun_of_all (by decide) (by decide)
  have hnormal : (Tag.eachOpen "xs" "é" "i").IsNormal :=
    ⟨isRun_of_all (by decide) (by decide), isRun_of_all (by decide) (by decide +kernel),
      .inr (isRun_of_all (by decide) (by decide))⟩
  have hlexical : Lexical (Tree.symbols foreignTree) :=
    lexical_tag_cons.mpr ⟨hnormal, lexical_text_tag (by decide) (by decide) (lexical_index hindex)⟩
  have htext : (namesText "\x7b#each xs as é, i\x7d" "é" "i").toList =
      (Tree.symbols foreignTree).flatMap Symbol.source := by decide
  have hsymbols : symbolsOf (namesText "\x7b#each xs as é, i\x7d" "é" "i") =
      Tree.symbols foreignTree := by
    rw [symbolsOf_eq_map, htext, hlexical.map_symbol_pieces]
  have hbody : ∀ x ∈ [Symbol.text "\x7b é \x7d:", .tag (.value "i"), .text ";"],
      x.isBoundary = false := by decide
  exact compile_of_symbols (Tree.isRead_each.mpr (isRead_and_symbols_of_flat hbody).1) hsymbols rfl
    "" trim

namespace Engine

/-- A loop whose tag has blanks in it. -/
theorem render_loop_names_spaced :
    Tag.read? "\x7b#each  xs as x ,i \x7d".toList =
      some ("#each  xs as x ,i ".toList, .eachOpen "xs" "x" "i", []) ∧
    namesPage "\x7b#each  xs as x ,i \x7d" "x" "i" = .ok "&lt;:0;" := by
  have htag : Tag.read? "\x7b#each  xs as x ,i \x7d".toList =
      some ("#each  xs as x ,i ".toList, .eachOpen "xs" "x" "i", []) := by decide
  have hascii : ("x".toList ++ "i".toList).all (·.toNat < 0x80) = true := by decide
  refine ⟨htag, ?_⟩
  rw [namesPage, (render_loop_names ⟨none, {}⟩ .blocking "" htag (by decide) (by decide)
    (fun c hc => of_decide_eq_true (List.all_eq_true.mp hascii c hc)) rfl rfl _).1]
  rfl

/-- A loop over one item whose name is a literal, and one whose name is not in ASCII: the tag of the
loop gives the names, and the page does not show the item. -/
theorem render_loop_names_hidden :
    Tag.read? "\x7b#each xs as 1, i\x7d".toList =
      some ("#each xs as 1, i".toList, .eachOpen "xs" "1" "i", []) ∧
    namesPage "\x7b#each xs as 1, i\x7d" "1" "i" = .ok "1:0;" ∧
    namesPage "\x7b#each xs as 1, i\x7d" "1" "i" ≠ .ok "&lt;:0;" ∧
    Tag.read? "\x7b#each xs as é, i\x7d".toList =
      some ("#each xs as é, i".toList, .eachOpen "xs" "é" "i", []) ∧
    namesPage "\x7b#each xs as é, i\x7d" "é" "i" = .ok "\x7b é \x7d:0;" ∧
    namesPage "\x7b#each xs as é, i\x7d" "é" "i" ≠ .ok "&lt;:0;" := by
  have hliteral : Tag.read? "\x7b#each xs as 1, i\x7d".toList =
      some ("#each xs as 1, i".toList, .eachOpen "xs" "1" "i", []) := by decide
  have hforeign : Tag.read? "\x7b#each xs as é, i\x7d".toList =
      some ("#each xs as é, i".toList, .eachOpen "xs" "é" "i", []) := by decide +kernel
  have hfirst : namesPage "\x7b#each xs as 1, i\x7d" "1" "i" = .ok "1:0;" := by
    have hitem : IsRun Path.isPathChar "1" := isRun_of_all (by decide) (by decide)
    have hindex : IsRun Path.isPathChar "i" := isRun_of_all (by decide) (by decide)
    rw [namesPage, exec_renderText_of_compile (compile_namesText hliteral hitem hindex "" _)]
    rfl
  have hsecond : namesPage "\x7b#each xs as é, i\x7d" "é" "i" = .ok "\x7b é \x7d:0;" := by
    rw [namesPage, exec_renderText_of_compile (compile_foreign _)]
    rfl
  have hliteralPage : (.ok "1:0;" : Except Failure String) ≠ .ok "&lt;:0;" := by
    intro heq
    exact absurd (Except.ok.inj heq) (by decide)
  have hforeignPage : (.ok "\x7b é \x7d:0;" : Except Failure String) ≠ .ok "&lt;:0;" := by
    intro heq
    exact absurd (Except.ok.inj heq) (by decide)
  exact ⟨hliteral, hfirst, hfirst ▸ hliteralPage, hforeign, hsecond, hsecond ▸ hforeignPage⟩

end Engine

end Curly
