import Curly.Proofs.Grammar

/-!
# Gaps in a tree

Gaps are dropped from the tokens of a text, before any block is known. `Tree.withoutGaps` leaves
them out of a tree: there a gap is a blank text between two boundaries, and the tags of a block are
boundaries to the nodes in it. The two come to the same (`compile_trim_eq_map`): a template compiles
without its gaps exactly if it compiles with all its text, and then to the same tree less the gaps.

Where the text is a template, the symbols tell: the tags around a part of a tree are those around
its symbols (`Tree.withoutGapSymbols_symbols`). Where it is none, the open blocks tell: a text is
never blamed, and it changes nothing in a block but its nodes
(`Reading.map_shape_foldlM_dropGaps`).
-/

namespace Curly

/-! ## Trees without gaps -/

/-- Whether a node is written with a tag that gives the template its shape. -/
def Node.isBoundary : Node → Bool
  | .cond .. | .each .. | .embed _ => true
  | .text _ | .value _ | .json _ | .html _ | .bare => false

/-- Whether a node is a text of blanks without a line feed. -/
def Node.isBlankText : Node → Bool
  | .text content => Text.allBlank content.toList && !content.toList.contains '\n'
  | _ => false

mutual

/-- The node without the gaps in its parts. The tags around a part are boundaries. -/
def Node.withoutGaps : Node → Node
  | .cond condition test body none =>
      .cond condition test (Tree.withoutGaps true true body) none
  | .cond condition test body (some other) =>
      .cond condition test (Tree.withoutGaps true true body)
        (some (Tree.withoutGaps true true other))
  | .each collection item index body =>
      .each collection item index (Tree.withoutGaps true true body)
  | n => n

/-- The nodes without the blank texts between two boundaries, where `before` and `after` tell
whether boundaries stand before the first node and after the last. -/
def Tree.withoutGaps (before after : Bool) : List Node → Tree
  | [] => []
  | n :: rest =>
    let kept := Tree.withoutGaps n.isBoundary after rest
    if before && n.isBlankText && rest.head?.elim after Node.isBoundary then kept
    else n.withoutGaps :: kept

end

@[simp] theorem Tree.withoutGaps_nil (before after : Bool) :
    Tree.withoutGaps before after [] = [] := by
  rw [Tree.withoutGaps]

theorem Tree.withoutGaps_singleton (before after : Bool) (n : Node) :
    Tree.withoutGaps before after [n] =
      if before && n.isBlankText && after then [] else [n.withoutGaps] := by
  simp [Tree.withoutGaps]

theorem Tree.withoutGaps_cons (before after : Bool) (n : Node) (rest : Tree) :
    Tree.withoutGaps before after (n :: rest) =
      Tree.withoutGaps before (rest.head?.elim after Node.isBoundary) [n] ++
        Tree.withoutGaps n.isBoundary after rest := by
  rw [Tree.withoutGaps_singleton, Tree.withoutGaps]
  by_cases hgap : before && n.isBlankText && rest.head?.elim after Node.isBoundary
  · simp [hgap]
  · simp [hgap]

theorem Tree.withoutGaps_of_isBlankText {n : Node} (h : n.isBlankText = false)
    (before after : Bool) : Tree.withoutGaps before after [n] = [n.withoutGaps] := by
  simp [Tree.withoutGaps_singleton, h]

example : Tree.withoutGaps false false
    [.text " ", .embed "a", .text " ", .embed "b", .text " ", .value "x", .text " "] =
      [.text " ", .embed "a", .embed "b", .text " ", .value "x", .text " "] := by
  rfl

/-- What is left of a tree that is as read is as read. -/
theorem Tree.IsRead.withoutGaps {t : Tree} (ht : t.IsRead) (before after : Bool) :
    Tree.IsRead (Tree.withoutGaps before after t) := by
  induction t using Tree.induct generalizing before after with
  | nil => simpa using ht
  | cons n rest ihn ih =>
    rcases Tree.isRead_cons.mp ht with ⟨hn, hrest⟩
    rw [Tree.withoutGaps_cons]
    exact Tree.isRead_append.mpr ⟨ihn hn _ _, ih hrest _ _⟩
  | leaf n hn =>
    have hself : n.withoutGaps = n := by
      cases n <;> first | exact hn.elim | rfl
    rw [Tree.withoutGaps_singleton, hself]
    split
    · exact Tree.isRead_nil
    · exact ht
  | embed name =>
    rw [Tree.withoutGaps_of_isBlankText rfl]
    exact Tree.isRead_embed name
  | cond condition test body ih =>
    rcases Tree.isRead_cond.mp ht with ⟨htest, hbody, -⟩
    rw [Tree.withoutGaps_of_isBlankText rfl, Node.withoutGaps]
    exact Tree.isRead_cond.mpr ⟨htest, ih hbody true true, Tree.isRead_nil⟩
  | condElse condition test body other ihbody ihother =>
    rcases Tree.isRead_cond.mp ht with ⟨htest, hbody, hother⟩
    rw [Tree.withoutGaps_of_isBlankText rfl, Node.withoutGaps]
    exact Tree.isRead_cond.mpr ⟨htest, ihbody hbody true true, ihother hother true true⟩
  | each collection item index body ih =>
    rw [Tree.withoutGaps_of_isBlankText rfl, Node.withoutGaps]
    exact Tree.isRead_each.mpr (ih (Tree.isRead_each.mp ht) true true)

/-! ## Symbols without gaps -/

namespace Symbol

/-- Whether a symbol is a tag that gives the template its shape. -/
def isBoundary : Symbol → Bool
  | text _ => false
  | tag found => found.isBoundary

/-- Whether a symbol is a text of blanks without a line feed. -/
def isBlankText : Symbol → Bool
  | text content => Text.allBlank content.toList && !content.toList.contains '\n'
  | tag _ => false

end Symbol

/-- The symbols without the blank texts between two boundaries, where `before` tells whether a
boundary stands before the first. -/
def withoutGapSymbols (before : Bool) : List Symbol → List Symbol
  | [] => []
  | x :: rest =>
    let kept := withoutGapSymbols x.isBoundary rest
    if before && x.isBlankText && rest.head?.any Symbol.isBoundary then kept else x :: kept

theorem withoutGapSymbols_cons_of_isBlankText {x : Symbol} (h : x.isBlankText = false)
    (before : Bool) (rest : List Symbol) :
    withoutGapSymbols before (x :: rest) = x :: withoutGapSymbols x.isBoundary rest := by
  simp [withoutGapSymbols, h]

/-- Gaps are dropped from tokens as from their symbols, up to the token that marks the end. -/
theorem filterMap_symbol?_dropGaps {tokens : List Token} {xs : List Symbol}
    (h : tokens.map Token.symbol? = xs.map some) (before : Bool) (l : Location) :
    (dropGaps before (tokens ++ [⟨.stop, "", l⟩])).filterMap Token.symbol? =
      withoutGapSymbols before xs := by
  have hsame : ∀ {t : Token} {x : Symbol}, t.symbol? = some x →
      t.isBoundary = x.isBoundary ∧ t.isBlankText = x.isBlankText := by
    rintro ⟨form, source, location⟩ x hx
    cases form with
    | text | tag found =>
      cases hx
      exact ⟨rfl, rfl⟩
    | stop => cases hx
  induction tokens generalizing xs before with
  | nil =>
    cases List.map_eq_nil_iff.mp h.symm
    simp [dropGaps, Token.isBlankText, Token.symbol?, withoutGapSymbols]
  | cons t rest ih =>
    rcases xs with _ | ⟨x, more⟩
    · cases h
    rw [List.map_cons, List.map_cons, List.cons.injEq] at h
    rcases h with ⟨ht, hrest⟩
    -- the next token is a boundary if the next symbol is one; the mark of the end is none
    have hnext : (rest ++ [(⟨.stop, "", l⟩ : Token)]).head?.any Token.isBoundary =
        more.head?.any Symbol.isBoundary := by
      cases rest with
      | nil =>
        cases List.map_eq_nil_iff.mp hrest.symm
        rfl
      | cons u _ =>
        rcases more with _ | ⟨y, _⟩
        · cases hrest
        · exact (hsame (List.cons.inj hrest).1).1
    rw [List.cons_append, dropGaps, withoutGapSymbols, (hsame ht).1, (hsame ht).2, hnext]
    split
    · exact ih hrest x.isBoundary
    · rw [List.filterMap_cons_some ht, ih hrest x.isBoundary]

/-- The symbols of a node that is read begin with a boundary exactly if the node is one. -/
theorem Node.isBoundary_head?_symbols {n : Node} (hn : n.IsRead) (rest : List Symbol) :
    (n.symbols ++ rest).head?.any Symbol.isBoundary = n.isBoundary := by
  cases n with
  | cond condition test body other => cases other <;> rfl
  | bare => exact hn.elim
  | _ => rfl

/-- The nodes after a place begin with a boundary exactly if their symbols do. -/
theorem Tree.isBoundary_head?_symbols {t : Tree} (ht : t.IsRead) (rest : List Symbol) :
    (Tree.symbols t ++ rest).head?.any Symbol.isBoundary =
      t.head?.elim (rest.head?.any Symbol.isBoundary) Node.isBoundary := by
  cases t with
  | nil => rfl
  | cons n more =>
    rw [Tree.symbols_cons, List.append_assoc]
    exact Node.isBoundary_head?_symbols (ht n (.here List.mem_cons_self)) _

/-- A tree without its gaps has the symbols of the tree without theirs, whatever symbols come
after. -/
theorem Tree.withoutGapSymbols_symbols {t : Tree} (ht : t.IsRead) (before : Bool)
    (rest : List Symbol) :
    withoutGapSymbols before (Tree.symbols t ++ rest) =
      Tree.symbols (Tree.withoutGaps before (rest.head?.any Symbol.isBoundary) t) ++
        withoutGapSymbols (t.getLast?.elim before Node.isBoundary) rest := by
  -- what comes after is kept general: the parts of a block are followed by its tags
  induction t using Tree.induct generalizing before rest with
  | nil => simp
  | cons n tail ihn ih =>
    rcases Tree.isRead_cons.mp ht with ⟨hn, htail⟩
    have hfirst := ihn hn before (Tree.symbols tail ++ rest)
    rw [Tree.symbols_singleton, Tree.isBoundary_head?_symbols htail] at hfirst
    have hlast : (n :: tail).getLast?.elim before Node.isBoundary =
        tail.getLast?.elim n.isBoundary Node.isBoundary := by
      rcases List.eq_nil_or_concat tail with rfl | ⟨front, m, rfl⟩
      · rfl
      · simp [List.getLast?_cons]
    have hrest := ih htail n.isBoundary rest
    rw [List.getLast?_singleton, Option.elim_some, hrest] at hfirst
    rw [Tree.symbols_cons, List.append_assoc, hfirst, Tree.withoutGaps_cons before _ n tail,
      Tree.symbols_append, List.append_assoc, hlast]
  | leaf n hn =>
    have hread := (Tree.isRead_leaf hn).mp ht
    cases n with
    | text content =>
      have hblank : (Symbol.text content).isBlankText = (Node.text content).isBlankText := rfl
      rw [Tree.symbols_singleton, Node.symbols, List.singleton_append, withoutGapSymbols,
        Tree.withoutGaps_singleton, hblank]
      by_cases hgap : before && (Node.text content).isBlankText && rest.head?.any Symbol.isBoundary
      · rw [if_pos hgap, if_pos hgap]
        rfl
      · rw [if_neg hgap, if_neg hgap]
        rfl
    | value path | json path | html path =>
      rw [Tree.withoutGaps_of_isBlankText rfl]
      exact withoutGapSymbols_cons_of_isBlankText rfl before rest
    | bare => exact hread.elim
    | embed => exact hn.elim
    | cond => exact hn.elim
    | each => exact hn.elim
  | embed name =>
    rw [Tree.withoutGaps_of_isBlankText rfl]
    exact withoutGapSymbols_cons_of_isBlankText rfl before rest
  | cond condition test body ih =>
    rcases Tree.isRead_cond.mp ht with ⟨-, hbody, -⟩
    have hinside := ih hbody true (.tag (.close .cond) :: rest)
    rw [Tree.withoutGaps_of_isBlankText rfl, Tree.symbols_singleton, Tree.symbols_singleton,
      Node.withoutGaps, Node.symbols, Node.symbols, List.cons_append, List.append_assoc,
      withoutGapSymbols_cons_of_isBlankText rfl]
    simp only [Symbol.isBoundary, Tag.isBoundary, List.singleton_append]
    rw [hinside, withoutGapSymbols_cons_of_isBlankText rfl]
    simp [Symbol.isBoundary, Tag.isBoundary, Node.isBoundary]
  | condElse condition test body other ihbody ihother =>
    rcases Tree.isRead_cond.mp ht with ⟨-, hbody, hother⟩
    have hfirst := ihbody hbody true
      (.tag .elseMark :: (Tree.symbols other ++ .tag (.close .cond) :: rest))
    have hsecond := ihother hother true (.tag (.close .cond) :: rest)
    rw [Tree.withoutGaps_of_isBlankText rfl, Tree.symbols_singleton, Tree.symbols_singleton,
      Node.withoutGaps, Node.symbols, Node.symbols, List.cons_append, List.append_assoc,
      List.cons_append, List.append_assoc, withoutGapSymbols_cons_of_isBlankText rfl]
    simp only [Symbol.isBoundary, Tag.isBoundary, List.singleton_append]
    rw [hfirst, withoutGapSymbols_cons_of_isBlankText rfl]
    simp only [Symbol.isBoundary, Tag.isBoundary]
    rw [hsecond, withoutGapSymbols_cons_of_isBlankText rfl]
    simp [Symbol.isBoundary, Tag.isBoundary, Node.isBoundary]
  | each collection item index body ih =>
    have hinside := ih (Tree.isRead_each.mp ht) true (.tag (.close .each) :: rest)
    rw [Tree.withoutGaps_of_isBlankText rfl, Tree.symbols_singleton, Tree.symbols_singleton,
      Node.withoutGaps, Node.symbols, Node.symbols, List.cons_append, List.append_assoc,
      withoutGapSymbols_cons_of_isBlankText rfl]
    simp only [Symbol.isBoundary, Tag.isBoundary, List.singleton_append]
    rw [hinside, withoutGapSymbols_cons_of_isBlankText rfl]
    simp [Symbol.isBoundary, Tag.isBoundary, Node.isBoundary]

/-! ## What is blamed -/

theorem map_mapError {ε ε' α β : Type} (result : Except ε α) (f : ε → ε') (g : α → β) :
    (result.mapError f).map g = (result.map g).mapError f := by
  cases result with
  | error error => rfl
  | ok a => rfl

/-- Of two results that are told apart by nothing but what `g` forgets, what follows is told apart
by nothing but what `g'` forgets, if that goes for each two values. -/
theorem map_bind_congr {ε α β γ δ : Type} {x y : Except ε α} {g : α → γ} {g' : β → δ}
    {next next' : α → Except ε β} (h : x.map g = y.map g)
    (hnext : ∀ a b, g a = g b → (next a).map g' = (next' b).map g') :
    (x >>= next).map g' = (y >>= next').map g' := by
  cases x with
  | error f =>
    cases y with
    | error f' =>
      cases h
      rfl
    | ok b => cases h
  | ok a =>
    cases y with
    | error f' => cases h
    | ok b => exact hnext a b (Except.ok.inj h)

/-- The block without its nodes. -/
def PendingBlock.shape (b : PendingBlock) : PendingBlock :=
  { b with body := #[], otherwise := b.otherwise.map fun _ => #[] }

namespace Reading

/-- The open blocks without their nodes. -/
def shape (r : Reading) : Reading := ⟨#[], r.blocks.map PendingBlock.shape⟩

theorem shape_push (r : Reading) (n : Node) : (r.push n).shape = r.shape := by
  rcases r with ⟨root, _ | ⟨b, outer⟩⟩
  · rfl
  · rcases b with ⟨opening, source, location, body, _ | nodes⟩
    · rfl
    · rfl

theorem shape_shape (r : Reading) : r.shape.shape = r.shape := by
  simp [shape, PendingBlock.shape, Function.comp_def]

theorem shape_beginBlock (r : Reading) (b : PendingBlock) :
    (r.beginBlock b).shape = (r.shape.beginBlock b).shape := by
  simp [shape, beginBlock, PendingBlock.shape, Function.comp_def]

/-- Whether the other branch of a block can begin depends on the open blocks. -/
theorem map_shape_beginElse (r : Reading) :
    r.beginElse.map shape = r.shape.beginElse.map shape := by
  rcases r with ⟨root, _ | ⟨⟨opening, source, location, body, otherwise⟩, outer⟩⟩
  · rfl
  · cases opening with
    | cond condition =>
      cases otherwise with
      | none =>
        have hshape :=
          shape_shape ⟨#[], ⟨.cond condition, source, location, #[], some #[]⟩ :: outer⟩
        exact congrArg Except.ok hshape.symm
      | some nodes => rfl
    | each collection item index => rfl

/-- Whether a block can be closed depends on the open blocks. -/
theorem map_shape_closeBlock (r : Reading) (kind : BlockKind) :
    (r.closeBlock kind).map shape = (r.shape.closeBlock kind).map shape := by
  rcases r with ⟨root, _ | ⟨b, outer⟩⟩
  · rfl
  -- the kind and the place of a block are told by its shape
  · have hclosed : ∀ (root : Array Node) (b : PendingBlock), b.opening.kind = kind →
        ∀ outer, closeBlock ⟨root, b :: outer⟩ kind = .ok (push ⟨root, outer⟩ b.node) :=
      fun _ _ hkind _ => if_neg (not_not_intro hkind)
    have hrefused : ∀ (root : Array Node) (b : PendingBlock), b.opening.kind ≠ kind →
        ∀ outer, closeBlock ⟨root, b :: outer⟩ kind =
          .error (.mismatch kind b.opening.kind b.location) :=
      fun _ _ hkind _ => if_pos hkind
    change _ = (closeBlock ⟨#[], b.shape :: outer.map PendingBlock.shape⟩ kind).map shape
    by_cases hkind : b.opening.kind = kind
    · rw [hclosed root b hkind, hclosed #[] b.shape hkind]
      change Except.ok (shape _) = Except.ok (shape _)
      rw [shape_push, shape_push]
      exact congrArg Except.ok (shape_shape ⟨root, outer⟩).symm
    · rw [hrefused root b hkind, hrefused #[] b.shape hkind]
      rfl

theorem map_shape_readTag (r : Reading) (t : Token) (tag : Tag) :
    (r.readTag t tag).map shape = (r.shape.readTag t tag).map shape := by
  cases tag with
  | value path | json path | html path | embed name =>
    change Except.ok (shape _) = Except.ok (shape _)
    rw [shape_push, shape_push, shape_shape]
  | ifOpen condition => exact congrArg Except.ok (shape_beginBlock r _)
  | eachOpen collection item index => exact congrArg Except.ok (shape_beginBlock r _)
  | elseMark => exact map_shape_beginElse r
  | close kind => exact map_shape_closeBlock r kind

/-- What a token does to the open blocks, and whether it is blamed, depends on them. -/
theorem map_shape_read (r : Reading) (t : Token) :
    (r.read t).map shape = (r.shape.read t).map shape := by
  rcases t with ⟨form, source, location⟩
  cases form with
  | text =>
    change Except.ok (shape _) = Except.ok (shape _)
    rw [shape_push, shape_push, shape_shape]
  | tag tag =>
    rw [read, read, map_mapError, map_mapError, map_shape_readTag]
  | stop => exact congrArg Except.ok (shape_shape r).symm

/-- Whether a reading can be finished depends on the open blocks. -/
theorem map_finish (r : Reading) : r.finish.map (fun _ => ()) = r.shape.finish.map fun _ => () := by
  rcases r with ⟨root, blocks⟩
  rcases List.eq_nil_or_concat blocks with rfl | ⟨inner, outermost, rfl⟩
  · rfl
  · simp [finish, shape, PendingBlock.shape, Except.map]

theorem map_shape_read_congr {r r' : Reading} (h : r'.shape = r.shape) (t : Token) :
    (r'.read t).map shape = (r.read t).map shape := by
  rw [map_shape_read r', h, ← map_shape_read r]

/-- Dropping gaps changes nothing in what is blamed: readings of one shape keep one shape. -/
theorem map_shape_foldlM_dropGaps {r r' : Reading} (h : r'.shape = r.shape) (before : Bool)
    (tokens : List Token) :
    ((dropGaps before tokens).foldlM read r').map shape = (tokens.foldlM read r).map shape := by
  induction tokens generalizing r r' before with
  | nil => exact congrArg Except.ok h
  | cons t rest ih =>
    rw [dropGaps]
    split
    · next hgap =>
      -- a gap is a text, which is pushed onto the other reading alone
      have htext : t.symbol? = some (.text t.source) := by
        simp_all [Token.isBlankText, Token.symbol?]
      rw [List.foldlM_cons, read_of_text htext]
      exact ih (h.trans (shape_push r _).symm) t.isBoundary
    · rw [List.foldlM_cons, List.foldlM_cons]
      exact map_bind_congr (map_shape_read_congr h t) fun _ _ hnext => ih hnext t.isBoundary

end Reading

/-- Tokens without their gaps build a tree exactly if the tokens do, and else the same is blamed. -/
theorem map_build_dropGaps (before : Bool) (tokens : List Token) :
    (build (dropGaps before tokens)).map (fun _ => ()) = (build tokens).map fun _ => () := by
  refine map_bind_congr (Reading.map_shape_foldlM_dropGaps rfl before tokens) ?_
  intro r r' h
  rw [Reading.map_finish r, h, ← Reading.map_finish r']

/-- A text whose tokens build a tree builds without its gaps the tree without them. -/
theorem build_dropGaps_of_ok {text : String} {tree : Tree}
    (h : build (Token.ofText text) = .ok tree) :
    build (dropGaps false (Token.ofText text)) = .ok (Tree.withoutGaps false false tree) := by
  rcases build_eq_ok.mp h with ⟨hread, hsymbols⟩
  rcases Token.exists_ofText_eq text with ⟨tokens, l, htokens, hmap⟩
  refine build_eq_ok.mpr ⟨hread.withoutGaps false false, ?_⟩
  have hgaps := Tree.withoutGapSymbols_symbols hread false []
  rw [List.append_nil] at hgaps
  rw [htokens, filterMap_symbol?_dropGaps hmap, symbolsOf, ← hsymbols, hgaps]
  exact (List.append_nil _).symm

/-- Dropping gaps is a change of the tree alone: what a text compiles to without its gaps is what it
compiles to with all its text, less the blank texts between two boundaries; and where it does not
compile, the same is blamed at the same place. -/
theorem compile_trim_eq_map (text name : String) :
    compile text name true = (compile text name false).map (Tree.withoutGaps false false) := by
  have hblame := map_build_dropGaps false (Token.ofText text)
  simp only [compile, if_true, Bool.false_eq_true, if_false, map_mapError]
  rcases hbuild : build (Token.ofText text) with fault | tree
  · rw [hbuild] at hblame
    rcases hgaps : build (dropGaps false (Token.ofText text)) with fault' | tree'
    · rw [hgaps] at hblame
      cases hblame
      rfl
    · rw [hgaps] at hblame
      cases hblame
  · rw [build_dropGaps_of_ok hbuild]
    rfl

end Curly
