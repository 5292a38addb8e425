import Curly.Proofs.Trees
import Curly.Template.Syntax

/-!
# The grammar of templates

A template with all its text is a sequence of symbols: tags, and the texts between them. The grammar
of such sequences is `WellFormed`: blocks are closed by their own tag, and a condition may have one
`else` directly in it. `Tree.symbols` lists the symbols of a tree in order.

Compiling succeeds on the well-formed texts and on no others, and what it gives is the one tree that
is as read (`Tree.IsRead`) and has the symbols of the text (`compile_eq_ok`). One half is an
invariant of reading: the nodes and the open blocks so far have the symbols of the tokens so far
(`Reading.Sound.foldlM_read`). The other half reads the symbols of a tree back
(`Reading.foldlM_read_symbols`).
-/

namespace Curly

/-! ## Symbols -/

/-- A tag or a text of a template, without its place. -/
inductive Symbol where
  | text (text : String)
  | tag (tag : Tag)
deriving DecidableEq, Repr

/-- The symbol of a token, if it does not only mark the end. -/
def Token.symbol? (t : Token) : Option Symbol :=
  match t.form with
  | .text => some (.text t.source)
  | .tag tag => some (.tag tag)
  | .stop => none

/-- The symbols of a text. -/
def symbolsOf (text : String) : List Symbol := (Token.ofText text).filterMap Token.symbol?

/-- The symbol of a piece. -/
def Piece.symbol : Piece → Symbol
  | text cs => .text (String.ofList cs)
  | tag _ found => .tag found

theorem Piece.symbol?_token (p : Piece) (l : Location) : (p.token l).symbol? = some p.symbol := by
  cases p with
  | text cs => rfl
  | tag body found => rfl

theorem symbolsOf_eq_map (text : String) : symbolsOf text = (pieces text.toList).map Piece.symbol := by
  rw [symbolsOf, Token.ofText]
  generalize Location.start = l
  induction pieces text.toList generalizing l with
  | nil => rfl
  | cons p rest ih =>
    rw [locate, List.filterMap_cons_some (p.symbol?_token l), ih, List.map_cons]

/-- A text that begins with a tag is cut after it. -/
theorem pieces_of_read?_eq_some {cs body rest : List Char} {tag : Tag}
    (h : Tag.read? cs = some (body, tag, rest)) : pieces cs = .tag body tag :: pieces rest := by
  rw [pieces]
  split
  · next heq =>
    rw [h] at heq
    cases heq
    rfl
  · next heq =>
    rw [h] at heq
    cases heq

/-- A text that begins with no tag begins with a character of text. -/
theorem pieces_of_read?_eq_none {c : Char} {rest : List Char} (h : Tag.read? (c :: rest) = none) :
    pieces (c :: rest) = Piece.consChar c (pieces rest) := by
  rw [pieces]
  split
  · next heq =>
    rw [h] at heq
    cases heq
  · rfl

@[simp] theorem pieces_nil : pieces [] = [] := by
  rw [pieces]
  rfl

/-- A text without an opening brace is one piece. -/
theorem pieces_of_not_mem_brace {c : Char} {rest : List Char} (h : '\x7b' ∉ c :: rest) :
    pieces (c :: rest) = [.text (c :: rest)] := by
  have hread : Tag.read? (c :: rest) = none := by
    unfold Tag.read?
    split
    · next heq => simp_all
    · rfl
  rw [pieces_of_read?_eq_none hread]
  cases rest with
  | nil =>
    rw [pieces_nil]
    rfl
  | cons d rest =>
    rw [pieces_of_not_mem_brace fun hmem => h (List.mem_cons_of_mem c hmem)]
    rfl

theorem symbolsOf_of_not_mem_brace {text : String} (h : '\x7b' ∉ text.toList) (hne : text ≠ "") :
    symbolsOf text = [.text text] := by
  rcases List.exists_cons_of_ne_nil (mt String.toList_eq_nil_iff.mp hne) with ⟨c, rest, hcs⟩
  rw [symbolsOf_eq_map, hcs, pieces_of_not_mem_brace (hcs ▸ h), ← hcs, List.map_singleton,
    Piece.symbol, String.ofList_toList]

/-- Of the tokens of a text only the last has no symbol: it marks the end. -/
theorem Token.exists_ofText_eq (text : String) :
    ∃ (tokens : List Token) (l : Location), Token.ofText text = tokens ++ [⟨.stop, "", l⟩] ∧
      tokens.map Token.symbol? = (symbolsOf text).map some := by
  rw [symbolsOf, Token.ofText]
  generalize Location.start = l
  induction pieces text.toList generalizing l with
  | nil => exact ⟨[], l, rfl, rfl⟩
  | cons p rest ih =>
    rcases ih (l.after p.source) with ⟨tokens, last, heq, hmap⟩
    refine ⟨p.token l :: tokens, last, by rw [locate, heq, List.cons_append], ?_⟩
    rw [locate, List.filterMap_cons_some (p.symbol?_token l), List.map_cons, List.map_cons,
      p.symbol?_token, hmap]

/-- The sequences of symbols that make up templates. -/
inductive WellFormed : List Symbol → Prop where
  | nil : WellFormed []
  | text {text : String} {rest : List Symbol} : WellFormed rest → WellFormed (.text text :: rest)
  | value {path : String} {rest : List Symbol} :
      WellFormed rest → WellFormed (.tag (.value path) :: rest)
  | json {path : String} {rest : List Symbol} :
      WellFormed rest → WellFormed (.tag (.json path) :: rest)
  | html {path : String} {rest : List Symbol} :
      WellFormed rest → WellFormed (.tag (.html path) :: rest)
  | embed {name : String} {rest : List Symbol} :
      WellFormed rest → WellFormed (.tag (.embed name) :: rest)
  | cond {condition : String} {body rest : List Symbol} : WellFormed body → WellFormed rest →
      WellFormed (.tag (.ifOpen condition) :: (body ++ .tag (.close .cond) :: rest))
  | condElse {condition : String} {body other rest : List Symbol} : WellFormed body →
      WellFormed other → WellFormed rest →
      WellFormed (.tag (.ifOpen condition) ::
        (body ++ .tag .elseMark :: (other ++ .tag (.close .cond) :: rest)))
  | each {collection item index : String} {body rest : List Symbol} : WellFormed body →
      WellFormed rest → WellFormed (.tag (.eachOpen collection item index) ::
        (body ++ .tag (.close .each) :: rest))

theorem WellFormed.append {xs ys : List Symbol} (hx : WellFormed xs) (hy : WellFormed ys) :
    WellFormed (xs ++ ys) := by
  induction hx with
  | nil => exact hy
  | text _ ih => exact .text ih
  | value _ ih => exact .value ih
  | json _ ih => exact .json ih
  | html _ ih => exact .html ih
  | embed _ ih => exact .embed ih
  | cond hbody _ _ ih =>
    simp only [List.cons_append, List.append_assoc]
    exact .cond hbody ih
  | condElse hbody hother _ _ _ ih =>
    simp only [List.cons_append, List.append_assoc]
    exact .condElse hbody hother ih
  | each hbody _ _ ih =>
    simp only [List.cons_append, List.append_assoc]
    exact .each hbody ih

mutual

/-- The symbols of a node in order. -/
def Node.symbols : Node → List Symbol
  | .text text => [.text text]
  | .value path => [.tag (.value path)]
  | .json path => [.tag (.json path)]
  | .html path => [.tag (.html path)]
  | .embed name => [.tag (.embed name)]
  | .cond condition _ body none =>
      .tag (.ifOpen condition) :: (Tree.symbols body ++ [.tag (.close .cond)])
  | .cond condition _ body (some other) =>
      .tag (.ifOpen condition) ::
        (Tree.symbols body ++ .tag .elseMark :: (Tree.symbols other ++ [.tag (.close .cond)]))
  | .each collection item index body =>
      .tag (.eachOpen collection item index) :: (Tree.symbols body ++ [.tag (.close .each)])
  | .bare => []

/-- The symbols of a tree in order. -/
def Tree.symbols : List Node → List Symbol
  | [] => []
  | n :: rest => n.symbols ++ Tree.symbols rest

end

@[simp] theorem Tree.symbols_nil : Tree.symbols [] = [] := rfl

theorem Tree.symbols_cons (n : Node) (rest : Tree) :
    Tree.symbols (n :: rest) = n.symbols ++ Tree.symbols rest := by
  rw [Tree.symbols]

@[simp] theorem Tree.symbols_singleton (n : Node) : Tree.symbols [n] = n.symbols := by
  simp [Tree.symbols]

theorem Tree.symbols_append (t u : Tree) :
    Tree.symbols (t ++ u) = Tree.symbols t ++ Tree.symbols u := by
  induction t with
  | nil => rfl
  | cons n rest ih =>
    rw [List.cons_append, Tree.symbols_cons, ih, Tree.symbols_cons, List.append_assoc]

/-- The symbols of a tree are well-formed. -/
theorem Tree.wellFormed_symbols (t : Tree) : WellFormed (Tree.symbols t) := by
  induction t using Tree.induct with
  | nil => exact .nil
  | cons n rest ihn ih =>
    rw [Tree.symbols_singleton] at ihn
    rw [Tree.symbols_cons]
    exact ihn.append ih
  | leaf n hn =>
    rw [Tree.symbols_singleton]
    cases n with
    | text => exact .text .nil
    | value => exact .value .nil
    | json => exact .json .nil
    | html => exact .html .nil
    | bare => exact .nil
    | embed => exact hn.elim
    | cond => exact hn.elim
    | each => exact hn.elim
  | embed name => exact .embed .nil
  | cond condition test body ih =>
    rw [Tree.symbols_singleton, Node.symbols]
    exact .cond ih .nil
  | condElse condition test body other ihbody ihother =>
    rw [Tree.symbols_singleton, Node.symbols]
    exact .condElse ihbody ihother .nil
  | each collection item index body ih =>
    rw [Tree.symbols_singleton, Node.symbols]
    exact .each ih .nil

/-! ## Trees that are read from a text -/

/-- A node as it is read: it has a kind, and a condition is the one that its text reads as. -/
def Node.IsRead : Node → Prop
  | .cond condition test _ _ => test = Condition.ofText condition
  | .bare => False
  | _ => True

/-- All nodes of the tree, at any depth, are as they are read. -/
def Tree.IsRead (t : Tree) : Prop := ∀ n : Node, n.Occurs t → n.IsRead

theorem Tree.isRead_nil : Tree.IsRead [] := fun n hn => (n.not_occurs_nil hn).elim

theorem Tree.isRead_append {t u : Tree} : Tree.IsRead (t ++ u) ↔ Tree.IsRead t ∧ Tree.IsRead u := by
  constructor
  · intro h
    exact ⟨fun n hn => h n (Node.occurs_append.mpr (.inl hn)),
      fun n hn => h n (Node.occurs_append.mpr (.inr hn))⟩
  · rintro ⟨ht, hu⟩ n hn
    rcases Node.occurs_append.mp hn with hn | hn
    · exact ht n hn
    · exact hu n hn

theorem Tree.isRead_cons {n : Node} {rest : Tree} :
    Tree.IsRead (n :: rest) ↔ Tree.IsRead [n] ∧ Tree.IsRead rest :=
  Tree.isRead_append (t := [n])

theorem Tree.isRead_leaf {n : Node} (hn : n.IsLeaf) : Tree.IsRead [n] ↔ n.IsRead := by
  constructor
  · intro h
    exact h n (.here (List.mem_singleton_self n))
  · intro h m hm
    rw [Node.occurs_singleton_of_isLeaf hn] at hm
    exact hm ▸ h

theorem Tree.isRead_embed (name : String) : Tree.IsRead [.embed name] := by
  intro n hn
  rw [Node.occurs_embed] at hn
  rw [hn]
  trivial

theorem Tree.isRead_cond {condition : String} {test : Condition} {body : Tree}
    {other : Option Tree} :
    Tree.IsRead [.cond condition test body other] ↔
      test = Condition.ofText condition ∧ Tree.IsRead body ∧ Tree.IsRead (other.getD []) := by
  constructor
  · intro h
    refine ⟨h _ (.here (List.mem_singleton_self _)), fun n hn => h n ?_, fun n hn => h n ?_⟩
    · exact Node.occurs_cond.mpr (.inr (.inl hn))
    · exact Node.occurs_cond.mpr (.inr (.inr hn))
  · rintro ⟨htest, hbody, hother⟩ n hn
    rcases Node.occurs_cond.mp hn with rfl | hn | hn
    · exact htest
    · exact hbody n hn
    · exact hother n hn

theorem Tree.isRead_each {collection item index : String} {body : Tree} :
    Tree.IsRead [.each collection item index body] ↔ Tree.IsRead body := by
  constructor
  · intro h n hn
    exact h n (Node.occurs_each.mpr (.inr hn))
  · intro h n hn
    rcases Node.occurs_each.mp hn with rfl | hn
    · trivial
    · exact h n hn

/-- Every well-formed sequence is that of a tree as it is read. -/
theorem WellFormed.exists_tree {xs : List Symbol} (h : WellFormed xs) :
    ∃ t : Tree, t.IsRead ∧ Tree.symbols t = xs := by
  -- the parts of a block are trees by induction, and its tag gives the rest of its node
  induction h with
  | nil => exact ⟨[], Tree.isRead_nil, rfl⟩
  | @text text rest _ ih =>
    rcases ih with ⟨t, ht, rfl⟩
    have hn : Tree.IsRead [.text text] := (Tree.isRead_leaf (n := .text text) trivial).mpr trivial
    exact ⟨.text text :: t, Tree.isRead_cons.mpr ⟨hn, ht⟩, rfl⟩
  | @value path rest _ ih =>
    rcases ih with ⟨t, ht, rfl⟩
    have hn : Tree.IsRead [.value path] := (Tree.isRead_leaf (n := .value path) trivial).mpr trivial
    exact ⟨.value path :: t, Tree.isRead_cons.mpr ⟨hn, ht⟩, rfl⟩
  | @json path rest _ ih =>
    rcases ih with ⟨t, ht, rfl⟩
    have hn : Tree.IsRead [.json path] := (Tree.isRead_leaf (n := .json path) trivial).mpr trivial
    exact ⟨.json path :: t, Tree.isRead_cons.mpr ⟨hn, ht⟩, rfl⟩
  | @html path rest _ ih =>
    rcases ih with ⟨t, ht, rfl⟩
    have hn : Tree.IsRead [.html path] := (Tree.isRead_leaf (n := .html path) trivial).mpr trivial
    exact ⟨.html path :: t, Tree.isRead_cons.mpr ⟨hn, ht⟩, rfl⟩
  | @embed name rest _ ih =>
    rcases ih with ⟨t, ht, rfl⟩
    exact ⟨.embed name :: t, Tree.isRead_cons.mpr ⟨Tree.isRead_embed name, ht⟩, rfl⟩
  | @cond condition _ _ _ _ ihbody ih =>
    rcases ihbody with ⟨body, hbody, rfl⟩
    rcases ih with ⟨t, ht, rfl⟩
    refine ⟨.cond condition (Condition.ofText condition) body none :: t, ?_, ?_⟩
    · exact Tree.isRead_cons.mpr ⟨Tree.isRead_cond.mpr ⟨rfl, hbody, Tree.isRead_nil⟩, ht⟩
    · simp [Tree.symbols_cons, Node.symbols]
  | @condElse condition _ _ _ _ _ _ ihbody ihother ih =>
    rcases ihbody with ⟨body, hbody, rfl⟩
    rcases ihother with ⟨other, hother, rfl⟩
    rcases ih with ⟨t, ht, rfl⟩
    refine ⟨.cond condition (Condition.ofText condition) body (some other) :: t, ?_, ?_⟩
    · exact Tree.isRead_cons.mpr ⟨Tree.isRead_cond.mpr ⟨rfl, hbody, hother⟩, ht⟩
    · simp [Tree.symbols_cons, Node.symbols]
  | @each collection item index _ _ _ _ ihbody ih =>
    rcases ihbody with ⟨body, hbody, rfl⟩
    rcases ih with ⟨t, ht, rfl⟩
    refine ⟨.each collection item index body :: t, ?_, ?_⟩
    · exact Tree.isRead_cons.mpr ⟨Tree.isRead_each.mpr hbody, ht⟩
    · simp [Tree.symbols_cons, Node.symbols]

/-! ## Reading keeps the symbols -/

/-- The tag of an opening. -/
def Opening.tag : Opening → Tag
  | cond condition => .ifOpen condition
  | each collection item index => .eachOpen collection item index

namespace PendingBlock

/-- The symbols of an open block. -/
def symbols (b : PendingBlock) : List Symbol :=
  .tag b.opening.tag :: (Tree.symbols b.body.toList ++
    (b.otherwise.elim [] fun nodes => .tag .elseMark :: Tree.symbols nodes.toList))

/-- An open block as reading makes it. -/
structure Sound (b : PendingBlock) : Prop where
  loop : b.opening.kind = .each → b.otherwise = none
  body : Tree.IsRead b.body.toList
  otherwise : Tree.IsRead (b.otherwise.elim [] Array.toList)

theorem sound_ofTag (opening : Opening) (t : Token) : (ofTag opening t).Sound :=
  ⟨fun _ => rfl, Tree.isRead_nil, Tree.isRead_nil⟩

theorem symbols_push (b : PendingBlock) (n : Node) :
    (b.push n).symbols = b.symbols ++ n.symbols := by
  rcases b with ⟨opening, source, location, body, otherwise⟩
  cases otherwise <;> simp [push, symbols, Tree.symbols_append]

theorem Sound.push {b : PendingBlock} {n : Node} (hb : b.Sound) (hn : Tree.IsRead [n]) :
    (b.push n).Sound := by
  rcases b with ⟨opening, source, location, body, otherwise⟩
  rcases hb with ⟨hloop, hbody, hother⟩
  cases otherwise with
  | none =>
    have hpushed : Tree.IsRead (body.push n).toList := by
      rw [Array.toList_push]
      exact Tree.isRead_append.mpr ⟨hbody, hn⟩
    exact ⟨fun _ => rfl, hpushed, Tree.isRead_nil⟩
  | some nodes =>
    have hpushed : Tree.IsRead (nodes.push n).toList := by
      rw [Array.toList_push]
      exact Tree.isRead_append.mpr ⟨hother, hn⟩
    exact ⟨fun hkind => (nomatch hloop hkind), hbody, hpushed⟩

/-- Closing a block ends its symbols with its closing tag. -/
theorem Sound.symbols_node {b : PendingBlock} (hb : b.Sound) :
    b.node.symbols = b.symbols ++ [.tag (.close b.opening.kind)] := by
  rcases b with ⟨opening, source, location, body, otherwise⟩
  cases opening with
  | cond condition =>
    cases otherwise <;> simp [node, symbols, Node.symbols, Opening.tag, Opening.kind]
  | each collection item index =>
    -- a loop has one branch, so nothing of it is lost in its node
    have hnone : otherwise = none := hb.loop rfl
    simp [node, symbols, Node.symbols, Opening.tag, Opening.kind, hnone]

theorem Sound.isRead_node {b : PendingBlock} (hb : b.Sound) : Tree.IsRead [b.node] := by
  rcases b with ⟨opening, source, location, body, otherwise⟩
  cases opening with
  | cond condition =>
    refine Tree.isRead_cond.mpr ⟨rfl, hb.body, ?_⟩
    have hother := hb.otherwise
    cases otherwise with
    | none => exact hother
    | some nodes => exact hother
  | each collection item index => exact Tree.isRead_each.mpr hb.body

end PendingBlock

namespace Reading

/-- The symbols of what was read: those outside all blocks, then those of the open blocks from the
outermost to the innermost. -/
def symbols (r : Reading) : List Symbol :=
  Tree.symbols r.root.toList ++ r.blocks.reverse.flatMap PendingBlock.symbols

/-- A reading whose nodes and blocks are as reading makes them. -/
structure Sound (r : Reading) : Prop where
  root : Tree.IsRead r.root.toList
  blocks : ∀ b ∈ r.blocks, b.Sound

theorem sound_empty : empty.Sound := ⟨Tree.isRead_nil, fun _ hb => nomatch hb⟩

theorem symbols_push (r : Reading) (n : Node) : (r.push n).symbols = r.symbols ++ n.symbols := by
  rcases r with ⟨root, blocks⟩
  cases blocks with
  | nil => simp [push, symbols, Tree.symbols_append]
  | cons b outer => simp [push, symbols, PendingBlock.symbols_push]

theorem Sound.push {r : Reading} {n : Node} (hr : r.Sound) (hn : Tree.IsRead [n]) :
    (r.push n).Sound := by
  rcases r with ⟨root, blocks⟩
  cases blocks with
  | nil =>
    refine ⟨?_, hr.blocks⟩
    simp only [Reading.push, Array.toList_push]
    exact Tree.isRead_append.mpr ⟨hr.root, hn⟩
  | cons b outer =>
    refine ⟨hr.root, fun c hc => ?_⟩
    rcases List.mem_cons.mp hc with rfl | hc
    · exact (hr.blocks b List.mem_cons_self).push hn
    · exact hr.blocks c (List.mem_cons_of_mem b hc)

theorem symbols_beginBlock (r : Reading) (opening : Opening) (t : Token) :
    (r.beginBlock (.ofTag opening t)).symbols = r.symbols ++ [.tag opening.tag] := by
  simp [beginBlock, symbols, PendingBlock.ofTag, PendingBlock.symbols]

theorem Sound.beginBlock {r : Reading} (hr : r.Sound) (opening : Opening) (t : Token) :
    (r.beginBlock (.ofTag opening t)).Sound := by
  refine ⟨hr.root, fun b hb => ?_⟩
  rcases List.mem_cons.mp hb with rfl | hb
  · exact PendingBlock.sound_ofTag opening t
  · exact hr.blocks b hb

/-- What beginning the other branch does when it succeeds. -/
theorem Sound.beginElse {r r' : Reading} (hr : r.Sound) (h : r.beginElse = .ok r') :
    r'.Sound ∧ r'.symbols = r.symbols ++ [.tag .elseMark] := by
  rcases r with ⟨root, blocks⟩
  cases blocks with
  | nil => cases h
  | cons b outer =>
    simp only [Reading.beginElse] at h
    split at h
    · cases h
    rename_i hkind
    split at h
    · cases h
    rename_i hother
    cases h
    have hb := hr.blocks b List.mem_cons_self
    have hnone : b.otherwise = none := by simpa using hother
    constructor
    · refine ⟨hr.root, fun c hc => ?_⟩
      rcases List.mem_cons.mp hc with rfl | hc
      · exact ⟨fun heach => absurd heach (by simp_all), hb.body, Tree.isRead_nil⟩
      · exact hr.blocks c (List.mem_cons_of_mem b hc)
    · simp [symbols, PendingBlock.symbols, hnone]

/-- What closing a block does when it succeeds. -/
theorem Sound.closeBlock {r r' : Reading} {kind : BlockKind} (hr : r.Sound)
    (h : r.closeBlock kind = .ok r') :
    r'.Sound ∧ r'.symbols = r.symbols ++ [.tag (.close kind)] := by
  rcases r with ⟨root, blocks⟩
  cases blocks with
  | nil => cases h
  | cons b outer =>
    simp only [Reading.closeBlock] at h
    split at h
    · cases h
    rename_i hkind
    cases h
    have hb := hr.blocks b List.mem_cons_self
    have houter : Sound ⟨root, outer⟩ :=
      ⟨hr.root, fun c hc => hr.blocks c (List.mem_cons_of_mem b hc)⟩
    have hkind : b.opening.kind = kind := Decidable.not_not.mp hkind
    refine ⟨houter.push hb.isRead_node, ?_⟩
    -- the node goes where its block was: after the symbols of the blocks around it
    rw [symbols_push, hb.symbols_node, hkind]
    simp [symbols]

/-- Reading a tag adds the tag to the symbols. -/
theorem Sound.readTag {r r' : Reading} {t : Token} {tag : Tag} (hr : r.Sound)
    (h : r.readTag t tag = .ok r') : r'.Sound ∧ r'.symbols = r.symbols ++ [.tag tag] := by
  cases tag with
  | value path =>
    cases h
    exact ⟨hr.push ((Tree.isRead_leaf (n := .value path) trivial).mpr trivial), symbols_push ..⟩
  | json path =>
    cases h
    exact ⟨hr.push ((Tree.isRead_leaf (n := .json path) trivial).mpr trivial), symbols_push ..⟩
  | html path =>
    cases h
    exact ⟨hr.push ((Tree.isRead_leaf (n := .html path) trivial).mpr trivial), symbols_push ..⟩
  | embed name =>
    cases h
    exact ⟨hr.push (Tree.isRead_embed name), symbols_push ..⟩
  | ifOpen condition =>
    cases h
    exact ⟨hr.beginBlock .., symbols_beginBlock ..⟩
  | eachOpen collection item index =>
    cases h
    exact ⟨hr.beginBlock .., symbols_beginBlock ..⟩
  | elseMark => exact hr.beginElse h
  | close kind => exact hr.closeBlock h

/-- Reading a token adds its symbol to the symbols. -/
theorem Sound.read {r r' : Reading} {t : Token} (hr : r.Sound) (h : r.read t = .ok r') :
    r'.Sound ∧ r'.symbols = r.symbols ++ t.symbol?.toList := by
  rcases t with ⟨form, source, location⟩
  cases form with
  | text =>
    cases h
    exact ⟨hr.push ((Tree.isRead_leaf (n := .text source) trivial).mpr trivial), symbols_push ..⟩
  | tag tag =>
    rcases htag : r.readTag ⟨.tag tag, source, location⟩ tag with fault | read
    · simp [Reading.read, htag] at h
    · simp only [Reading.read, htag, mapError_ok] at h
      cases h
      exact hr.readTag htag
  | stop =>
    cases h
    exact ⟨hr, (List.append_nil _).symm⟩

/-- Reading tokens adds their symbols to the symbols. -/
theorem Sound.foldlM_read {r r' : Reading} {tokens : List Token} (hr : r.Sound)
    (h : tokens.foldlM Reading.read r = .ok r') :
    r'.Sound ∧ r'.symbols = r.symbols ++ tokens.filterMap Token.symbol? := by
  -- the invariant is that the symbols read so far are those of the nodes and the open blocks
  induction tokens generalizing r with
  | nil =>
    cases h
    exact ⟨hr, (List.append_nil _).symm⟩
  | cons t rest ih =>
    rw [List.foldlM_cons] at h
    rcases hread : r.read t with fault | next
    · rw [hread] at h
      cases h
    · rw [hread] at h
      rcases hr.read hread with ⟨hnext, hsymbols⟩
      rcases ih hnext h with ⟨hend, hall⟩
      refine ⟨hend, ?_⟩
      rw [hall, hsymbols, List.append_assoc]
      cases hsymbol : t.symbol? <;> simp [hsymbol]

/-- A reading that can be finished has no open block. -/
theorem finish_eq_ok {r : Reading} {tree : Tree} :
    r.finish = .ok tree ↔ r.blocks = [] ∧ r.root.toList = tree := by
  unfold finish
  constructor
  · intro h
    split at h
    · rename_i hblocks
      cases h
      exact ⟨List.reverse_eq_nil_iff.mp hblocks, rfl⟩
    · cases h
  · rintro ⟨hblocks, rfl⟩
    simp [hblocks]

/-! ## Reading a tree back -/

theorem foldlM_read_of_none {r : Reading} {tokens : List Token}
    (h : ∀ t ∈ tokens, t.symbol? = none) : tokens.foldlM Reading.read r = .ok r := by
  induction tokens with
  | nil => rfl
  | cons t rest ih =>
    have hread : r.read t = .ok r := by
      have ht := h t List.mem_cons_self
      unfold Token.symbol? at ht
      unfold Reading.read
      cases hform : t.form <;> simp_all
    rw [List.foldlM_cons, hread]
    exact ih fun u hu => h u (List.mem_cons_of_mem t hu)

/-- Tokens whose symbols begin with a symbol are read by reading a token of that symbol first. -/
theorem foldlM_read_of_symbol {tokens : List Token} {x : Symbol} {rest : List Symbol}
    (h : tokens.filterMap Token.symbol? = x :: rest) :
    ∃ (t : Token) (more : List Token), t.symbol? = some x ∧ more.filterMap Token.symbol? = rest ∧
      ∀ {r r' : Reading}, r.read t = .ok r' →
        tokens.foldlM Reading.read r = more.foldlM Reading.read r' := by
  -- what stands before the first symbol only marks ends
  rcases List.filterMap_eq_cons_iff.mp h with ⟨before, t, more, rfl, hnone, ht, hmore⟩
  refine ⟨t, more, ht, hmore, fun {r r'} hread => ?_⟩
  rw [List.foldlM_append, foldlM_read_of_none hnone]
  show (t :: more).foldlM Reading.read r = _
  rw [List.foldlM_cons, hread]
  rfl

theorem read_of_tag {t : Token} {tag : Tag} (h : t.symbol? = some (.tag tag)) (r : Reading) :
    r.read t = (r.readTag t tag).mapError fun fault => (fault, t.location) := by
  rcases t with ⟨form, source, location⟩
  cases form with
  | text => cases h
  | tag found =>
    cases h
    rfl
  | stop => cases h

theorem read_of_text {t : Token} {text : String} (h : t.symbol? = some (.text text))
    (r : Reading) : r.read t = .ok (r.push (.text text)) := by
  rcases t with ⟨form, source, location⟩
  cases form with
  | text =>
    cases h
    rfl
  | tag found => cases h
  | stop => cases h

/-- Nodes that are read inside a block are pushed onto it. -/
theorem foldl_push_beginBlock (r : Reading) (b : PendingBlock) (t : Tree) :
    t.foldl push (r.beginBlock b) = r.beginBlock (t.foldl PendingBlock.push b) := by
  induction t generalizing b with
  | nil => rfl
  | cons n rest ih => exact ih (b.push n)

end Reading

namespace PendingBlock

variable (opening : Opening) (source : String) (location : Location) (body : Array Node)

/-- Nodes are pushed onto the body of a block that has no other branch yet. -/
theorem foldl_push_body (t : Tree) :
    t.foldl push ⟨opening, source, location, body, none⟩ =
      ⟨opening, source, location, body ++ t.toArray, none⟩ := by
  induction t generalizing body with
  | nil => simp
  | cons n rest ih =>
    rw [List.foldl_cons]
    exact (ih (body.push n)).trans (by simp)

/-- Nodes are pushed onto the other branch of a block once it has one. -/
theorem foldl_push_otherwise (nodes : Array Node) (t : Tree) :
    t.foldl push ⟨opening, source, location, body, some nodes⟩ =
      ⟨opening, source, location, body, some (nodes ++ t.toArray)⟩ := by
  induction t generalizing nodes with
  | nil => simp
  | cons n rest ih =>
    rw [List.foldl_cons]
    exact (ih (nodes.push n)).trans (by simp)

end PendingBlock

/-- Tokens whose symbols begin with those of a tree are read by pushing the nodes of the tree. -/
theorem Reading.foldlM_read_symbols {t : Tree} (ht : t.IsRead) {tokens : List Token}
    {rest : List Symbol} (h : tokens.filterMap Token.symbol? = Tree.symbols t ++ rest) :
    ∃ more : List Token, more.filterMap Token.symbol? = rest ∧
      ∀ r : Reading, tokens.foldlM Reading.read r = more.foldlM Reading.read (t.foldl push r) := by
  -- what comes after the tree is kept general: the parts of a block are followed by its tags
  induction t using Tree.induct generalizing tokens rest with
  | nil => exact ⟨tokens, h, fun _ => rfl⟩
  | cons n tail ihn ih =>
    rcases Tree.isRead_cons.mp ht with ⟨hn, htail⟩
    rw [Tree.symbols_cons, List.append_assoc, ← Tree.symbols_singleton] at h
    rcases ihn hn h with ⟨middle, hmiddle, hreadn⟩
    rcases ih htail hmiddle with ⟨more, hmore, hreadtail⟩
    refine ⟨more, hmore, fun r => ?_⟩
    rw [hreadn, hreadtail]
    rfl
  | leaf n hn =>
    have hread := (Tree.isRead_leaf hn).mp ht
    rw [Tree.symbols_singleton] at h
    cases n with
    | text text =>
      rcases foldlM_read_of_symbol h with ⟨t, more, hsymbol, hmore, hread⟩
      exact ⟨more, hmore, fun r => hread (read_of_text hsymbol r)⟩
    | value path =>
      rcases foldlM_read_of_symbol h with ⟨t, more, hsymbol, hmore, hread⟩
      exact ⟨more, hmore, fun r => hread (read_of_tag hsymbol r)⟩
    | json path =>
      rcases foldlM_read_of_symbol h with ⟨t, more, hsymbol, hmore, hread⟩
      exact ⟨more, hmore, fun r => hread (read_of_tag hsymbol r)⟩
    | html path =>
      rcases foldlM_read_of_symbol h with ⟨t, more, hsymbol, hmore, hread⟩
      exact ⟨more, hmore, fun r => hread (read_of_tag hsymbol r)⟩
    | bare => exact hread.elim
    | embed => exact hn.elim
    | cond => exact hn.elim
    | each => exact hn.elim
  | embed name =>
    rcases foldlM_read_of_symbol h with ⟨t, more, hsymbol, hmore, hread⟩
    exact ⟨more, hmore, fun r => hread (read_of_tag hsymbol r)⟩
  | cond condition test body ih =>
    -- the tokens are the opening tag, the body, the closing tag, and what comes after
    rcases Tree.isRead_cond.mp ht with ⟨rfl, hbody, -⟩
    rw [Tree.symbols_singleton, Node.symbols, List.cons_append, List.append_assoc] at h
    rcases foldlM_read_of_symbol h with ⟨opening, inside, hopening, hinside, hopen⟩
    rcases ih hbody hinside with ⟨after, hafter, hreadbody⟩
    rcases foldlM_read_of_symbol hafter with ⟨closing, more, hclosing, hmore, hclose⟩
    refine ⟨more, hmore, fun r => ?_⟩
    have hbegin : r.read opening = .ok (r.beginBlock (.ofTag (.cond condition) opening)) :=
      read_of_tag hopening r
    have hend : (r.beginBlock ⟨.cond condition, opening.source, opening.location, body.toArray,
        none⟩).read closing = .ok (r.push (.cond condition (.ofText condition) body none)) :=
      read_of_tag hclosing _
    rw [hopen hbegin, hreadbody, foldl_push_beginBlock, PendingBlock.ofTag,
      PendingBlock.foldl_push_body, Array.empty_append, hclose hend]
    rfl
  | condElse condition test body other ihbody ihother =>
    -- here the `else` stands between the two branches, each of them read into its own nodes
    rcases Tree.isRead_cond.mp ht with ⟨rfl, hbody, hother⟩
    rw [Tree.symbols_singleton, Node.symbols, List.cons_append, List.append_assoc,
      List.cons_append, List.append_assoc] at h
    rcases foldlM_read_of_symbol h with ⟨opening, inside, hopening, hinside, hopen⟩
    rcases ihbody hbody hinside with ⟨between, hbetween, hreadbody⟩
    rcases foldlM_read_of_symbol hbetween with ⟨mark, beyond, hmark, hbeyond, helse⟩
    rcases ihother hother hbeyond with ⟨after, hafter, hreadother⟩
    rcases foldlM_read_of_symbol hafter with ⟨closing, more, hclosing, hmore, hclose⟩
    refine ⟨more, hmore, fun r => ?_⟩
    have hbegin : r.read opening = .ok (r.beginBlock (.ofTag (.cond condition) opening)) :=
      read_of_tag hopening r
    have hmiddle : (r.beginBlock ⟨.cond condition, opening.source, opening.location, body.toArray,
        none⟩).read mark = .ok (r.beginBlock ⟨.cond condition, opening.source, opening.location,
          body.toArray, some #[]⟩) :=
      read_of_tag hmark _
    have hend : (r.beginBlock ⟨.cond condition, opening.source, opening.location, body.toArray,
        some other.toArray⟩).read closing =
          .ok (r.push (.cond condition (.ofText condition) body (some other))) :=
      read_of_tag hclosing _
    rw [hopen hbegin, hreadbody, foldl_push_beginBlock, PendingBlock.ofTag,
      PendingBlock.foldl_push_body, Array.empty_append, helse hmiddle, hreadother,
      foldl_push_beginBlock, PendingBlock.foldl_push_otherwise, Array.empty_append, hclose hend]
    rfl
  | each collection item index body ih =>
    rw [Tree.symbols_singleton, Node.symbols, List.cons_append, List.append_assoc] at h
    rcases foldlM_read_of_symbol h with ⟨opening, inside, hopening, hinside, hopen⟩
    rcases ih (Tree.isRead_each.mp ht) hinside with ⟨after, hafter, hreadbody⟩
    rcases foldlM_read_of_symbol hafter with ⟨closing, more, hclosing, hmore, hclose⟩
    refine ⟨more, hmore, fun r => ?_⟩
    have hbegin : r.read opening =
        .ok (r.beginBlock (.ofTag (.each collection item index) opening)) :=
      read_of_tag hopening r
    have hend : (r.beginBlock ⟨.each collection item index, opening.source, opening.location,
        body.toArray, none⟩).read closing = .ok (r.push (.each collection item index body)) :=
      read_of_tag hclosing _
    rw [hopen hbegin, hreadbody, foldl_push_beginBlock, PendingBlock.ofTag,
      PendingBlock.foldl_push_body, Array.empty_append, hclose hend]
    rfl

/-! ## Compiling -/

/-- Pushing nodes outside all blocks. -/
theorem Reading.foldl_push_empty (t : Tree) (root : Array Node) :
    t.foldl push ⟨root, []⟩ = ⟨root ++ t.toArray, []⟩ := by
  induction t generalizing root with
  | nil => simp
  | cons n rest ih =>
    rw [List.foldl_cons]
    exact (ih (root.push n)).trans (by simp)

/-- Tokens build exactly the tree that is as read and has their symbols. -/
theorem build_eq_ok {tokens : List Token} {tree : Tree} :
    build tokens = .ok tree ↔
      tree.IsRead ∧ Tree.symbols tree = tokens.filterMap Token.symbol? := by
  unfold build
  constructor
  · intro h
    rcases hrun : tokens.foldlM Reading.read Reading.empty with fault | r
    · rw [hrun] at h
      cases h
    · rw [hrun] at h
      rcases Reading.finish_eq_ok.mp h with ⟨hblocks, rfl⟩
      rcases Reading.sound_empty.foldlM_read hrun with ⟨hsound, hsymbols⟩
      refine ⟨hsound.root, ?_⟩
      have hroot : r.symbols = Tree.symbols r.root.toList := by
        simp [Reading.symbols, hblocks]
      rw [← hroot, hsymbols]
      rfl
  · rintro ⟨hread, hsymbols⟩
    have htokens : tokens.filterMap Token.symbol? = Tree.symbols tree ++ [] := by
      rw [List.append_nil, hsymbols]
    -- the tree is read back, and only marks of the end are left
    rcases Reading.foldlM_read_symbols hread htokens with ⟨more, hmore, hrun⟩
    have hnone : ∀ t ∈ more, t.symbol? = none := List.filterMap_eq_nil_iff.mp hmore
    rw [hrun, Reading.foldlM_read_of_none hnone]
    refine Reading.finish_eq_ok.mpr ?_
    rw [Reading.empty, Reading.foldl_push_empty]
    exact ⟨rfl, by simp⟩

theorem compile_eq_ok_iff_build {text name : String} {trim : Bool} {tree : Tree} :
    compile text name trim = .ok tree ↔
      build (if trim then dropGaps false (Token.ofText text) else Token.ofText text) =
        .ok tree := by
  unfold compile
  dsimp only
  rcases build (if trim then dropGaps false (Token.ofText text) else Token.ofText text) with
    fault | built
  · exact ⟨nofun, nofun⟩
  · exact ⟨fun h => by cases h; rfl, fun h => by cases h; rfl⟩

theorem compile_eq_ok {text name : String} {tree : Tree} :
    compile text name false = .ok tree ↔
      tree.IsRead ∧ Tree.symbols tree = symbolsOf text := by
  rw [compile_eq_ok_iff_build, if_neg Bool.false_ne_true, build_eq_ok, symbolsOf]

/-- A text compiles exactly if its tags and texts are well-formed, and what it compiles to is the
one tree with these tags and texts in this order. -/
theorem compile_ok_iff_wellFormed (text name : String) :
    ((∃ tree, compile text name false = .ok tree) ↔ WellFormed (symbolsOf text)) ∧
      ∀ tree : Tree, compile text name false = .ok tree ↔
        tree.IsRead ∧ Tree.symbols tree = symbolsOf text := by
  refine ⟨⟨?_, ?_⟩, fun tree => compile_eq_ok⟩
  · rintro ⟨tree, h⟩
    rw [← (compile_eq_ok.mp h).2]
    exact Tree.wellFormed_symbols tree
  · intro h
    rcases h.exists_tree with ⟨tree, hread, hsymbols⟩
    exact ⟨tree, compile_eq_ok.mpr ⟨hread, hsymbols⟩⟩

/-! ## What a template shows and embeds -/

/-- The node of a symbol that is a whole node. -/
def Symbol.node? : Symbol → Option Node
  | .text cs => some (.text cs)
  | .tag (.value path) => some (.value path)
  | .tag (.json path) => some (.json path)
  | .tag (.html path) => some (.html path)
  | .tag (.embed name) => some (.embed name)
  | .tag _ => none

theorem Node.node?_of_symbols_eq {n : Node} {x : Symbol} (h : n.symbols = [x]) :
    x.node? = some n := by
  cases n with
  | cond condition test body other => cases other <;> simp [Node.symbols] at h
  | each collection item index body => simp [Node.symbols] at h
  | bare => simp [Node.symbols] at h
  | _ =>
    cases h
    rfl

/-- A node that is one symbol stands in a tree, at any depth, exactly if the symbol is one of the
tree. -/
theorem Tree.occurs_iff_mem_symbols {n : Node} {x : Symbol} (hn : n.symbols = [x]) (t : Tree) :
    n.Occurs t ↔ x ∈ Tree.symbols t := by
  have hx := Node.node?_of_symbols_eq hn
  have hself : ∀ {m : Node} {y : Symbol}, m.symbols = [y] → (n = m ↔ x = y) := by
    intro m y hm
    constructor
    · rintro rfl
      exact (List.cons.inj (hn.symm.trans hm)).1
    · rintro rfl
      exact Option.some.inj (hx.symm.trans (Node.node?_of_symbols_eq hm))
  have hne : ∀ {m : Node}, (∀ y, m.symbols ≠ [y]) → n ≠ m := by
    rintro m hm rfl
    exact hm x hn
  -- the tags of blocks are no nodes by themselves, so the symbol stands in a part of the block
  have htag : ∀ tag : Tag, Symbol.node? (.tag tag) = none → x ≠ .tag tag := by
    rintro tag htag rfl
    rw [htag] at hx
    cases hx
  induction t using Tree.induct with
  | nil => simp
  | cons m rest ihm ih =>
    rw [Tree.symbols_cons, List.mem_append, ← Tree.symbols_singleton m]
    exact Node.occurs_cons.trans (or_congr ihm ih)
  | leaf m hm =>
    rw [Node.occurs_singleton_of_isLeaf hm, Tree.symbols_singleton]
    cases m with
    | cond => exact hm.elim
    | each => exact hm.elim
    | embed => exact hm.elim
    | bare => simpa [Node.symbols] using hne (m := .bare) (by simp [Node.symbols])
    | _ => exact (hself rfl).trans List.mem_singleton.symm
  | embed name =>
    rw [Node.occurs_embed, Tree.symbols_singleton]
    exact (hself rfl).trans List.mem_singleton.symm
  | cond condition test body ih =>
    have hcond : n ≠ .cond condition test body none := hne (by simp [Node.symbols])
    rw [Node.occurs_cond, Tree.symbols_singleton, Node.symbols, List.mem_cons, List.mem_append,
      List.mem_singleton]
    simp only [hcond, htag (.ifOpen condition) rfl, htag (.close .cond) rfl, false_or, or_false,
      Option.getD_none, Node.not_occurs_nil]
    exact ih
  | condElse condition test body other ihbody ihother =>
    have hcond : n ≠ .cond condition test body (some other) := hne (by simp [Node.symbols])
    rw [Node.occurs_cond, Tree.symbols_singleton, Node.symbols, List.mem_cons, List.mem_append,
      List.mem_cons, List.mem_append, List.mem_singleton]
    simp only [hcond, htag (.ifOpen condition) rfl, htag .elseMark rfl, htag (.close .cond) rfl,
      false_or, or_false, Option.getD_some]
    exact or_congr ihbody ihother
  | each collection item index body ih =>
    have heach : n ≠ .each collection item index body := hne (by simp [Node.symbols])
    rw [Node.occurs_each, Tree.symbols_singleton, Node.symbols, List.mem_cons, List.mem_append,
      List.mem_singleton]
    simp only [heach, htag (.eachOpen collection item index) rfl, htag (.close .each) rfl, false_or,
      or_false]
    exact ih

/-- Dropping gaps drops no tags. -/
theorem tag_mem_dropGaps {tag : Tag} (before : Bool) (tokens : List Token) :
    .tag tag ∈ (dropGaps before tokens).filterMap Token.symbol? ↔
      .tag tag ∈ tokens.filterMap Token.symbol? := by
  induction tokens generalizing before with
  | nil => rfl
  | cons t rest ih =>
    rw [dropGaps]
    split
    · next h =>
      have ht : t.symbol? = some (.text t.source) := by
        simp_all [Token.isBlankText, Token.symbol?]
      rw [ih, List.filterMap_cons_some ht, List.mem_cons]
      simp
    · rw [List.filterMap_cons, List.filterMap_cons]
      cases t.symbol? with
      | none => exact ih t.isBoundary
      | some x =>
        dsimp only
        rw [List.mem_cons, List.mem_cons, ih]

/-- What a template shows and embeds is told by the tags of its text, whether its gaps are dropped
or not. -/
theorem occurs_compile_iff {text name : String} {trim : Bool} {tree : Tree}
    (h : compile text name trim = .ok tree) {n : Node} {tag : Tag} (hn : n.symbols = [.tag tag]) :
    n.Occurs tree ↔ .tag tag ∈ symbolsOf text := by
  rw [compile_eq_ok_iff_build, build_eq_ok] at h
  rw [Tree.occurs_iff_mem_symbols hn, h.2, symbolsOf]
  cases trim with
  | false => rfl
  | true => exact tag_mem_dropGaps false (Token.ofText text)

end Curly
