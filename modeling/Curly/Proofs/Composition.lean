import Curly.Proofs.Printing
import Curly.Proofs.Scanning

/-!
# Templates made of templates

The tree of a text that is put together from two templates, or is a template between the tags of a
block, is put together from their trees (`compile_compositional`). Two texts one after another give
their trees one after another if no tag straddles the place where they meet; a text at the end of
the first and one at the start of the second are then one text (`Tree.fuse`).

Lists are joined in the same way at three levels, those of pieces, symbols and nodes, so `fuse` is
stated for any list and any way to merge two of its entries.
-/

namespace Curly

/-! ## Joining lists -/

section Fuse

variable {α β : Type} (merge? : α → α → Option α)

/-- Two lists one after another, where the last entry of the first and the first entry of the second
are one entry if they can be merged. -/
def fuse : List α → List α → List α
  | [], ys => ys
  | [x], ys => match ys with
    | [] => [x]
    | y :: more => (merge? x y).elim (x :: y :: more) (· :: more)
  | x :: x' :: xs, ys => x :: fuse (x' :: xs) ys

theorem fuse_nil (xs : List α) : fuse merge? xs [] = xs := by
  induction xs with
  | nil => rfl
  | cons x xs ih =>
    cases xs with
    | nil => rfl
    | cons x' xs => rw [fuse, ih]

/-- Only the last entry of the first list is looked at. -/
theorem fuse_cons {x : α} {xs : List α} (h : xs ≠ []) (ys : List α) :
    fuse merge? (x :: xs) ys = x :: fuse merge? xs ys := by
  cases xs with
  | nil => exact absurd rfl h
  | cons x' xs => rfl

theorem fuse_append {ys : List α} (h : ys ≠ []) (xs zs : List α) :
    fuse merge? (xs ++ ys) zs = xs ++ fuse merge? ys zs := by
  induction xs with
  | nil => rfl
  | cons x xs ih =>
    have hne : xs ++ ys ≠ [] := List.append_ne_nil_of_right_ne_nil xs h
    rw [List.cons_append, fuse_cons merge? hne, ih, List.cons_append]

/-- Where the two entries that meet cannot be merged, the lists merely stand one after another. -/
theorem fuse_eq_append {xs ys : List α}
    (h : ∀ x ∈ xs.getLast?, ∀ y ∈ ys.head?, merge? x y = none) : fuse merge? xs ys = xs ++ ys := by
  induction xs using List.reverseRecOn with
  | nil => rfl
  | append_singleton front x _ =>
    rw [fuse_append merge? (List.cons_ne_nil x []), List.append_assoc]
    congr 1
    cases ys with
    | nil => rfl
    | cons y more =>
      have hnone : merge? x y = none := h x (by simp) y (by simp)
      rw [fuse, hnone]
      rfl

/-- Lists are joined before or after their entries are mapped, if these are merged alike. -/
theorem map_fuse {merge'? : β → β → Option β} {f : α → β}
    (h : ∀ x y, merge'? (f x) (f y) = (merge? x y).map f) (xs ys : List α) :
    (fuse merge? xs ys).map f = fuse merge'? (xs.map f) (ys.map f) := by
  induction xs with
  | nil => rfl
  | cons x xs ih =>
    cases xs with
    | cons x' xs =>
      rw [fuse, List.map_cons, ih]
      rfl
    | nil =>
      cases ys with
      | nil => rfl
      | cons y more =>
        simp only [List.map_cons, List.map_nil, fuse, h]
        cases merge? x y with
        | none => rfl
        | some z => rfl

end Fuse

/-- The text of two texts side by side, at the level of pieces. -/
def Piece.merge? : Piece → Piece → Option Piece
  | text cs, text ds => some (text (cs ++ ds))
  | _, _ => none

/-- The text of two texts side by side, at the level of symbols. -/
def Symbol.merge? : Symbol → Symbol → Option Symbol
  | text a, text b => some (text (a ++ b))
  | _, _ => none

/-- The text of two texts side by side, at the level of nodes. -/
def Node.merge? : Node → Node → Option Node
  | text a, text b => some (text (a ++ b))
  | _, _ => none

/-- Two trees one after another, with a text at the end of the first and one at the start of the
second as one text. -/
def Tree.fuse (t u : Tree) : Tree := Curly.fuse Node.merge? t u

theorem Symbol.merge?_eq_none {x y : Symbol} (h : x.IsText → ¬ y.IsText) : x.merge? y = none := by
  cases x with
  | tag tag => rfl
  | text a =>
    cases y with
    | tag tag => rfl
    | text b => exact absurd trivial (h trivial)

theorem Node.merge?_eq_none {n m : Node} (h : n.IsText → ¬ m.IsText) : n.merge? m = none := by
  unfold merge?
  split
  · exact absurd trivial (h trivial)
  · rfl

theorem Piece.merge?_symbol (p q : Piece) : p.symbol.merge? q.symbol = (p.merge? q).map symbol := by
  cases p with
  | tag body tag => rfl
  | text cs =>
    cases q with
    | tag body tag => rfl
    | text ds => exact congrArg (fun s => some (Symbol.text s)) String.ofList_append.symm

/-! ## Tags where two texts meet -/

/-- No tag in two texts one after another lies in both of them. -/
def Tag.Apart (cs ds : List Char) : Prop :=
  ∀ before body tag after, cs ++ ds = before ++ (wrap body ++ after) → Text.Braceless body →
    ofBody? body = some tag →
    before.length + (wrap body).length ≤ cs.length ∨ cs.length ≤ before.length

namespace Tag

theorem Apart.tail {front cs ds : List Char} (h : Apart (front ++ cs) ds) : Apart cs ds := by
  intro before body tag after heq hbody htag
  have hlong : front ++ cs ++ ds = front ++ before ++ (wrap body ++ after) := by
    rw [List.append_assoc, heq, List.append_assoc]
  have hplace := h _ body tag after hlong hbody htag
  rw [List.length_append, List.length_append] at hplace
  omega

/-- A text that begins with no tag does not begin with one either when a text comes after it with
which it has no tag in common. -/
theorem Apart.read?_eq_none {cs ds : List Char} (h : Apart cs ds) (hne : cs ≠ [])
    (hread : read? cs = none) : read? (cs ++ ds) = none := by
  rcases hlong : read? (cs ++ ds) with _ | ⟨body, tag, rest⟩
  · rfl
  obtain ⟨hbody, htag⟩ := braceless_of_read? hlong
  have heq := eq_of_read? hlong
  have hplace := h [] body tag rest heq hbody htag
  have hpos := List.length_pos_of_ne_nil hne
  rw [List.length_nil] at hplace
  -- the tag ends in the first text, which therefore begins with it
  have hpart : wrap body <+: cs :=
    List.prefix_of_prefix_length_le (heq ▸ List.prefix_append _ _) (List.prefix_append cs ds)
      (by omega)
  obtain ⟨more, rfl⟩ := hpart
  rw [read?_wrap_append hbody htag] at hread
  cases hread

/-- No tag begins before an opening brace and ends after it. -/
theorem apart_of_head? {cs ds : List Char} (h : ∀ c ∈ ds.head?, c = '\x7b') : Apart cs ds := by
  intro before body tag after heq hbody htag
  by_contra hplace
  obtain ⟨hend, hbegin⟩ := not_or.mp hplace
  rcases List.append_eq_append_iff.mp heq with ⟨between, rfl, -⟩ | ⟨inner, rfl, hinner⟩
  · simp at hbegin
  obtain ⟨beyond, hwrap⟩ : ∃ beyond, wrap body = inner ++ beyond := by
    rcases List.append_eq_append_iff.mp hinner with ⟨beyond, hds, -⟩ | ⟨beyond, hwrap, -⟩
    · rw [hds, List.length_append, List.length_append] at hend
      omega
    · exact ⟨beyond, hwrap⟩
  rcases beyond with _ | ⟨c, beyond⟩
  · rw [hwrap, List.append_nil, List.length_append] at hend
    exact hend le_rfl
  · rw [hwrap, List.append_assoc] at hinner
    have hhead : c = '\x7b' := h c (by rw [← List.append_cancel_left hinner]; rfl)
    have hnil := eq_nil_of_wrap_eq hbody (hhead ▸ hwrap)
    rw [hnil, List.append_nil] at hbegin
    exact hbegin le_rfl

/-- No tag begins in a text whose last brace closes one and ends after it. -/
theorem apart_of_getLast? {cs : List Char} (h : (cs.filter isBrace).getLast? ≠ some '\x7b')
    (ds : List Char) : Apart cs ds := by
  intro before body tag after heq hbody htag
  by_contra hplace
  obtain ⟨hend, hbegin⟩ := not_or.mp hplace
  rcases List.append_eq_append_iff.mp heq with ⟨between, rfl, -⟩ | ⟨inner, rfl, hinner⟩
  · simp at hbegin
  -- what the text holds of the tag is its opening brace and a part of its body
  have hlength : inner.length < (wrap body).length := by
    rw [List.length_append] at hend
    omega
  have hpart : inner <+: wrap body :=
    List.prefix_of_prefix_length_le (List.prefix_append inner ds) (hinner ▸ List.prefix_append _ _)
      hlength.le
  rcases inner with _ | ⟨c, inner⟩
  · simp at hbegin
  rw [wrap, List.cons_append, List.cons_prefix_cons] at hpart
  obtain ⟨rfl, hpart⟩ := hpart
  have hshort : inner.length ≤ body.length := by
    rw [wrap] at hlength
    simp only [List.length_cons, List.length_append, List.length_nil] at hlength
    omega
  have hinside : inner <+: body :=
    List.prefix_of_prefix_length_le hpart (List.prefix_append _ _) hshort
  have hnone : inner.filter isBrace = [] := by
    rw [List.filter_eq_nil_iff]
    intro d hd
    rw [hbody d (hinside.subset hd)]
    exact Bool.false_ne_true
  apply h
  rw [List.filter_append, List.filter_cons_of_pos (by decide), hnone, List.getLast?_concat]

end Tag

/-! ## Pieces of two texts -/

/-- A character of text before joined pieces is joined to the first of them. -/
theorem fuse_consChar (c : Char) (ps qs : List Piece) :
    fuse Piece.merge? (Piece.consChar c ps) qs = Piece.consChar c (fuse Piece.merge? ps qs) := by
  rcases ps with _ | ⟨cs | ⟨body, tag⟩, _ | ⟨p, more⟩⟩
  · rcases qs with _ | ⟨ds | ⟨body, tag⟩, qs⟩
    · rfl
    · rfl
    · rfl
  · rcases qs with _ | ⟨ds | ⟨body, tag⟩, qs⟩
    · rfl
    · rfl
    · rfl
  · rfl
  · rcases qs with _ | ⟨q, qs⟩
    · rfl
    · rfl
  · rfl

/-- Two texts that have no tag in common are cut one after the other. -/
theorem pieces_append_of_apart {cs ds : List Char} (h : Tag.Apart cs ds) :
    pieces (cs ++ ds) = fuse Piece.merge? (pieces cs) (pieces ds) := by
  induction cs using pieces.induct with
  | case1 cs body tag rest hread _ ih =>
    have hrest : Tag.Apart rest ds := by
      rw [Tag.eq_of_read? hread] at h
      exact h.tail
    rw [pieces_of_read?_eq_some (Tag.read?_append hread ds), ih hrest,
      pieces_of_read?_eq_some hread]
    cases pieces rest with
    | cons p more => rfl
    | nil =>
      cases pieces ds with
      | nil => rfl
      | cons q more => rfl
  | case2 _ =>
    rw [pieces_nil]
    rfl
  | case3 c rest hread ih =>
    -- no tag begins here that ends in the second text, so none begins here in both together
    have hnone := h.read?_eq_none (List.cons_ne_nil c rest) hread
    have hrest : Tag.Apart rest ds := by
      rw [← List.singleton_append] at h
      exact h.tail
    rw [List.cons_append] at hnone ⊢
    rw [pieces_of_read?_eq_none hnone, ih hrest, pieces_of_read?_eq_none hread, fuse_consChar]

/-- A tag at the start of a text is its first piece. -/
theorem pieces_wrap_append {body : List Char} {tag : Tag} (hbody : Text.Braceless body)
    (htag : Tag.ofBody? body = some tag) (rest : List Char) :
    pieces (Tag.wrap body ++ rest) = .tag body tag :: pieces rest :=
  pieces_of_read?_eq_some (Tag.read?_wrap_append hbody htag rest)

/-- Before a tag a text is cut as it is alone. -/
theorem pieces_append_tag {tag : Tag} (h : tag.IsNormal) (cs rest : List Char) :
    pieces (cs ++ (Tag.wrap tag.body ++ rest)) = pieces cs ++ .tag tag.body tag :: pieces rest := by
  have hapart : Tag.Apart cs (Tag.wrap tag.body ++ rest) := by
    apply Tag.apart_of_head?
    intro c hc
    exact (Option.mem_some_iff.mp hc).symm
  rw [pieces_append_of_apart hapart, pieces_wrap_append (Tag.braceless_body h) (Tag.ofBody?_body h)]
  apply fuse_eq_append
  intro p _ q hq
  rw [← Option.mem_some_iff.mp hq]
  cases p with
  | text cs => rfl
  | tag body tag => rfl

theorem Tag.isNormal_elseMark : elseMark.IsNormal := trivial

theorem Tag.isNormal_close (kind : BlockKind) : (close kind).IsNormal := trivial

/-! ## Symbols of two trees -/

theorem Tree.isRead_text (text : String) : Tree.IsRead [.text text] := by
  have hleaf : (Node.text text).IsLeaf := trivial
  exact (Tree.isRead_leaf hleaf).mpr trivial

theorem Tree.isRead_fuse {t u : Tree} (ht : t.IsRead) (hu : u.IsRead) : (t.fuse u).IsRead := by
  rw [fuse]
  induction t using List.reverseRecOn with
  | nil => exact hu
  | append_singleton front n _ =>
    obtain ⟨hfront, hn⟩ := Tree.isRead_append.mp ht
    rw [fuse_append Node.merge? (List.cons_ne_nil n [])]
    refine Tree.isRead_append.mpr ⟨hfront, ?_⟩
    cases u with
    | nil => exact hn
    | cons m more =>
      obtain ⟨hm, hmore⟩ := Tree.isRead_cons.mp hu
      rw [Curly.fuse]
      unfold Node.merge?
      split
      · exact Tree.isRead_cons.mpr ⟨Tree.isRead_text _, hmore⟩
      · exact Tree.isRead_cons.mpr ⟨hn, Tree.isRead_cons.mpr ⟨hm, hmore⟩⟩

/-- The symbols of joined trees are the joined symbols of the trees. -/
theorem Tree.symbols_fuse {t u : Tree} (ht : t.IsRead) (hu : u.IsRead) :
    symbols (t.fuse u) = Curly.fuse Symbol.merge? (symbols t) (symbols u) := by
  rw [fuse]
  induction t using List.reverseRecOn with
  | nil => rfl
  | append_singleton front n _ =>
    have hn : n.IsRead := (Tree.isRead_append.mp ht).2 n (.here List.mem_cons_self)
    obtain ⟨last, hlast, hlastText⟩ := (Node.border_symbols hn).2
    have hne : n.symbols ≠ [] := by
      intro hnil
      rw [hnil] at hlast
      cases hlast
    rw [fuse_append Node.merge? (List.cons_ne_nil n []), Tree.symbols_append, Tree.symbols_append,
      Tree.symbols_singleton, fuse_append Symbol.merge? hne]
    congr 1
    cases u with
    | nil => rw [fuse_nil, Tree.symbols_nil, fuse_nil, Tree.symbols_singleton]
    | cons m more =>
      by_cases htexts : n.IsText ∧ m.IsText
      · -- two texts that meet are one symbol as they are one node
        cases n with
        | text a =>
          cases m with
          | text b => rfl
          | _ => exact htexts.2.elim
        | _ => exact htexts.1.elim
      · have hm : m.IsRead := hu m (.here List.mem_cons_self)
        obtain ⟨first, hfirst, hfirstText⟩ := (Node.border_symbols hm).1
        rw [fuse_eq_append, fuse_eq_append, Tree.symbols_append, Tree.symbols_singleton]
        · intro x hx y hy
          rw [hlast] at hx
          rw [Tree.symbols_cons, List.head?_append, hfirst] at hy
          cases hx
          cases hy
          apply Symbol.merge?_eq_none
          rw [hlastText, hfirstText]
          exact not_and.mp htexts
        · intro x hx y hy
          cases hx
          cases hy
          exact Node.merge?_eq_none (not_and.mp htexts)

/-! ## Compiling what is put together -/

/-- Whether a token begins before a place and ends after it. -/
def Token.Straddles (t : Token) (offset : Nat) : Prop :=
  t.location.offset < offset ∧ offset < t.location.offset + t.source.length

/-- The tokens that are tags tell whether two texts have a tag in common. -/
theorem Token.apart_iff (a b : String) :
    (∀ t ∈ Token.ofText (a ++ b), t.IsTag → ¬ t.Straddles a.length) ↔
      Tag.Apart a.toList b.toList := by
  -- in characters from the start: a tag is over the border if it begins before it and ends behind
  -- it
  have hplace : ∀ (before body : List Char) (tag : Tag),
      ((Piece.tag body tag).token (Location.start.after before)).Straddles a.length ↔
        ¬ (before.length + (Tag.wrap body).length ≤ a.toList.length ∨
          a.toList.length ≤ before.length) := by
    intro before body tag
    have hoffset : (Location.start.after before).offset = before.length := by
      rw [Location.offset_after, Location.start, Nat.zero_add]
    have hsource : ((Piece.tag body tag).token (Location.start.after before)).source.length =
        (Tag.wrap body).length := by
      rw [← String.length_toList]
      exact congrArg List.length String.toList_ofList
    rw [Token.Straddles, hsource]
    change (Location.start.after before).offset < _ ∧ _ < (Location.start.after before).offset + _ ↔ _
    rw [hoffset, String.length_toList]
    omega
  constructor
  · intro h before body tag after heq hbody htag
    rw [← String.toList_append] at heq
    have hmem := Token.tag_mem_ofText_iff.mpr ⟨before, body, tag, after, heq, hbody, htag, rfl⟩
    have hnot := h _ hmem.1 hmem.2
    rw [hplace] at hnot
    exact not_not.mp hnot
  · intro h t hmem htag
    obtain ⟨before, body, tag, after, heq, hbody, hread, rfl⟩ :=
      Token.tag_mem_ofText_iff.mp ⟨hmem, htag⟩
    rw [String.toList_append] at heq
    rw [hplace, not_not]
    exact h before body tag after heq hbody hread

/-- A text without the blanks around it. -/
def Text.trimmed (text : String) : String := String.ofList (trim text.toList)

/-- The body of a tag that opens an `if` block, with any text without braces as its condition. -/
theorem Tag.ofBody?_condition (condition : String) :
    ofBody? ("#if".toList ++ ' ' :: condition.toList) = some (ifOpen (Text.trimmed condition)) := by
  rw [ofBody?_if, afterBlanks?, if_pos (by decide), Option.map_some]
  rfl

/-- What the text of a condition and a template for each branch is compiled to. -/
theorem compile_cond {a b name : String} {t u : Tree} (ha : compile a name false = .ok t)
    (hb : compile b name false = .ok u) {c : String} (hc : Text.Braceless c.toList) :
    compile ("\x7b#if " ++ c ++ "\x7d" ++ a ++ "\x7b:else\x7d" ++ b ++ "\x7b/if\x7d") name false =
      .ok [.cond (Text.trimmed c) (Condition.ofText (Text.trimmed c)) t (some u)] := by
  obtain ⟨hreadA, hsymbolsA⟩ := compile_eq_ok.mp ha
  obtain ⟨hreadB, hsymbolsB⟩ := compile_eq_ok.mp hb
  have hopen : Text.Braceless ("#if".toList ++ ' ' :: c.toList) := by
    show Text.Braceless ('#' :: 'i' :: 'f' :: ' ' :: c.toList)
    exact .cons rfl (.cons rfl (.cons rfl (.cons rfl hc)))
  have htext : ("\x7b#if " ++ c ++ "\x7d" ++ a ++ "\x7b:else\x7d" ++ b ++ "\x7b/if\x7d").toList =
      Tag.wrap ("#if".toList ++ ' ' :: c.toList) ++ (a.toList ++ (Tag.wrap Tag.elseMark.body ++
        (b.toList ++ (Tag.wrap (Tag.close .cond).body ++ [])))) := by
    simp only [String.toList_append, Tag.wrap, List.append_assoc, List.cons_append]
    rfl
  refine compile_eq_ok.mpr ⟨Tree.isRead_cond.mpr ⟨rfl, hreadA, hreadB⟩, ?_⟩
  rw [symbolsOf_eq_map] at hsymbolsA hsymbolsB ⊢
  rw [htext, pieces_wrap_append hopen (Tag.ofBody?_condition c),
    pieces_append_tag Tag.isNormal_elseMark, pieces_append_tag (Tag.isNormal_close .cond), pieces_nil]
  simp [Node.symbols, hsymbolsA, hsymbolsB, Piece.symbol]

/-- What the text of a loop around a template is compiled to. -/
theorem compile_each {a name : String} {t : Tree} (ha : compile a name false = .ok t)
    {path item index : String} (hpath : Text.IsRun Path.isPathChar path)
    (hitem : Text.IsRun Text.isWord item) (hindex : Text.IsRun Text.isWord index) :
    compile ("\x7b#each " ++ path ++ " as " ++ item ++ ", " ++ index ++ "\x7d" ++ a ++
      "\x7b/each\x7d") name false = .ok [.each path item index t] := by
  obtain ⟨hreadA, hsymbolsA⟩ := compile_eq_ok.mp ha
  have hnormal : (Tag.eachOpen path item index).IsNormal := ⟨hpath, hitem, .inr hindex⟩
  have htext : ("\x7b#each " ++ path ++ " as " ++ item ++ ", " ++ index ++ "\x7d" ++ a ++
      "\x7b/each\x7d").toList = Tag.wrap (Tag.eachOpen path item index).body ++
        (a.toList ++ (Tag.wrap (Tag.close .each).body ++ [])) := by
    have hclause : Tag.indexClause index = ',' :: ' ' :: index.toList := if_neg hindex.1
    have hbody : (Tag.eachOpen path item index).body = "#each".toList ++ ' ' :: (path.toList ++
        ' ' :: ("as".toList ++ ' ' :: (item.toList ++ ',' :: ' ' :: index.toList))) := by
      rw [← hclause]
      rfl
    rw [hbody]
    simp only [String.toList_append, Tag.wrap, List.append_assoc, List.cons_append]
    rfl
  refine compile_eq_ok.mpr ⟨Tree.isRead_each.mpr hreadA, ?_⟩
  rw [symbolsOf_eq_map] at hsymbolsA ⊢
  rw [htext, pieces_wrap_append (Tag.braceless_body hnormal) (Tag.ofBody?_body hnormal),
    pieces_append_tag (Tag.isNormal_close .each), pieces_nil]
  simp [Node.symbols, hsymbolsA, Piece.symbol]

/-- What two templates one after another are compiled to. -/
theorem compile_append {a b name : String} {t u : Tree} (ha : compile a name false = .ok t)
    (hb : compile b name false = .ok u) (h : Tag.Apart a.toList b.toList) :
    compile (a ++ b) name false = .ok (t.fuse u) := by
  obtain ⟨hreadA, hsymbolsA⟩ := compile_eq_ok.mp ha
  obtain ⟨hreadB, hsymbolsB⟩ := compile_eq_ok.mp hb
  refine compile_eq_ok.mpr ⟨Tree.isRead_fuse hreadA hreadB, ?_⟩
  rw [Tree.symbols_fuse hreadA hreadB, hsymbolsA, hsymbolsB, symbolsOf_eq_map, symbolsOf_eq_map,
    symbolsOf_eq_map, String.toList_append, pieces_append_of_apart h,
    map_fuse Piece.merge? Piece.merge?_symbol]

/-- Compiling with all text is compositional. Two texts that compile give, one after another, their
trees one after another if no tag straddles the place where they meet, and none does if the last
brace of the first text, if any, closes one. Between the tags of a condition or of a loop they give
the one node of that block, with their trees as its branches or its body. -/
theorem compile_compositional {a b name : String} {t u : Tree} (ha : compile a name false = .ok t)
    (hb : compile b name false = .ok u) :
    ((∀ token ∈ Token.ofText (a ++ b), token.IsTag → ¬ token.Straddles a.length) →
      compile (a ++ b) name false = .ok (t.fuse u)) ∧
    ((a.toList.filter Tag.isBrace).getLast? ≠ some '\x7b' →
      ∀ token ∈ Token.ofText (a ++ b), token.IsTag → ¬ token.Straddles a.length) ∧
    (∀ c : String, Text.Braceless c.toList →
      compile ("\x7b#if " ++ c ++ "\x7d" ++ a ++ "\x7b:else\x7d" ++ b ++ "\x7b/if\x7d") name false =
        .ok [.cond (Text.trimmed c) (Condition.ofText (Text.trimmed c)) t (some u)]) ∧
    ∀ path item index : String, Text.IsRun Path.isPathChar path → Text.IsRun Text.isWord item →
      Text.IsRun Text.isWord index →
      compile ("\x7b#each " ++ path ++ " as " ++ item ++ ", " ++ index ++ "\x7d" ++ a ++
        "\x7b/each\x7d") name false = .ok [.each path item index t] := by
  refine ⟨?_, ?_, ?_, ?_⟩
  · intro h
    exact compile_append ha hb ((Token.apart_iff a b).mp h)
  · intro h
    exact (Token.apart_iff a b).mpr (Tag.apart_of_getLast? h b.toList)
  · intro c hc
    exact compile_cond ha hb hc
  · intro path item index hpath hitem hindex
    exact compile_each ha hpath hitem hindex

/-- A name with a stray brace after it, before a template that is text, and both as the branches of a
condition and as the body of a loop. -/
theorem compile_compositional_greeting :
    compile "\x7bname\x7d\x7d " "t" false = .ok [.value "name", .text "\x7d "] ∧
    compile "you" "t" false = .ok [.text "you"] ∧
    compile ("\x7bname\x7d\x7d " ++ "you") "t" false = .ok [.value "name", .text "\x7d you"] ∧
    compile ("\x7b#if " ++ " ok " ++ "\x7d" ++ "\x7bname\x7d\x7d " ++ "\x7b:else\x7d" ++ "you" ++
      "\x7b/if\x7d") "t" false =
        .ok [.cond "ok" (.path "ok") [.value "name", .text "\x7d "] (some [.text "you"])] ∧
    compile ("\x7b#each " ++ "a.b" ++ " as " ++ "x" ++ ", " ++ "i" ++ "\x7d" ++
      "\x7bname\x7d\x7d " ++ "\x7b/each\x7d") "t" false =
        .ok [.each "a.b" "x" "i" [.value "name", .text "\x7d "]] := by
  have hname : Tag.read? "\x7bname\x7d\x7d ".toList =
      some ("name".toList, .value "name", "\x7d ".toList) := by
    decide
  have hrest : pieces "\x7d ".toList = [.text "\x7d ".toList] := pieces_of_not_mem_brace (by decide)
  have hyou : pieces "you".toList = [.text "you".toList] := pieces_of_not_mem_brace (by decide)
  have ha : compile "\x7bname\x7d\x7d " "t" false = .ok [.value "name", .text "\x7d "] := by
    rw [compile, Token.ofText, pieces_of_read?_eq_some hname, hrest]
    rfl
  have hb : compile "you" "t" false = .ok [.text "you"] := by
    rw [compile, Token.ofText, hyou]
    rfl
  have hlast : ("\x7bname\x7d\x7d ".toList.filter Tag.isBrace).getLast? ≠ some '\x7b' := by decide
  have hc : Text.Braceless " ok ".toList := by
    show ∀ c ∈ " ok ".toList, Tag.isBrace c = false
    simp [Tag.isBrace]
  have hpath : Text.IsRun Path.isPathChar "a.b" := ⟨by decide, List.all_eq_true.mp (by decide)⟩
  have hx : Text.IsRun Text.isWord "x" := ⟨by decide, List.all_eq_true.mp (by decide)⟩
  have hi : Text.IsRun Text.isWord "i" := ⟨by decide, List.all_eq_true.mp (by decide)⟩
  have htrim : Text.trimmed " ok " = "ok" := by decide
  have htest : Condition.ofText "ok" = .path "ok" := by decide +kernel
  obtain ⟨happend, hclosed, hcond, heach⟩ := compile_compositional ha hb
  have hblock := hcond " ok " hc
  rw [htrim, htest] at hblock
  exact ⟨ha, hb, happend (hclosed hlast), hblock, heach "a.b" "x" "i" hpath hx hi⟩

end Curly
