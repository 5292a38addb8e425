import Mathlib.Data.List.Chain
import Curly.Proofs.Grammar
import Curly.Proofs.Tags

/-!
# Cutting a text into tags

Symbols are normal if they can be told from the text that is printed for them (`Lexical`): tags that
can be written, and between them texts in which no tag stands, no two of them side by side. Normal
symbols are cut from their text (`Lexical.symbolsOf_print`), and every text is cut into normal
symbols (`lexical_symbolsOf`).
-/

namespace Curly

/-! ## Tags in a text -/

namespace Tag

/-- A tag at the start of a text is read whatever comes after it. -/
theorem read?_wrap_append {body : List Char} {tag : Tag} (hbody : Text.Braceless body)
    (htag : ofBody? body = some tag) (rest : List Char) :
    read? (wrap body ++ rest) = some (body, tag, rest) := by
  have hnot : ∀ c ∈ body, (!isBrace c) = true := by
    intro c hc
    rw [hbody c hc]
    rfl
  have hclose : ∀ c ∈ ('\x7d' :: rest).head?, (!isBrace c) = false := by
    rintro _ ⟨⟩
    rfl
  rcases Text.run_append hnot hclose with ⟨htake, hdrop⟩
  have hwrap : wrap body ++ rest = '\x7b' :: (body ++ '\x7d' :: rest) := by
    rw [wrap, List.cons_append, List.cons_append, List.append_assoc, List.singleton_append]
  rw [hwrap, read?, hdrop, htake, htag]
  rfl

/-- What is read has a body without braces that is read as the tag. -/
theorem braceless_of_read? {cs body rest : List Char} {tag : Tag}
    (h : read? cs = some (body, tag, rest)) : Text.Braceless body ∧ ofBody? body = some tag := by
  unfold read? at h
  split at h
  · dsimp only at h
    split at h
    · rcases Option.map_eq_some_iff.mp h with ⟨found, hfound, heq⟩
      cases heq
      refine ⟨fun c hc => ?_, hfound⟩
      have hnot := List.mem_takeWhile_imp hc
      rwa [Bool.not_eq_true'] at hnot
    · cases h
  · cases h

/-- A tag is read in a longer text as in a shorter one. -/
theorem read?_append {cs body rest : List Char} {tag : Tag}
    (h : read? cs = some (body, tag, rest)) (more : List Char) :
    read? (cs ++ more) = some (body, tag, rest ++ more) := by
  rcases braceless_of_read? h with ⟨hbody, htag⟩
  rw [eq_of_read? h, List.append_assoc]
  exact read?_wrap_append hbody htag _

theorem read?_of_read?_append {cs more : List Char} (h : read? (cs ++ more) = none) :
    read? cs = none := by
  rcases hread : read? cs with _ | ⟨body, tag, rest⟩
  · rfl
  · rw [read?_append hread more] at h
    cases h

/-- A text that begins with no tag does not begin with one when another brace, or nothing, comes
after it. -/
theorem read?_append_eq_none {cs more : List Char} (h : read? cs = none) (hne : cs ≠ [])
    (hmore : ∀ c ∈ more.head?, c = '\x7b') : read? (cs ++ more) = none := by
  rcases hread : read? (cs ++ more) with _ | ⟨body, tag, rest⟩
  · rfl
  rcases braceless_of_read? hread with ⟨hbody, htag⟩
  -- the tag ends in the text, or it goes on over the brace, which is not in its body
  rcases List.append_eq_append_iff.mp (eq_of_read? hread) with
    ⟨beyond, hwrap, hbeyond⟩ | ⟨after, hcs, -⟩
  · rcases beyond with _ | ⟨c, beyond⟩
    · rw [List.append_nil] at hwrap
      rw [← hwrap, ← List.append_nil (wrap body), read?_wrap_append hbody htag] at h
      cases h
    · have hc : c = '\x7b' := hmore c (by rw [hbeyond]; rfl)
      rcases cs with _ | ⟨d, cs⟩
      · exact (hne rfl).elim
      · rw [wrap, List.cons_append, List.cons_append, List.cons.injEq] at hwrap
        have hmem : '\x7b' ∈ body ++ ['\x7d'] := by
          rw [hwrap.2, hc]
          exact List.mem_append_right cs List.mem_cons_self
        rcases List.mem_append.mp hmem with hmem | hmem
        · cases hbody _ hmem
        · cases List.mem_singleton.mp hmem
  · rw [hcs, read?_wrap_append hbody htag] at h
    cases h

/-- No tag stands in the text. -/
def Absent (cs : List Char) : Prop := ∀ rest, rest <:+ cs → read? rest = none

theorem absent_nil : Absent [] := by
  intro rest hrest
  rw [List.suffix_nil.mp hrest]
  rfl

theorem Absent.cons {c : Char} {cs : List Char} (hread : read? (c :: cs) = none)
    (h : Absent cs) : Absent (c :: cs) := by
  intro rest hrest
  rcases List.suffix_cons_iff.mp hrest with rfl | hrest
  · exact hread
  · exact h rest hrest

theorem Absent.tail {c : Char} {cs : List Char} (h : Absent (c :: cs)) : Absent cs :=
  fun rest hrest => h rest (hrest.trans (List.suffix_cons c cs))

end Tag

/-! ## Pieces -/

theorem flatMap_source_consChar (c : Char) (ps : List Piece) :
    (Piece.consChar c ps).flatMap Piece.source = c :: ps.flatMap Piece.source := by
  rcases ps with _ | ⟨_ | _, more⟩
  · rfl
  · rfl
  · rfl

/-- The pieces of a text are the text. -/
theorem flatMap_source_pieces (cs : List Char) : (pieces cs).flatMap Piece.source = cs := by
  induction cs using pieces.induct with
  | case1 cs body tag rest hread _ ih =>
    rw [pieces_of_read?_eq_some hread, List.flatMap_cons, ih, Tag.eq_of_read? hread]
    rfl
  | case2 _ =>
    rw [pieces_nil]
    rfl
  | case3 c rest hread ih =>
    rw [pieces_of_read?_eq_none hread, flatMap_source_consChar, ih]

/-- A text in which no tag stands is one piece, whatever tag comes after it. -/
theorem pieces_text_append {cs rest : List Char} (hne : cs ≠ []) (hcs : Tag.Absent cs)
    (hrest : rest = [] ∨ ∃ found, Tag.read? rest = some found) :
    pieces (cs ++ rest) = .text cs :: pieces rest := by
  have hbrace : ∀ c ∈ rest.head?, c = '\x7b' := by
    rcases hrest with rfl | ⟨⟨body, tag, more⟩, hfound⟩
    · exact fun c hc => nomatch hc
    · rw [Tag.eq_of_read? hfound]
      rintro _ ⟨⟩
      rfl
  have hnone : Tag.read? (cs ++ rest) = none :=
    Tag.read?_append_eq_none (hcs cs List.suffix_rfl) hne hbrace
  induction cs with
  | nil => exact (hne rfl).elim
  | cons c cs ih =>
    rw [List.cons_append] at hnone ⊢
    rw [pieces_of_read?_eq_none hnone]
    by_cases hcsne : cs = []
    · -- the last character is joined to no other text
      rw [hcsne, List.nil_append]
      rcases hrest with rfl | ⟨⟨body, tag, more⟩, hfound⟩
      · rw [pieces_nil]
        rfl
      · rw [pieces_of_read?_eq_some hfound]
        rfl
    · have hsuffix := hcs.tail cs List.suffix_rfl
      rw [ih hcsne hcs.tail (Tag.read?_append_eq_none hsuffix hcsne hbrace)]
      rfl

/-! ## Symbols that are told apart -/

namespace Symbol

/-- What is written for a symbol. -/
def source : Symbol → List Char
  | text content => content.toList
  | tag found => Tag.wrap found.body

/-- A symbol that is a text. -/
def IsText : Symbol → Prop
  | text _ => True
  | tag _ => False

/-- A symbol that can be written. -/
def IsNormal : Symbol → Prop
  | text content => content ≠ "" ∧ Tag.Absent content.toList
  | tag found => found.IsNormal

end Symbol

/-- Symbols that can be written, no two texts side by side. -/
def Lexical (xs : List Symbol) : Prop :=
  (∀ x ∈ xs, x.IsNormal) ∧ xs.IsChain fun x y => x.IsText → ¬ y.IsText

theorem lexical_nil : Lexical [] := ⟨List.forall_mem_nil _, .nil⟩

theorem lexical_append {xs ys : List Symbol} :
    Lexical (xs ++ ys) ↔ Lexical xs ∧ Lexical ys ∧
      ∀ x ∈ xs.getLast?, ∀ y ∈ ys.head?, x.IsText → ¬ y.IsText := by
  rw [Lexical, List.forall_mem_append, List.isChain_append]
  constructor
  · rintro ⟨⟨hx, hy⟩, hxs, hys, hborder⟩
    exact ⟨⟨hx, hxs⟩, ⟨hy, hys⟩, hborder⟩
  · rintro ⟨⟨hx, hxs⟩, ⟨hy, hys⟩, hborder⟩
    exact ⟨⟨hx, hy⟩, hxs, hys, hborder⟩

theorem lexical_singleton {x : Symbol} : Lexical [x] ↔ x.IsNormal := by
  rw [Lexical, List.forall_mem_singleton]
  exact and_iff_left (.singleton x)

theorem lexical_cons {x : Symbol} {xs : List Symbol} :
    Lexical (x :: xs) ↔ x.IsNormal ∧ Lexical xs ∧ ∀ y ∈ xs.head?, x.IsText → ¬ y.IsText := by
  rw [← List.singleton_append, lexical_append, lexical_singleton, List.getLast?_singleton]
  simp

theorem lexical_tag_cons {tag : Tag} {xs : List Symbol} :
    Lexical (.tag tag :: xs) ↔ tag.IsNormal ∧ Lexical xs := by
  rw [lexical_cons]
  exact and_congr_right' (and_iff_left fun _ _ htext => htext.elim)

theorem lexical_append_tag {tag : Tag} {xs ys : List Symbol} :
    Lexical (xs ++ .tag tag :: ys) ↔ Lexical xs ∧ tag.IsNormal ∧ Lexical ys := by
  rw [lexical_append, lexical_tag_cons]
  refine and_congr_right' (and_iff_left ?_)
  rintro x - _ ⟨⟩ -
  exact id

/-- The symbols are cut from their text again. -/
theorem Lexical.map_symbol_pieces {xs : List Symbol} (h : Lexical xs) :
    (pieces (xs.flatMap Symbol.source)).map Piece.symbol = xs := by
  induction xs with
  | nil =>
    rw [List.flatMap_nil, pieces_nil]
    rfl
  | cons x xs ih =>
    rcases lexical_cons.mp h with ⟨hx, hxs, hborder⟩
    rw [List.flatMap_cons]
    cases x with
    | tag tag =>
      have hread := Tag.read?_wrap_append (Tag.braceless_body hx) (Tag.ofBody?_body hx)
        (xs.flatMap Symbol.source)
      rw [Symbol.source, pieces_of_read?_eq_some hread, List.map_cons, ih hxs]
      rfl
    | text text =>
      -- what comes after a text is a tag, if anything
      have hrest : xs.flatMap Symbol.source = [] ∨
          ∃ found, Tag.read? (xs.flatMap Symbol.source) = some found := by
        rcases xs with _ | ⟨next | tag, more⟩
        · exact .inl rfl
        · exact (hborder _ rfl trivial trivial).elim
        · have htag : tag.IsNormal := (lexical_tag_cons.mp hxs).1
          exact .inr ⟨_, Tag.read?_wrap_append (Tag.braceless_body htag) (Tag.ofBody?_body htag) _⟩
      rw [Symbol.source, pieces_text_append (mt String.toList_eq_nil_iff.mp hx.1) hx.2 hrest,
        List.map_cons, ih hxs, Piece.symbol, String.ofList_toList]

/-- A character that begins no tag makes texts that can be written of such texts. -/
theorem Lexical.consChar {c : Char} {ps : List Piece}
    (hread : Tag.read? (c :: ps.flatMap Piece.source) = none)
    (h : Lexical (ps.map Piece.symbol)) :
    Lexical ((Piece.consChar c ps).map Piece.symbol) := by
  have halone : Symbol.IsNormal (.text (String.ofList [c])) := by
    have hfirst : Tag.read? [c] = none := Tag.read?_of_read?_append hread
    refine ⟨by simp, ?_⟩
    rw [String.toList_ofList]
    exact .cons hfirst Tag.absent_nil
  rcases ps with _ | ⟨cs | ⟨body, tag⟩, more⟩
  · exact lexical_singleton.mpr halone
  · rcases lexical_cons.mp h with ⟨⟨-, habsent⟩, hmore, hborder⟩
    rw [String.toList_ofList] at habsent
    rw [List.flatMap_cons, ← List.cons_append] at hread
    refine lexical_cons.mpr ⟨⟨by simp, ?_⟩, hmore, hborder⟩
    rw [String.toList_ofList]
    exact habsent.cons (Tag.read?_of_read?_append hread)
  · refine lexical_cons.mpr ⟨halone, h, ?_⟩
    rintro _ ⟨⟩ -
    exact id

/-- Every text is cut into symbols that can be written. -/
theorem lexical_pieces (cs : List Char) : Lexical ((pieces cs).map Piece.symbol) := by
  induction cs using pieces.induct with
  | case1 cs body tag rest hread _ ih =>
    rcases Tag.braceless_of_read? hread with ⟨hbody, htag⟩
    rw [pieces_of_read?_eq_some hread, List.map_cons]
    exact lexical_tag_cons.mpr ⟨Tag.isNormal_of_ofBody? hbody htag, ih⟩
  | case2 _ =>
    rw [pieces_nil]
    exact lexical_nil
  | case3 c rest hread ih =>
    rw [pieces_of_read?_eq_none hread]
    refine ih.consChar ?_
    rw [flatMap_source_pieces]
    exact hread

end Curly
