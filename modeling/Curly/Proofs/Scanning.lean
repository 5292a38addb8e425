import Curly.Proofs.Search

/-!
# Where tags stand in a text

The tokens of a text are exact: a part of the text is a tag token where the pattern of a tag matches
it, and nowhere else (`Token.ofText_exact`). This holds because matches do not overlap: each has its
two braces at its ends and none between them, so wherever the search for a tag goes on, it goes on
outside of all matches.
-/

namespace Curly

/-! ## Matches in a text -/

/-- A part of a text, after what comes before it, that the pattern of a tag matches as a whole. -/
def Tag.Occurs (text before m : List Char) : Prop :=
  before ++ m <+: text ∧ ∃ gs, Tag.pattern.Matches m gs

/-- A token that is a tag. -/
def Token.IsTag (t : Token) : Prop := ∃ tag, t.form = .tag tag

theorem Tag.occurs_iff {text before m : List Char} :
    Tag.Occurs text before m ↔ ∃ body tag after, m = Tag.wrap body ∧ Text.Braceless body ∧
      Tag.ofBody? body = some tag ∧ text = before ++ (Tag.wrap body ++ after) := by
  rw [Tag.Occurs, Tag.matches_pattern_iff]
  constructor
  · rintro ⟨⟨after, rfl⟩, body, tag, rfl, hbody, htag⟩
    exact ⟨body, tag, after, rfl, hbody, htag, List.append_assoc _ _ _⟩
  · rintro ⟨body, tag, after, rfl, hbody, htag, rfl⟩
    exact ⟨⟨after, List.append_assoc _ _ _⟩, body, tag, rfl, hbody, htag⟩

/-- The only opening brace of a tag is its first character. -/
theorem Tag.eq_nil_of_wrap_eq {body before rest : List Char} (hbody : Text.Braceless body)
    (h : Tag.wrap body = before ++ '\x7b' :: rest) : before = [] := by
  rcases before with _ | ⟨c, before⟩
  · rfl
  · rw [Tag.wrap, List.cons_append, List.cons_append, List.cons.injEq] at h
    have hmem : '\x7b' ∈ body ++ ['\x7d'] := h.2 ▸ List.mem_append_right before List.mem_cons_self
    rcases List.mem_append.mp hmem with hmem | hmem
    · cases hbody _ hmem
    · cases List.mem_singleton.mp hmem

/-- A tag that stands in a text which begins with a tag is that tag or stands after it. -/
theorem Tag.wrap_append_cases {body body' before rest after : List Char}
    (hbody : Text.Braceless body)
    (h : Tag.wrap body ++ rest = before ++ (Tag.wrap body' ++ after)) :
    before = [] ∨ ∃ between, before = Tag.wrap body ++ between ∧
      rest = between ++ (Tag.wrap body' ++ after) := by
  rcases List.append_eq_append_iff.mp h with ⟨between, hbefore, hrest⟩ | ⟨inner, hwrap, hinner⟩
  · exact .inr ⟨between, hbefore, hrest⟩
  · rcases inner with _ | ⟨c, inner⟩
    · rw [List.append_nil] at hwrap
      exact .inr ⟨[], by rw [hwrap, List.append_nil], hinner.symm⟩
    · rw [Tag.wrap, List.cons_append, List.cons_append, List.cons_append, List.cons.injEq] at hinner
      exact .inl (Tag.eq_nil_of_wrap_eq hbody (hinner.1 ▸ hwrap))

/-! ## Places -/

theorem Location.offset_next (l : Location) (c : Char) : (l.next c).offset = l.offset + 1 := by
  rw [next]
  split
  · rfl
  · rfl

theorem Location.offset_after (l : Location) (cs : List Char) :
    (l.after cs).offset = l.offset + cs.length := by
  induction cs generalizing l with
  | nil => rfl
  | cons c cs ih =>
    rw [after, List.foldl_cons]
    refine (ih (l.next c)).trans ?_
    rw [offset_next, List.length_cons]
    omega

theorem Location.after_append (l : Location) (cs ds : List Char) :
    l.after (cs ++ ds) = (l.after cs).after ds :=
  List.foldl_append

theorem Location.after_cons (l : Location) (c : Char) (cs : List Char) :
    l.after (c :: cs) = (l.next c).after cs :=
  rfl

/-! ## Tokens and the pieces they are made of -/

theorem mem_locate {l : Location} {ps : List Piece} {t : Token} (h : t ∈ locate l ps) :
    (∃ p ∈ ps, ∃ l', t = p.token l') ∨ t.form = .stop := by
  induction ps generalizing l with
  | nil =>
    rw [List.mem_singleton.mp h]
    exact .inr rfl
  | cons p ps ih =>
    rcases List.mem_cons.mp h with rfl | h
    · exact .inl ⟨p, List.mem_cons_self, l, rfl⟩
    · exact (ih h).imp_left fun ⟨q, hq, hl⟩ => ⟨q, List.mem_cons_of_mem p hq, hl⟩

/-- A character of text moves the tags after it on by one place. -/
theorem mem_locate_consChar {l : Location} {c : Char} {ps : List Piece} {t : Token} (ht : t.IsTag) :
    t ∈ locate l (Piece.consChar c ps) ↔ t ∈ locate (l.next c) ps := by
  have hne : ∀ cs l', t ≠ (Piece.text cs).token l' := by
    rintro cs l' rfl
    rcases ht with ⟨tag, htag⟩
    cases htag
  rcases ps with _ | ⟨cs | ⟨body, tag⟩, more⟩
  · simp only [Piece.consChar, locate, List.mem_cons, hne, false_or]
    rfl
  · simp only [Piece.consChar, locate, List.mem_cons, hne, false_or]
    rfl
  · simp only [Piece.consChar, locate, List.mem_cons, hne, false_or]
    rfl

/-- The tags among the tokens are those that stand in the text, each at its place. -/
theorem mem_locate_tag {l : Location} {cs : List Char} {t : Token} :
    t ∈ locate l (pieces cs) ∧ t.IsTag ↔ ∃ before body tag after,
      cs = before ++ (Tag.wrap body ++ after) ∧ Text.Braceless body ∧
      Tag.ofBody? body = some tag ∧ t = (Piece.tag body tag).token (l.after before) := by
  induction cs using pieces.induct generalizing l with
  | case1 cs body tag rest hread _ ih =>
    rcases Tag.braceless_of_read? hread with ⟨hbody, htag⟩
    have hcs := Tag.eq_of_read? hread
    rw [pieces_of_read?_eq_some hread, locate, List.mem_cons]
    constructor
    · rintro ⟨rfl | hmem, ht⟩
      · exact ⟨[], body, tag, rest, hcs, hbody, htag, rfl⟩
      · rcases ih.mp ⟨hmem, ht⟩ with ⟨before, body', tag', after, rfl, hbody', htag', rfl⟩
        refine ⟨Tag.wrap body ++ before, body', tag', after, ?_, hbody', htag', ?_⟩
        · rw [hcs, List.append_assoc]
        · rw [Location.after_append]
          rfl
    · rintro ⟨before, body', tag', after, heq, hbody', htag', rfl⟩
      refine ⟨?_, tag', rfl⟩
      -- two tags that begin in one text are at one place, or the first ends before the second
      rcases Tag.wrap_append_cases hbody (hcs.symm.trans heq) with rfl | ⟨between, rfl, rfl⟩
      · rw [heq, List.nil_append, Tag.read?_wrap_append hbody' htag'] at hread
        cases hread
        exact .inl rfl
      · refine .inr (ih.mpr ⟨between, body', tag', after, rfl, hbody', htag', ?_⟩).1
        rw [Location.after_append]
        rfl
  | case2 _ =>
    rw [pieces_nil]
    constructor
    · rintro ⟨hmem, tag, htag⟩
      rw [List.mem_singleton.mp hmem] at htag
      cases htag
    · rintro ⟨before, body, tag, after, heq, -⟩
      simp [Tag.wrap] at heq
  | case3 c rest hread ih =>
    rw [pieces_of_read?_eq_none hread]
    constructor
    · rintro ⟨hmem, ht⟩
      rcases ih.mp ⟨(mem_locate_consChar ht).mp hmem, ht⟩ with
        ⟨before, body, tag, after, rfl, hbody, htag, rfl⟩
      exact ⟨c :: before, body, tag, after, rfl, hbody, htag, by rw [Location.after_cons]⟩
    -- no tag begins at this character, or it would have been read
    · rintro ⟨before, body, tag, after, heq, hbody, htag, rfl⟩
      rcases before with _ | ⟨d, before⟩
      · rw [heq, List.nil_append, Tag.read?_wrap_append hbody htag] at hread
        cases hread
      · rw [List.cons_append, List.cons.injEq] at heq
        rcases heq with ⟨rfl, rfl⟩
        have ht : ((Piece.tag body tag).token (l.after (c :: before))).IsTag := ⟨tag, rfl⟩
        refine ⟨(mem_locate_consChar ht).mpr (ih.mpr ?_).1, ht⟩
        exact ⟨before, body, tag, after, rfl, hbody, htag, by rw [Location.after_cons]⟩

/-- No piece of a text is empty. -/
theorem source_ne_nil_of_mem_pieces {cs : List Char} {p : Piece} (h : p ∈ pieces cs) :
    p.source ≠ [] := by
  have hnormal := (lexical_pieces cs).1 _ (List.mem_map_of_mem h)
  cases p with
  | text content =>
    intro hnil
    exact hnormal.1 (congrArg String.ofList hnil)
  | tag body tag => exact List.cons_ne_nil _ _

/-- No tag stands in a text between tags. -/
theorem absent_of_text_mem {l : Location} {cs : List Char} {t : Token}
    (h : t ∈ locate l (pieces cs)) (ht : t.form = .text) : Tag.Absent t.source.toList := by
  rcases mem_locate h with ⟨p, hp, l', rfl⟩ | hstop
  · cases p with
    | text content => exact ((lexical_pieces cs).1 _ (List.mem_map_of_mem hp)).2
    | tag body tag => cases ht
  · rw [ht] at hstop
    cases hstop

/-- Each token ends before the next begins, and none but the last is empty. -/
theorem locate_pairwise {l : Location} {ps : List Piece} (h : ∀ p ∈ ps, p.source ≠ []) :
    (∀ t ∈ locate l ps, l.offset ≤ t.location.offset) ∧
      (locate l ps).Pairwise fun t u =>
        t.source ≠ "" ∧ t.location.offset + t.source.toList.length ≤ u.location.offset := by
  induction ps generalizing l with
  | nil =>
    refine ⟨fun t ht => ?_, List.pairwise_singleton _ _⟩
    rw [List.mem_singleton.mp ht]
  | cons p ps ih =>
    rcases List.forall_mem_cons.mp h with ⟨hp, hps⟩
    rcases ih (l := l.after p.source) hps with ⟨hle, hpairs⟩
    rw [Location.offset_after] at hle
    refine ⟨fun t ht => ?_, List.pairwise_cons.mpr ⟨fun u hu => ⟨?_, ?_⟩, hpairs⟩⟩
    · rcases List.mem_cons.mp ht with rfl | ht
      · exact Nat.le_refl _
      · exact (Nat.le_add_right _ _).trans (hle t ht)
    · intro hempty
      exact hp (by rw [← String.toList_ofList (l := p.source)]; exact congrArg String.toList hempty)
    · change l.offset + (String.ofList p.source).toList.length ≤ _
      rw [String.toList_ofList]
      exact hle u hu

/-! ## The tokens of a text -/

namespace Token

variable {text : String} {t : Token}

/-- The tags of a text are the matches that stand in it, each at its place. -/
theorem tag_mem_ofText_iff : t ∈ ofText text ∧ t.IsTag ↔ ∃ before body tag after,
    text.toList = before ++ (Tag.wrap body ++ after) ∧ Text.Braceless body ∧
    Tag.ofBody? body = some tag ∧ t = (Piece.tag body tag).token (Location.start.after before) :=
  mem_locate_tag

/-- A tag is a match that stands at its place. -/
theorem exists_occurs (hmem : t ∈ ofText text) (ht : t.IsTag) :
    ∃ before, Tag.Occurs text.toList before t.source.toList ∧
      t.location = Location.start.after before := by
  rcases tag_mem_ofText_iff.mp ⟨hmem, ht⟩ with ⟨before, body, tag, after, heq, hbody, htag, rfl⟩
  exact ⟨before, Tag.occurs_iff.mpr ⟨body, tag, after, String.toList_ofList, hbody, htag, heq⟩, rfl⟩

/-- Where a match stands there is a tag. -/
theorem exists_mem_of_occurs {before m : List Char} (h : Tag.Occurs text.toList before m) :
    ∃ t ∈ ofText text,
      t.IsTag ∧ t.location = Location.start.after before ∧ t.source.toList = m := by
  rcases Tag.occurs_iff.mp h with ⟨body, tag, after, rfl, hbody, htag, heq⟩
  have ht := tag_mem_ofText_iff.mpr ⟨before, body, tag, after, heq, hbody, htag, rfl⟩
  exact ⟨_, ht.1, ht.2, rfl, String.toList_ofList⟩

theorem ofText_pairwise (text : String) : (ofText text).Pairwise fun t u =>
    t.source ≠ "" ∧ t.location.offset + t.source.toList.length ≤ u.location.offset :=
  (locate_pairwise fun _ => source_ne_nil_of_mem_pieces).2

/-- Two matches in a text are the same, or one of them ends before the other begins. -/
theorem occurs_disjoint {before m before' m' : List Char} (h : Tag.Occurs text.toList before m)
    (h' : Tag.Occurs text.toList before' m') :
    (before = before' ∧ m = m') ∨ before.length + m.length ≤ before'.length ∨
      before'.length + m'.length ≤ before.length := by
  have hoffset : ∀ cs, (Location.start.after cs).offset = cs.length :=
    fun cs => (Location.offset_after .start cs).trans (Nat.zero_add _)
  rcases exists_mem_of_occurs h with ⟨t, hmem, -, hplace, rfl⟩
  rcases exists_mem_of_occurs h' with ⟨u, hmem', -, hplace', rfl⟩
  rcases List.getElem_of_mem hmem with ⟨i, hi, rfl⟩
  rcases List.getElem_of_mem hmem' with ⟨k, hk, rfl⟩
  have hpairs := List.pairwise_iff_getElem.mp (ofText_pairwise text)
  -- both are tokens, and tokens stand one behind the other
  rcases Nat.lt_trichotomy i k with hlt | rfl | hgt
  · have hle := (hpairs i k hi hk hlt).2
    rw [hplace, hplace', hoffset, hoffset] at hle
    exact .inr (.inl hle)
  · have hlength : before.length = before'.length := by
      rw [← hoffset, ← hplace, hplace', hoffset]
    have hbefore : before <+: text.toList := (List.prefix_append _ _).trans h.1
    have hbefore' : before' <+: text.toList := (List.prefix_append _ _).trans h'.1
    have hpart := List.prefix_of_prefix_length_le hbefore hbefore' hlength.le
    exact .inl ⟨hpart.eq_of_length hlength, rfl⟩
  · have hle := (hpairs k i hk hi hgt).2
    rw [hplace, hplace', hoffset, hoffset] at hle
    exact .inr (.inr hle)

/-- Nothing in a text between tags is matched. -/
theorem not_occurs_of_text (hmem : t ∈ ofText text) (ht : t.form = .text) (before m : List Char) :
    ¬ Tag.Occurs t.source.toList before m := by
  intro h
  rcases Tag.occurs_iff.mp h with ⟨body, tag, after, -, hbody, htag, heq⟩
  have hnone := absent_of_text_mem hmem ht (Tag.wrap body ++ after)
    (heq ▸ List.suffix_append before _)
  rw [Tag.read?_wrap_append hbody htag] at hnone
  cases hnone

/-- At the place of a tag the search finds its source first, with its arguments. -/
theorem exists_first {tag : Tag} (hmem : t ∈ ofText text) (ht : t.form = .tag tag) :
    ∃ w, Tag.pattern.first (text.toList.drop t.location.offset) = some w ∧
      w.matched = t.source.toList ∧ Tag.ofCaptures w.captures = some tag := by
  rcases tag_mem_ofText_iff.mp ⟨hmem, tag, ht⟩ with
    ⟨before, body, found, after, heq, hbody, hfound, rfl⟩
  cases ht
  have hdrop : text.toList.drop (Location.start.after before).offset = Tag.wrap body ++ after := by
    rw [Location.offset_after, heq]
    change (before ++ _).drop (0 + before.length) = _
    rw [Nat.zero_add, List.drop_left]
  have hfirst := Tag.first_eq_read? (Tag.wrap body ++ after)
  rw [Tag.read?_wrap_append hbody hfound, Option.map_some, Option.bind_eq_some_iff] at hfirst
  rcases hfirst with ⟨w, hw, hcaptures⟩
  rcases Option.map_eq_some_iff.mp hcaptures with ⟨tag', htag', hway⟩
  rw [Prod.mk.injEq, Prod.mk.injEq] at hway
  rcases hway with ⟨hmatched, rfl, -⟩
  exact ⟨w, by rw [← hw]; exact congrArg _ hdrop, hmatched.trans String.toList_ofList.symm, htag'⟩

/-- A tag alone is one token, of the same kind and with the same arguments. -/
theorem ofText_source {tag : Tag} (hmem : t ∈ ofText text) (ht : t.form = .tag tag) :
    ofText t.source = [⟨.tag tag, t.source, .start⟩,
      ⟨.stop, "", Location.start.after t.source.toList⟩] := by
  rcases tag_mem_ofText_iff.mp ⟨hmem, tag, ht⟩ with
    ⟨before, body, found, after, heq, hbody, hfound, rfl⟩
  cases ht
  have hread := Tag.read?_wrap_append hbody hfound []
  rw [List.append_nil] at hread
  have hsource : ((Piece.tag body tag).token (Location.start.after before)).source.toList =
      Tag.wrap body :=
    String.toList_ofList
  rw [ofText, hsource, pieces_of_read?_eq_some hread, pieces_nil]
  rfl

/-- The tokens of a text are exact. A part of the text is a tag token exactly if the pattern of a
tag matches it as a whole, and all tag tokens are such parts; each stands before the next one, and
matches do not overlap. No part of a text token is matched. The kind and the arguments of a tag are
those of the match that is found first at its place, and those that it has when it stands alone. -/
theorem ofText_exact (text : String) :
    (∀ before m, before ++ m <+: text.toList →
      ((∃ gs, Tag.pattern.Matches m gs) ↔ ∃ t ∈ ofText text,
        t.IsTag ∧ t.location = Location.start.after before ∧ t.source.toList = m)) ∧
    (∀ t ∈ ofText text, t.IsTag → ∃ before, Tag.Occurs text.toList before t.source.toList ∧
      t.location = Location.start.after before) ∧
    ((ofText text).Pairwise fun t u =>
      t.source ≠ "" ∧ t.location.offset + t.source.toList.length ≤ u.location.offset) ∧
    (∀ before m before' m', Tag.Occurs text.toList before m → Tag.Occurs text.toList before' m' →
      (before = before' ∧ m = m') ∨ before.length + m.length ≤ before'.length ∨
        before'.length + m'.length ≤ before.length) ∧
    (∀ t ∈ ofText text, t.form = .text → ∀ before m, ¬ Tag.Occurs t.source.toList before m) ∧
    ∀ t ∈ ofText text, ∀ tag, t.form = .tag tag →
      (∃ w, Tag.pattern.first (text.toList.drop t.location.offset) = some w ∧
        w.matched = t.source.toList ∧ Tag.ofCaptures w.captures = some tag) ∧
      ofText t.source = [⟨.tag tag, t.source, .start⟩,
        ⟨.stop, "", Location.start.after t.source.toList⟩] := by
  refine ⟨fun before m hpart => ⟨fun h => exists_mem_of_occurs ⟨hpart, h⟩, ?_⟩,
    fun t hmem ht => exists_occurs hmem ht, ofText_pairwise text,
    fun _ _ _ _ h h' => occurs_disjoint h h', fun t hmem ht => not_occurs_of_text hmem ht,
    fun t hmem tag ht => ⟨exists_first hmem ht, ofText_source hmem ht⟩⟩
  rintro ⟨t, hmem, ht, -, rfl⟩
  rcases exists_occurs hmem ht with ⟨_, ⟨-, hmatch⟩, -⟩
  exact hmatch

end Token

end Curly
