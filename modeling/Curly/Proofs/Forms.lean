import Curly.Proofs.Cutting
import Curly.Proofs.Patterns

/-!
# The forms of a tag

Tags are documented as a pattern: a brace, one of seven forms, and a brace (`Tag.pattern`). Which
form it was, and with what arguments, is told by what its groups capture (`Tag.ofCaptures`). The
readers of tags follow the forms without a search. They read a tag exactly where the pattern matches
(`Tag.matches_pattern_iff`), and for all forms but one every match captures what they read
(`Tag.IsSound`). A condition may begin and end with blanks that are matched outside of it too, so of
its matches only some capture what is read.
-/

namespace Curly.Tag

open Text Pattern

/-! ## The pattern of a tag -/

/-- The groups of the pattern. -/
inductive Group where
  | value
  | rawKind
  | rawPath
  | condition
  | collection
  | item
  | index
  | name
  | elseMark
  | block
deriving DecidableEq, Repr

/-- A path that shows a value. -/
def valueForm : List (Pattern Group) :=
  [many isBlank, group .value (run Path.isPathChar), many isBlank]

/-- A path that shows a value as JSON, or as it is. -/
def rawForm : List (Pattern Group) :=
  [literal "@", group .rawKind (alt (literal "json") (literal "html")), run isBlank,
    group .rawPath (run Path.isPathChar), many isBlank]

/-- The condition that opens a block. -/
def ifForm : List (Pattern Group) :=
  [literal "#if", run isBlank, group .condition (few (!isBrace ·)), many isBlank]

/-- The name of a loop's index, after a comma. -/
def indexPart : List (Pattern Group) :=
  [many isBlank, literal ",", many isBlank, group .index (run isWord)]

/-- The name of a loop's item, and of its index if it has one. -/
def itemPart : List (Pattern Group) :=
  [run isBlank, literal "as", run isBlank, group .item (run isWord), maybe (seqs indexPart)]

/-- The collection of a loop, and its names if it gives any. -/
def eachForm : List (Pattern Group) :=
  [literal "#each", run isBlank, group .collection (run Path.isPathChar), maybe (seqs itemPart),
    many isBlank]

/-- A name between quotes of a kind. -/
def quotedName (quote : String) (p : Char → Bool) : Pattern Group :=
  seqs [literal quote, many p, literal quote]

/-- A name in quotes of either kind or without. -/
def rawName : Pattern Group :=
  alts [quotedName "\"" fun c => c != '"' && !isBrace c,
    quotedName "'" fun c => c != '\'' && !isBrace c, run isNameChar]

/-- The name of a template to embed. -/
def embedForm : List (Pattern Group) :=
  [literal "#include", run isBlank, group .name rawName, many isBlank]

/-- The mark between the branches of a block. -/
def elseForm : List (Pattern Group) := [literal ":", group .elseMark (literal "else"), many isBlank]

/-- The end of a block. -/
def closeForm : List (Pattern Group) :=
  [literal "/", group .block (alt (literal "if") (literal "each")), many isBlank]

/-- The forms of a tag, the preferred ones first. -/
def forms : List (List (Pattern Group)) :=
  [valueForm, rawForm, ifForm, eachForm, embedForm, elseForm, closeForm]

/-- A form between braces. -/
def braced (form : List (Pattern Group)) : Pattern Group :=
  seqs (literal "\x7b" :: (form ++ [literal "\x7d"]))

/-- A tag in one of its forms. -/
def pattern : Pattern Group := alts (forms.map braced)

/-- A name without the quotes around it. -/
def unquote (raw : List Char) : List Char :=
  match raw with
  | [] => []
  | quote :: rest =>
    if rest.getLast? = some quote ∧ (quote = '"' ∨ quote = '\'') then rest.dropLast else raw

/-- The tag that is told by what the groups capture. -/
def ofCaptures (gs : Captures Group) : Option Tag :=
  let captured := fun g => (gs.lookup g).map String.ofList
  let raw := fun kind => (captured .rawPath).map (if kind = "html" then html else json)
  let each := fun collection =>
    eachOpen collection ((captured .item).getD defaultItem) ((captured .index).getD "")
  (captured .value).map value
  <|> (captured .rawKind).bind raw
  <|> (captured .condition).map ifOpen
  <|> (captured .collection).map each
  <|> (captured .name).map (fun name => embed (String.ofList (unquote name.toList)))
  <|> (captured .elseMark).map (fun _ => elseMark)
  <|> (captured .block).map (fun word => close (if word = "if" then .cond else .each))

/-! ## Blanks and paths -/

theorem isRun_ofList {p : Char → Bool} {word : List Char} :
    IsRun p (String.ofList word) ↔ word ≠ [] ∧ ∀ c ∈ word, p c := by
  rw [IsRun, String.toList_ofList]
  refine and_congr_left' (not_congr ?_)
  rw [← String.toList_eq_nil_iff, String.toList_ofList]

theorem run?_ofList_append {p : Char → Bool} {word rest : List Char}
    (hword : word ≠ [] ∧ ∀ c ∈ word, p c) (hrest : ∀ c ∈ rest.head?, p c = false) :
    run? p (word ++ rest) = some (String.ofList word, rest) := by
  have h := run?_append (isRun_ofList.mpr hword) hrest
  rwa [String.toList_ofList] at h

/-- What begins with a character of another class. -/
theorem head?_append_eq_false {p q : Char → Bool} {run rest : List Char} (hrun : ∀ c ∈ run, q c)
    (hq : ∀ c, q c → p c = false) (hrest : ∀ c ∈ rest.head?, p c = false) :
    ∀ c ∈ (run ++ rest).head?, p c = false := by
  intro c hc
  cases run with
  | nil => exact hrest c hc
  | cons d run =>
    cases hc
    exact hq _ (hrun _ List.mem_cons_self)

/-- Classes that share no character. -/
theorem eq_false_of_disjoint {p q : Char → Bool} (hp : ∀ c, p c → q c = false) {c : Char}
    (hq : q c) : p c = false := by
  refine Bool.eq_false_iff.mpr fun h => ?_
  rw [hp c h] at hq
  cases hq

theorem isBrace_of_isBlank {c : Char} (h : isBlank c) : isBrace c = false := by
  refine eq_false_of_disjoint (fun d hd => ?_) h
  rw [isBrace, Bool.or_eq_true, beq_iff_eq, beq_iff_eq] at hd
  rcases hd with rfl | rfl
  · decide
  · decide

theorem isPathChar_of_isBlank {c : Char} (h : isBlank c) : Path.isPathChar c = false :=
  eq_false_of_disjoint (p := Path.isPathChar) (fun _ => Path.isBlank_of_isPathChar) h

theorem isWord_of_isBlank {c : Char} (h : isBlank c) : isWord c = false :=
  eq_false_of_disjoint (p := isWord) (fun _ => isBlank_of_isWord) h

/-- Characters of a class that has no blank in it begin unblank. -/
theorem beginsUnblank_append {p : Char → Bool} {word : List Char} (rest : List Char)
    (hword : word ≠ [] ∧ ∀ c ∈ word, p c) (hp : ∀ c, p c → isBlank c = false) :
    BeginsUnblank (word ++ rest) := by
  rcases List.exists_cons_of_ne_nil hword.1 with ⟨c, more, rfl⟩
  rintro _ ⟨⟩
  exact hp c (hword.2 c List.mem_cons_self)

theorem dropWhile_isBlank_append {blanks rest : List Char} (hblanks : ∀ c ∈ blanks, isBlank c)
    (hrest : BeginsUnblank rest) : (blanks ++ rest).dropWhile isBlank = rest :=
  (run_append hblanks hrest).2

/-- Blanks and what begins after them. -/
theorem afterBlanks?_append {blanks rest : List Char}
    (hblanks : blanks ≠ [] ∧ ∀ c ∈ blanks, isBlank c) :
    afterBlanks? (blanks ++ rest) = some (rest.dropWhile isBlank) := by
  rcases List.exists_cons_of_ne_nil hblanks.1 with ⟨c, more, rfl⟩
  rcases List.forall_mem_cons.mp hblanks.2 with ⟨hc, hmore⟩
  rw [List.cons_append, afterBlanks?, if_pos hc, List.dropWhile_append_of_pos hmore]

theorem exists_blanks_of_afterBlanks? {cs rest : List Char} (h : afterBlanks? cs = some rest) :
    ∃ blanks, (blanks ≠ [] ∧ ∀ c ∈ blanks, isBlank c) ∧ cs = blanks ++ rest := by
  cases cs with
  | nil => cases h
  | cons c cs =>
    rw [afterBlanks?] at h
    split at h
    · next hc =>
      cases h
      refine ⟨c :: cs.takeWhile isBlank, ⟨by simp, ?_⟩, ?_⟩
      · exact List.forall_mem_cons.mpr ⟨hc, fun d hd => List.mem_takeWhile_imp hd⟩
      · rw [List.cons_append, List.takeWhile_append_dropWhile]
    · cases h

theorem after?_eq_some_iff {word : String} {body cs : List Char} :
    after? word body = some cs ↔
      ∃ rest, body = word.toList ++ rest ∧ afterBlanks? rest = some cs := by
  rw [after?, Option.bind_eq_some_iff]
  refine exists_congr fun rest => and_congr_left' ?_
  rw [List.isPrefixOf?_eq_some_iff_append_eq, eq_comm]

/-- Where what follows begins unblank, blanks are matched as they are read. -/
theorem matches_blanks {ps : List (Pattern Group)} {cs : List Char} {gs : Captures Group}
    (hps : ∀ m gs, (seqs ps).Matches m gs → BeginsUnblank m) :
    (seqs (run isBlank :: ps)).Matches cs gs ↔
      ∃ rest, afterBlanks? cs = some rest ∧ (seqs ps).Matches rest gs := by
  rw [matches_run_cons]
  constructor
  · rintro ⟨blanks, rest, hblanks, rfl, hrest⟩
    refine ⟨rest, ?_, hrest⟩
    rw [afterBlanks?_append hblanks, dropWhile_isBlank_eq_self (hps _ _ hrest)]
  · rintro ⟨rest, hafter, hrest⟩
    rcases exists_blanks_of_afterBlanks? hafter with ⟨blanks, hblanks, rfl⟩
    exact ⟨blanks, rest, hblanks, rfl, hrest⟩

theorem guard_eq_some {p : Prop} [Decidable p] {u : Unit} (h : (guard p : Option Unit) = some u) :
    p := by
  by_contra hp
  rw [guard, if_neg hp] at h
  cases h

theorem matches_group_run_cons {p : Char → Bool} {g : Group} {ps : List (Pattern Group)}
    {m : List Char} {gs : Captures Group} :
    (seqs (group g (run p) :: ps)).Matches m gs ↔
      ∃ word rest gs', (word ≠ [] ∧ ∀ c ∈ word, p c) ∧ m = word ++ rest ∧
        (seqs ps).Matches rest gs' ∧ gs = (g, word) :: gs' := by
  rw [matches_group_cons fun _ _ h => (matches_run.mp h).2]
  simp only [matches_run, and_true]

/-- A path and blanks after it are matched as they are read. -/
theorem matches_path {g : Group} {cs : List Char} {gs : Captures Group} :
    (seqs [group g (run Path.isPathChar), many isBlank]).Matches cs gs ↔
      ∃ path, path? cs = some path ∧ gs = [(g, path.toList)] := by
  rw [matches_group_run_cons]
  constructor
  · rintro ⟨word, blanks, _, hword, rfl, hmany, rfl⟩
    rcases matches_many_last.mp hmany with ⟨hblanks, rfl⟩
    have h := path?_append (isRun_ofList.mpr hword) (List.all_eq_true.mpr hblanks)
    rw [String.toList_ofList] at h
    exact ⟨String.ofList word, h, by rw [String.toList_ofList]⟩
  · rintro ⟨path, hpath, rfl⟩
    rw [path?, Option.bind_eq_bind, Option.bind_eq_some_iff] at hpath
    rcases hpath with ⟨⟨word, rest⟩, hrun, hguard⟩
    rcases Option.bind_eq_some_iff.mp hguard with ⟨_, hblanks, heq⟩
    cases heq
    rcases run?_eq_some hrun with ⟨hword, rfl⟩
    exact ⟨path.toList, rest, [], ⟨hword.toList_ne_nil, hword.2⟩, rfl,
      matches_many_last.mpr ⟨List.all_eq_true.mp (guard_eq_some hblanks), rfl⟩, rfl⟩

theorem beginsUnblank_of_matches_group {p : Char → Bool} (hp : ∀ c, p c → isBlank c = false)
    {g : Group} {ps : List (Pattern Group)} (m : List Char) (gs : Captures Group)
    (h : (seqs (group g (run p) :: ps)).Matches m gs) : BeginsUnblank m := by
  rcases matches_group_run_cons.mp h with ⟨word, rest, _, hword, rfl, -, -⟩
  exact beginsUnblank_append rest hword hp

/-! ## Loops -/

theorem beginsUnblank_literal_append {text : String} (h : BeginsUnblank text.toList)
    (hne : text.toList ≠ []) {ps : List (Pattern Group)} (m : List Char) (gs : Captures Group)
    (hm : (seqs (literal text :: ps)).Matches m gs) : BeginsUnblank m := by
  rcases matches_literal_cons.mp hm with ⟨rest, rfl, -⟩
  exact h.append hne rest

/-- The name of an index between blanks, after a comma. -/
theorem matches_indexPart {cs : List Char} {gs : Captures Group} :
    (seqs (indexPart ++ [many isBlank])).Matches cs gs ↔ ∃ before after other last,
      (∀ c ∈ before, isBlank c) ∧ (∀ c ∈ after, isBlank c) ∧
      (other ≠ [] ∧ ∀ c ∈ other, isWord c) ∧ (∀ c ∈ last, isBlank c) ∧
      cs = before ++ ',' :: (after ++ (other ++ last)) ∧ gs = [(.index, other)] := by
  simp only [indexPart, List.cons_append, List.nil_append, matches_many_cons, matches_literal_cons,
    matches_group_run_cons]
  constructor
  · rintro ⟨before, _, hbefore, rfl, _, rfl, after, _, hafter, rfl, other, _, _, hother, rfl,
      ⟨last, _, hlast, rfl, rfl, rfl⟩, rfl⟩
    rw [List.append_nil]
    exact ⟨before, after, other, last, hbefore, hafter, hother, hlast, rfl, rfl⟩
  · rintro ⟨before, after, other, last, hbefore, hafter, hother, hlast, rfl, rfl⟩
    exact ⟨before, _, hbefore, rfl, _, rfl, after, _, hafter, rfl, other, last, [], hother, rfl,
      ⟨last, [], hlast, (List.append_nil last).symm, rfl, rfl⟩, rfl⟩

theorem names?_item {item last : List Char} (hitem : item ≠ [] ∧ ∀ c ∈ item, isWord c)
    (hlast : ∀ c ∈ last, isBlank c) :
    names? (item ++ last) = some (String.ofList item, "") := by
  have hhead : ∀ c ∈ last.head?, isWord c = false :=
    fun c hc => isWord_of_isBlank (hlast c (List.mem_of_mem_head? hc))
  rw [names?, run?_ofList_append hitem hhead]
  simp only [Option.bind_eq_bind, Option.bind_some, List.dropWhile_eq_nil_iff.mpr hlast]
  rfl

theorem names?_index {item before after other last : List Char}
    (hitem : item ≠ [] ∧ ∀ c ∈ item, isWord c) (hbefore : ∀ c ∈ before, isBlank c)
    (hafter : ∀ c ∈ after, isBlank c) (hother : other ≠ [] ∧ ∀ c ∈ other, isWord c)
    (hlast : ∀ c ∈ last, isBlank c) :
    names? (item ++ (before ++ ',' :: (after ++ (other ++ last)))) =
      some (String.ofList item, String.ofList other) := by
  have hcomma : ∀ c ∈ (',' :: (after ++ (other ++ last))).head?, isWord c = false := by
    rintro _ ⟨⟩
    decide
  have hdrop : (before ++ ',' :: (after ++ (other ++ last))).dropWhile isBlank =
      ',' :: (after ++ (other ++ last)) := by
    refine dropWhile_isBlank_append hbefore ?_
    rintro _ ⟨⟩
    decide
  have hhead : ∀ c ∈ last.head?, isWord c = false :=
    fun c hc => isWord_of_isBlank (hlast c (List.mem_of_mem_head? hc))
  have hbegin := beginsUnblank_append last hother fun _ => isBlank_of_isWord
  rw [names?, run?_ofList_append hitem
    (head?_append_eq_false hbefore (fun _ => isWord_of_isBlank) hcomma)]
  simp only [Option.bind_eq_bind, Option.bind_some, hdrop]
  rw [dropWhile_isBlank_append hafter hbegin, run?_ofList_append hother hhead]
  have hblank : allBlank last := List.all_eq_true.mpr hlast
  simp [hblank]

/-- The names of a loop, and blanks after them, are matched as they are read. -/
theorem matches_names {cs : List Char} {gs : Captures Group} :
    (seqs [group .item (run isWord), maybe (seqs indexPart), many isBlank]).Matches cs gs ↔
      ∃ item index, names? cs = some (item, index) ∧
        gs = (.item, item.toList) :: if index = "" then [] else [(.index, index.toList)] := by
  simp only [matches_group_run_cons, matches_maybe_cons, matches_seqs_cons_seqs,
    matches_indexPart, matches_many_last]
  constructor
  · rintro ⟨item, _, _, hitem, rfl,
      ⟨before, after, other, last, hbefore, hafter, hother, hlast, rfl, rfl⟩ | ⟨hlast, rfl⟩, rfl⟩
    · have hne : String.ofList other ≠ "" := (isRun_ofList.mpr hother).1
      refine ⟨_, _, names?_index hitem hbefore hafter hother hlast, ?_⟩
      rw [if_neg hne, String.toList_ofList, String.toList_ofList]
    · refine ⟨_, _, names?_item hitem hlast, ?_⟩
      rw [if_pos rfl, String.toList_ofList]
  -- what is read is taken apart into the runs of blanks and word characters that the pattern has
  · rintro ⟨item, index, hnames, rfl⟩
    rw [names?, Option.bind_eq_bind, Option.bind_eq_some_iff] at hnames
    rcases hnames with ⟨⟨word, rest⟩, hrun, hnames⟩
    rcases run?_eq_some hrun with ⟨hword, rfl⟩
    have hrest := List.takeWhile_append_dropWhile (p := isBlank) (l := rest)
    have hblanks : ∀ c ∈ rest.takeWhile isBlank, isBlank c := fun c hc => List.mem_takeWhile_imp hc
    dsimp only at hnames
    split at hnames
    · next hdrop =>
      cases hnames
      rw [if_pos rfl]
      refine ⟨item.toList, rest, [], ⟨hword.toList_ne_nil, hword.2⟩, rfl, .inr ⟨?_, rfl⟩, rfl⟩
      exact List.dropWhile_eq_nil_iff.mp hdrop
    · next more hdrop =>
      rw [Option.bind_eq_bind, Option.bind_eq_some_iff] at hnames
      rcases hnames with ⟨⟨other, last⟩, hother, hnames⟩
      rcases Option.bind_eq_some_iff.mp hnames with ⟨_, hguard, hnames⟩
      cases hnames
      rcases run?_eq_some hother with ⟨hindex, hmore⟩
      have hafter := List.takeWhile_append_dropWhile (p := isBlank) (l := more)
      rw [if_neg hindex.1]
      refine ⟨item.toList, rest, _, ⟨hword.toList_ne_nil, hword.2⟩, rfl, .inl
        ⟨rest.takeWhile isBlank, more.takeWhile isBlank, other.toList, last, hblanks,
          fun c hc => List.mem_takeWhile_imp hc, ⟨hindex.toList_ne_nil, hindex.2⟩,
          List.all_eq_true.mp (guard_eq_some hguard), ?_, rfl⟩, rfl⟩
      rw [← hmore, hafter, ← hdrop, hrest]
    · cases hnames

theorem beginsUnblank_names {cs : List Char} {gs : Captures Group}
    (h : (seqs [group .item (run isWord), maybe (seqs indexPart), many isBlank]).Matches cs gs) :
    BeginsUnblank cs :=
  beginsUnblank_of_matches_group (fun _ => isBlank_of_isWord) cs gs h

/-- The collection of a loop is followed by blanks alone, or by what is read as its names. -/
theorem matches_loop {cs : List Char} {gs : Captures Group} :
    (seqs [group .collection (run Path.isPathChar), maybe (seqs itemPart),
      many isBlank]).Matches cs gs ↔
    ∃ word rest gs', (word ≠ [] ∧ ∀ c ∈ word, Path.isPathChar c) ∧ cs = word ++ rest ∧
      ((∃ item index, ((afterBlanks? rest).bind (after? "as")).bind names? = some (item, index) ∧
          gs' = (.item, item.toList) :: if index = "" then [] else [(.index, index.toList)]) ∨
        (∀ c ∈ rest, isBlank c) ∧ gs' = []) ∧
      gs = (.collection, word) :: gs' := by
  have has : BeginsUnblank "as".toList := by
    rintro _ ⟨⟩
    decide
  have hitem : ∀ rest gs', (seqs (itemPart ++ [many isBlank])).Matches rest gs' ↔
      ∃ item index, ((afterBlanks? rest).bind (after? "as")).bind names? = some (item, index) ∧
        gs' = (.item, item.toList) :: if index = "" then [] else [(.index, index.toList)] := by
    intro rest gs'
    simp only [itemPart, List.cons_append, List.nil_append]
    rw [matches_blanks (beginsUnblank_literal_append has (by decide))]
    simp only [matches_literal_cons,
      matches_blanks fun _ _ => beginsUnblank_names, matches_names, Option.bind_eq_some_iff,
      after?_eq_some_iff]
    constructor
    · rintro ⟨_, hblanks, more, rfl, _, hmore, item, index, hnames, rfl⟩
      exact ⟨item, index, ⟨_, ⟨_, hblanks, more, rfl, hmore⟩, hnames⟩, rfl⟩
    · rintro ⟨item, index, ⟨_, ⟨_, hblanks, more, rfl, hmore⟩, hnames⟩, rfl⟩
      exact ⟨_, hblanks, more, rfl, _, hmore, item, index, hnames, rfl⟩
  simp only [matches_group_run_cons, matches_maybe_cons, matches_seqs_cons_seqs, hitem,
    matches_many_last]

/-- The word between a collection and its names stands after blanks. -/
theorem begins_of_after? {rest names : List Char}
    (h : (afterBlanks? rest).bind (after? "as") = some names) :
    (∀ c ∈ rest.head?, Path.isPathChar c = false) ∧ ¬ allBlank rest := by
  rcases Option.bind_eq_some_iff.mp h with ⟨_, hblanks, hnames⟩
  rcases exists_blanks_of_afterBlanks? hblanks with ⟨blanks, hall, rfl⟩
  rcases after?_eq_some_iff.mp hnames with ⟨more, rfl, -⟩
  refine ⟨fun c hc => ?_, fun hblank => ?_⟩
  · rw [List.head?_append_of_ne_nil blanks hall.1] at hc
    exact isPathChar_of_isBlank (hall.2 c (List.mem_of_mem_head? hc))
  · have ha := List.all_eq_true.mp hblank 'a' (by simp)
    revert ha
    decide

theorem ofCaptures_loop (collection item : List Char) (index : String) :
    ofCaptures ((.collection, collection) :: (.item, item) ::
      if index = "" then [] else [(.index, index.toList)]) =
        some (eachOpen (String.ofList collection) (String.ofList item) index) := by
  by_cases hindex : index = ""
  · rw [if_pos hindex, hindex]
    rfl
  · rw [if_neg hindex]
    refine congrArg some (congrArg (eachOpen _ _) ?_)
    exact String.ofList_toList

/-- A loop is read as it is matched. -/
theorem each?_of_matches {cs : List Char} {gs : Captures Group}
    (h : (seqs [group .collection (run Path.isPathChar), maybe (seqs itemPart),
      many isBlank]).Matches cs gs) :
    ∃ tag, each? cs = some tag ∧ ofCaptures gs = some tag := by
  rcases matches_loop.mp h with
    ⟨word, rest, _, hword, rfl, ⟨item, index, hnames, rfl⟩ | ⟨hrest, rfl⟩, rfl⟩
  · refine ⟨_, ?_, ofCaptures_loop word item.toList index⟩
    rcases Option.bind_eq_some_iff.mp hnames with ⟨_, hafter, -⟩
    rcases begins_of_after? hafter with ⟨hhead, hnot⟩
    rw [each?, run?_ofList_append hword hhead]
    simp only [Option.bind_eq_bind, Option.bind_some, hnot, hnames, String.ofList_toList]
    rfl
  · have hhead : ∀ c ∈ rest.head?, Path.isPathChar c = false :=
      fun c hc => isPathChar_of_isBlank (hrest c (List.mem_of_mem_head? hc))
    have hblank : allBlank rest := List.all_eq_true.mpr hrest
    refine ⟨eachOpen (String.ofList word) defaultItem "", ?_, rfl⟩
    rw [each?, run?_ofList_append hword hhead]
    simp only [Option.bind_eq_bind, Option.bind_some, hblank]
    rfl

theorem matches_of_each? {cs : List Char} {tag : Tag} (h : each? cs = some tag) :
    ∃ gs, (seqs [group .collection (run Path.isPathChar), maybe (seqs itemPart),
      many isBlank]).Matches cs gs := by
  rw [each?, Option.bind_eq_bind, Option.bind_eq_some_iff] at h
  rcases h with ⟨⟨word, rest⟩, hrun, h⟩
  rcases run?_eq_some hrun with ⟨hword, rfl⟩
  dsimp only at h
  split at h
  · next hblank =>
    exact ⟨_, matches_loop.mpr ⟨word.toList, rest, [], ⟨hword.toList_ne_nil, hword.2⟩, rfl,
      .inr ⟨List.all_eq_true.mp hblank, rfl⟩, rfl⟩⟩
  · rcases Option.bind_eq_some_iff.mp h with ⟨⟨item, index⟩, hnames, -⟩
    exact ⟨_, matches_loop.mpr ⟨word.toList, rest, _, ⟨hword.toList_ne_nil, hword.2⟩, rfl,
      .inl ⟨item, index, hnames, rfl⟩, rfl⟩⟩

/-! ## Names of templates -/

theorem matches_quotedName {quote : String} {p : Char → Bool} {m : List Char}
    {gs : Captures Group} :
    (quotedName quote p).Matches m gs ↔
      ∃ inner, (∀ c ∈ inner, p c) ∧ m = quote.toList ++ (inner ++ quote.toList) ∧ gs = [] := by
  simp only [quotedName, matches_literal_cons, matches_many_cons]
  constructor
  · rintro ⟨_, rfl, inner, _, hinner, rfl, _, rfl, rfl, rfl⟩
    rw [List.append_nil]
    exact ⟨inner, hinner, rfl, rfl⟩
  · rintro ⟨inner, hinner, rfl, rfl⟩
    exact ⟨_, rfl, inner, _, hinner, rfl, [], (List.append_nil _).symm, rfl, rfl⟩

/-- The name that a form of embedding matches, with its quotes. -/
def IsRawName (raw : List Char) : Prop :=
  (∃ inner, (∀ c ∈ inner, (c != '"' && !isBrace c) = true) ∧ raw = '"' :: (inner ++ ['"'])) ∨
    (∃ inner, (∀ c ∈ inner, (c != '\'' && !isBrace c) = true) ∧ raw = '\'' :: (inner ++ ['\''])) ∨
    raw ≠ [] ∧ ∀ c ∈ raw, isNameChar c

theorem matches_name {cs : List Char} {gs : Captures Group} :
    (seqs [group .name rawName, many isBlank]).Matches cs gs ↔ ∃ raw blanks, IsRawName raw ∧
      (∀ c ∈ blanks, isBlank c) ∧ cs = raw ++ blanks ∧ gs = [(.name, raw)] := by
  have hraw : ∀ raw gs, rawName.Matches raw gs ↔ IsRawName raw ∧ gs = [] := by
    intro raw gs
    simp only [rawName, matches_alts, List.mem_cons, List.not_mem_nil, or_false, exists_eq_or_imp,
      exists_eq_left, matches_quotedName, matches_run]
    constructor
    · rintro (⟨inner, hinner, rfl, rfl⟩ | ⟨inner, hinner, rfl, rfl⟩ | ⟨hname, rfl⟩)
      · exact ⟨.inl ⟨inner, hinner, rfl⟩, rfl⟩
      · exact ⟨.inr (.inl ⟨inner, hinner, rfl⟩), rfl⟩
      · exact ⟨.inr (.inr hname), rfl⟩
    · rintro ⟨⟨inner, hinner, rfl⟩ | ⟨inner, hinner, rfl⟩ | hname, rfl⟩
      · exact .inl ⟨inner, hinner, rfl, rfl⟩
      · exact .inr (.inl ⟨inner, hinner, rfl, rfl⟩)
      · exact .inr (.inr ⟨hname, rfl⟩)
  rw [matches_group_cons fun _ _ h => ((hraw _ _).mp h).2]
  simp only [hraw, matches_many_last, and_true]
  constructor
  · rintro ⟨raw, blanks, _, hname, rfl, ⟨hblanks, rfl⟩, rfl⟩
    exact ⟨raw, blanks, hname, hblanks, rfl, rfl⟩
  · rintro ⟨raw, blanks, hname, hblanks, rfl, rfl⟩
    exact ⟨raw, blanks, [], hname, rfl, ⟨hblanks, rfl⟩, rfl⟩

theorem isNameChar_iff {c : Char} : isNameChar c ↔ isWord c ∨ c = '.' ∨ c = '/' ∨ c = '-' := by
  simp only [isNameChar, Bool.or_eq_true, beq_iff_eq, or_assoc]

theorem isBlank_of_isNameChar {c : Char} (h : isNameChar c) : isBlank c = false := by
  rcases isNameChar_iff.mp h with hword | rfl | rfl | rfl
  · exact isBlank_of_isWord hword
  · decide
  · decide
  · decide

theorem isBrace_of_isNameChar {c : Char} (h : isNameChar c) : isBrace c = false := by
  rcases isNameChar_iff.mp h with hword | rfl | rfl | rfl
  · exact isBrace_of_isWord hword
  · decide
  · decide
  · decide

theorem IsRawName.beginsUnblank_append {raw : List Char} (h : IsRawName raw) (rest : List Char) :
    BeginsUnblank (raw ++ rest) := by
  rcases h with ⟨inner, -, rfl⟩ | ⟨inner, -, rfl⟩ | hname
  · rintro _ ⟨⟩
    decide
  · rintro _ ⟨⟩
    decide
  · exact Tag.beginsUnblank_append rest hname fun _ => isBlank_of_isNameChar

/-- Between quotes stands what comes before the next of them. -/
theorem quoted_append {quote : Char} {inner : List Char} (rest : List Char)
    (hinner : ∀ c ∈ inner, (c != quote && !isBrace c) = true) :
    (inner ++ quote :: rest).takeWhile (· ≠ quote) = inner ∧
      (inner ++ quote :: rest).dropWhile (· ≠ quote) = quote :: rest := by
  refine run_append (fun c hc => ?_) ?_
  · have hne := hinner c hc
    rw [Bool.and_eq_true, bne_iff_ne] at hne
    exact decide_eq_true hne.1
  · rintro _ ⟨⟩
    simp

theorem unquote_quoted {quote : Char} (hquote : quote = '"' ∨ quote = '\'') (inner : List Char) :
    unquote (quote :: (inner ++ [quote])) = inner := by
  rw [unquote, List.getLast?_concat, if_pos ⟨rfl, hquote⟩, List.dropLast_concat]

/-- A name is read as it is matched, without its quotes. -/
theorem IsRawName.name?_append {raw blanks : List Char} (h : IsRawName raw)
    (hblanks : ∀ c ∈ blanks, isBlank c) :
    name? (raw ++ blanks) = some (String.ofList (unquote raw)) := by
  have hblank : allBlank blanks := List.all_eq_true.mpr hblanks
  rcases h with ⟨inner, hinner, rfl⟩ | ⟨inner, hinner, rfl⟩ | hname
  · rcases quoted_append blanks hinner with ⟨htake, hdrop⟩
    rw [unquote_quoted (.inl rfl), List.cons_append, List.append_assoc, List.singleton_append,
      name?]
    simp only [hdrop, htake, Option.bind_eq_bind, Option.bind_some, hblank]
    rfl
  · rcases quoted_append blanks hinner with ⟨htake, hdrop⟩
    rw [unquote_quoted (.inr rfl), List.cons_append, List.append_assoc, List.singleton_append,
      name?]
    simp only [hdrop, htake, Option.bind_eq_bind, Option.bind_some, hblank]
    rfl
  · have hhead : ∀ c ∈ blanks.head?, isNameChar c = false := fun c hc =>
      eq_false_of_disjoint (p := isNameChar) (fun _ => isBlank_of_isNameChar)
        (hblanks c (List.mem_of_mem_head? hc))
    have hrun := run?_ofList_append hname hhead
    -- a name without quotes does not begin with one
    rcases List.exists_cons_of_ne_nil hname.1 with ⟨c, word, rfl⟩
    have hc : c ≠ '"' ∧ c ≠ '\'' := by
      refine ⟨?_, ?_⟩
      all_goals
        rintro rfl
        exact absurd (hname.2 _ List.mem_cons_self) (by decide)
    have hunquote : unquote (c :: word) = c :: word :=
      if_neg fun h => h.2.elim hc.1 hc.2
    rw [List.cons_append] at hrun
    rw [hunquote, List.cons_append]
    unfold name?
    dsimp only
    split
    · next heq => exact (hc.1 (List.cons.inj heq).1).elim
    · next heq => exact (hc.2 (List.cons.inj heq).1).elim
    · rw [hrun]
      simp only [Option.bind_eq_bind, Option.bind_some, hblank]
      rfl

/-- Up to the next quote there is no quote, and where there are no braces, no brace. -/
theorem exists_quoted {quote : Char} {cs rest : List Char} {word : String} (hcs : Braceless cs)
    (h : (match cs.dropWhile (· ≠ quote) with
      | _ :: rest => some (String.ofList (cs.takeWhile (· ≠ quote)), rest)
      | [] => none) = some (word, rest)) :
    ∃ inner, (∀ c ∈ inner, (c != quote && !isBrace c) = true) ∧ cs = inner ++ quote :: rest := by
  have hfirst := List.head?_dropWhile_not (· ≠ quote) cs
  have hsplit := List.takeWhile_append_dropWhile (p := (· ≠ quote)) (l := cs)
  refine ⟨cs.takeWhile (· ≠ quote), fun c hc => ?_, ?_⟩
  · rw [Bool.and_eq_true, bne_iff_ne, hcs c ((List.takeWhile_sublist _).subset hc)]
    exact ⟨by simpa using List.mem_takeWhile_imp hc, rfl⟩
  · rcases hdrop : cs.dropWhile (· ≠ quote) with _ | ⟨d, more⟩
    · rw [hdrop] at h
      cases h
    · rw [hdrop] at h hfirst hsplit
      cases h
      obtain rfl : d = quote := by simpa using hfirst
      exact hsplit.symm

/-- What is read as a name is one, without its quotes. -/
theorem exists_rawName_of_name? {cs : List Char} {name : String} (hcs : Braceless cs)
    (h : name? cs = some name) :
    ∃ raw blanks, IsRawName raw ∧ (∀ c ∈ blanks, isBlank c) ∧ cs = raw ++ blanks := by
  unfold name? at h
  dsimp only at h
  split at h
  all_goals
    rcases Option.bind_eq_some_iff.mp h with ⟨⟨word, rest⟩, hread, hguard⟩
    rcases Option.bind_eq_some_iff.mp hguard with ⟨_, hblanks, hword⟩
    have hrest := List.all_eq_true.mp (guard_eq_some hblanks)
  · rcases exists_quoted (hcs.mono (List.subset_cons_self _ _)) hread with ⟨inner, hinner, rfl⟩
    refine ⟨'"' :: (inner ++ ['"']), rest, .inl ⟨inner, hinner, rfl⟩, hrest, ?_⟩
    rw [List.cons_append, List.append_assoc, List.singleton_append]
  · rcases exists_quoted (hcs.mono (List.subset_cons_self _ _)) hread with ⟨inner, hinner, rfl⟩
    refine ⟨'\'' :: (inner ++ ['\'']), rest, .inr (.inl ⟨inner, hinner, rfl⟩), hrest, ?_⟩
    rw [List.cons_append, List.append_assoc, List.singleton_append]
  · rcases run?_eq_some hread with ⟨hrun, rfl⟩
    exact ⟨word.toList, rest, .inr (.inr ⟨hrun.toList_ne_nil, hrun.2⟩), hrest, rfl⟩

/-! ## Bodies -/

/-- A form whose captures are what is read of the bodies that it matches. -/
def IsSound (form : List (Pattern Group)) : Prop :=
  ∀ body gs, (seqs form).Matches body gs → ∃ tag, ofBody? body = some tag ∧ ofCaptures gs = some tag

theorem isSound_valueForm : IsSound valueForm := by
  intro body gs h
  rcases matches_many_cons.mp h with ⟨blanks, rest, hblanks, rfl, hrest⟩
  have hbegin := beginsUnblank_of_matches_group (fun _ => Path.isBlank_of_isPathChar) _ _ hrest
  rcases matches_path.mp hrest with ⟨path, hpath, rfl⟩
  refine ⟨value path, ?_, ?_⟩
  · rw [ofBody?, dropWhile_isBlank_append hblanks hbegin, hpath]
    rfl
  · exact congrArg (some ∘ value) String.ofList_toList

/-- A group of one of two words. -/
theorem matches_group_words_cons {g : Group} {first second : String} {ps : List (Pattern Group)}
    {m : List Char} {gs : Captures Group} :
    (seqs (group g (alt (literal first) (literal second)) :: ps)).Matches m gs ↔
      ∃ word rest gs', (word = first ∨ word = second) ∧ m = word.toList ++ rest ∧
        (seqs ps).Matches rest gs' ∧ gs = (g, word.toList) :: gs' := by
  have hwords : ∀ word gs',
      (alt (literal first) (literal second) : Pattern Group).Matches word gs' ↔
        (word = first.toList ∨ word = second.toList) ∧ gs' = [] := by
    intro word gs'
    simp only [Matches, matches_literal, or_and_right]
  rw [matches_group_cons fun _ _ h => ((hwords _ _).mp h).2]
  simp only [hwords, and_true]
  constructor
  · rintro ⟨word, rest, gs', rfl | rfl, h⟩
    · exact ⟨first, rest, gs', .inl rfl, h⟩
    · exact ⟨second, rest, gs', .inr rfl, h⟩
  · rintro ⟨word, rest, gs', rfl | rfl, h⟩
    · exact ⟨word.toList, rest, gs', .inl rfl, h⟩
    · exact ⟨word.toList, rest, gs', .inr rfl, h⟩

/-- After blanks a path is matched as it is read. -/
theorem matches_blanks_path {g : Group} {cs : List Char} {gs : Captures Group} :
    (seqs [run isBlank, group g (run Path.isPathChar), many isBlank]).Matches cs gs ↔
      ∃ path, (afterBlanks? cs).bind path? = some path ∧ gs = [(g, path.toList)] := by
  rw [matches_blanks (beginsUnblank_of_matches_group fun _ => Path.isBlank_of_isPathChar)]
  simp only [matches_path, Option.bind_eq_some_iff]
  constructor
  · rintro ⟨rest, hafter, path, hpath, rfl⟩
    exact ⟨path, ⟨rest, hafter, hpath⟩, rfl⟩
  · rintro ⟨path, ⟨rest, hafter, hpath⟩, rfl⟩
    exact ⟨rest, hafter, path, hpath, rfl⟩

theorem isSound_rawForm : IsSound rawForm := by
  intro body gs h
  rcases matches_literal_cons.mp h with ⟨_, rfl, hwords⟩
  rcases matches_group_words_cons.mp hwords with ⟨kind, rest, _, hkind, rfl, hrest, rfl⟩
  rcases matches_blanks_path.mp hrest with ⟨path, hpath, rfl⟩
  rcases hkind with rfl | rfl
  · refine ⟨json path, ?_, congrArg (some ∘ json) String.ofList_toList⟩
    exact (ofBody?_json rest).trans (by rw [hpath]; rfl)
  · refine ⟨html path, ?_, congrArg (some ∘ html) String.ofList_toList⟩
    exact (ofBody?_html rest).trans (by rw [hpath]; rfl)

theorem isSound_eachForm : IsSound eachForm := by
  intro body gs h
  rcases matches_literal_cons.mp h with ⟨rest, rfl, hrest⟩
  rw [matches_blanks (beginsUnblank_of_matches_group fun _ => Path.isBlank_of_isPathChar)] at hrest
  rcases hrest with ⟨cs, hafter, hloop⟩
  rcases each?_of_matches hloop with ⟨tag, heach, htag⟩
  refine ⟨tag, ?_, htag⟩
  rw [ofBody?_each, hafter]
  exact heach

theorem beginsUnblank_of_matches_name {cs : List Char} {gs : Captures Group}
    (h : (seqs [group .name rawName, many isBlank]).Matches cs gs) : BeginsUnblank cs := by
  rcases matches_name.mp h with ⟨raw, blanks, hraw, -, rfl, -⟩
  exact hraw.beginsUnblank_append blanks

theorem isSound_embedForm : IsSound embedForm := by
  intro body gs h
  rcases matches_literal_cons.mp h with ⟨rest, rfl, hrest⟩
  rcases (matches_blanks fun _ _ => beginsUnblank_of_matches_name).mp hrest with
    ⟨cs, hafter, hname⟩
  rcases matches_name.mp hname with ⟨raw, blanks, hraw, hblanks, rfl, rfl⟩
  refine ⟨embed (String.ofList (unquote raw)), ?_, ?_⟩
  · rw [ofBody?_include, hafter, Option.bind_some, hraw.name?_append hblanks]
    rfl
  · change some (embed (String.ofList (unquote (String.ofList raw).toList))) = _
    rw [String.toList_ofList]

theorem isSound_elseForm : IsSound elseForm := by
  intro body gs h
  rcases matches_literal_cons.mp h with ⟨_, rfl, hrest⟩
  rw [matches_group_cons fun _ _ h => (matches_literal.mp h).2] at hrest
  rcases hrest with ⟨_, rest, _, hword, rfl, hmany, rfl⟩
  cases (matches_literal.mp hword).1
  rcases matches_many_last.mp hmany with ⟨hblanks, rfl⟩
  exact ⟨elseMark, ofBody?_else (List.all_eq_true.mpr hblanks), rfl⟩

theorem isSound_closeForm : IsSound closeForm := by
  intro body gs h
  rcases matches_literal_cons.mp h with ⟨_, rfl, hwords⟩
  rcases matches_group_words_cons.mp hwords with ⟨word, rest, _, hword, rfl, hmany, rfl⟩
  rcases matches_many_last.mp hmany with ⟨hblanks, rfl⟩
  rcases hword with rfl | rfl
  · exact ⟨close .cond, ofBody?_endIf (List.all_eq_true.mpr hblanks), rfl⟩
  · exact ⟨close .each, ofBody?_endEach (List.all_eq_true.mpr hblanks), rfl⟩

/-- A condition is read wherever its form matches, but it may be captured with more blanks. -/
theorem ofBody?_of_matches_ifForm {body : List Char} {gs : Captures Group}
    (h : (seqs ifForm).Matches body gs) : ∃ tag, ofBody? body = some tag := by
  rcases matches_literal_cons.mp h with ⟨_, rfl, hrest⟩
  rcases matches_run_cons.mp hrest with ⟨blanks, rest, hblanks, rfl, -⟩
  refine ⟨ifOpen (String.ofList (trimEnd (rest.dropWhile isBlank))), ?_⟩
  rw [ofBody?_if, afterBlanks?_append hblanks]
  rfl

theorem exists_matches_rawForm {kind path : String} {body : List Char}
    (hkind : kind = "json" ∨ kind = "html")
    (h : (after? ("@" ++ kind) body).bind path? = some path) :
    ∃ gs, (seqs rawForm).Matches body gs := by
  rcases Option.bind_eq_some_iff.mp h with ⟨cs, hafter, hpath⟩
  rcases after?_eq_some_iff.mp hafter with ⟨rest, rfl, hblanks⟩
  have hread : (afterBlanks? rest).bind path? = some path := by
    rw [hblanks]
    exact hpath
  rw [String.toList_append, List.append_assoc]
  exact ⟨_, matches_literal_cons.mpr ⟨_, rfl, matches_group_words_cons.mpr ⟨kind, rest, _, hkind,
    rfl, matches_blanks_path.mpr ⟨path, hread, rfl⟩, rfl⟩⟩⟩

theorem exists_matches_ifForm {body cs : List Char} (hbody : Braceless body)
    (h : after? "#if" body = some cs) : ∃ gs, (seqs ifForm).Matches body gs := by
  rcases after?_eq_some_iff.mp h with ⟨rest, rfl, hblanks⟩
  rcases exists_blanks_of_afterBlanks? hblanks with ⟨blanks, hall, rfl⟩
  have hcs : ∀ c ∈ cs, (!isBrace c) = true := by
    intro c hc
    rw [hbody c (List.mem_append_right _ (List.mem_append_right _ hc))]
    rfl
  have hcondition : (seqs [group .condition (few (!isBrace ·)), many isBlank]).Matches cs
      [(Group.condition, cs)] :=
    (matches_group_cons (q := few _) fun _ _ h => h.2).mpr ⟨cs, [], [], ⟨hcs, rfl⟩,
      (List.append_nil cs).symm, matches_many_last.mpr ⟨List.forall_mem_nil _, rfl⟩, rfl⟩
  exact ⟨_, matches_literal_cons.mpr ⟨_, rfl,
    matches_run_cons.mpr ⟨blanks, cs, hall, rfl, hcondition⟩⟩⟩

theorem exists_matches_eachForm {body : List Char} {tag : Tag}
    (h : (after? "#each" body).bind each? = some tag) : ∃ gs, (seqs eachForm).Matches body gs := by
  rcases Option.bind_eq_some_iff.mp h with ⟨cs, hafter, hread⟩
  rcases after?_eq_some_iff.mp hafter with ⟨rest, rfl, hblanks⟩
  rcases matches_of_each? hread with ⟨gs, hloop⟩
  refine ⟨gs, matches_literal_cons.mpr ⟨rest, rfl, ?_⟩⟩
  rw [matches_blanks (beginsUnblank_of_matches_group fun _ => Path.isBlank_of_isPathChar)]
  exact ⟨cs, hblanks, hloop⟩

theorem exists_matches_embedForm {body : List Char} {name : String} (hbody : Braceless body)
    (h : (after? "#include" body).bind name? = some name) :
    ∃ gs, (seqs embedForm).Matches body gs := by
  rcases Option.bind_eq_some_iff.mp h with ⟨cs, hafter, hname⟩
  rcases after?_eq_some_iff.mp hafter with ⟨rest, rfl, hblanks⟩
  have hcs : Braceless cs := hbody.mono (after?_eq_some hafter).2
  rcases exists_rawName_of_name? hcs hname with ⟨raw, blanks, hraw, hall, heq⟩
  exact ⟨_, matches_literal_cons.mpr ⟨rest, rfl,
    (matches_blanks fun _ _ => beginsUnblank_of_matches_name).mpr ⟨cs, hblanks,
      matches_name.mpr ⟨raw, blanks, hraw, hall, heq, rfl⟩⟩⟩⟩

theorem isAlone_iff {word : String} {body : List Char} :
    isAlone word body ↔ ∃ rest, body = word.toList ++ rest ∧ ∀ c ∈ rest, isBlank c := by
  rw [isAlone, Option.any_eq_true]
  refine exists_congr fun rest => ?_
  rw [List.isPrefixOf?_eq_some_iff_append_eq, eq_comm, allBlank, List.all_eq_true]

theorem exists_matches_elseForm {body : List Char} (h : isAlone ":else" body) :
    ∃ gs, (seqs elseForm).Matches body gs := by
  rcases isAlone_iff.mp h with ⟨rest, rfl, hrest⟩
  have hword : (seqs [group .elseMark (literal "else"), many isBlank]).Matches
      ("else".toList ++ rest) [(Group.elseMark, "else".toList)] :=
    (matches_group_cons fun _ _ h => (matches_literal.mp h).2).mpr ⟨"else".toList, rest, [],
      matches_literal.mpr ⟨rfl, rfl⟩, rfl, matches_many_last.mpr ⟨hrest, rfl⟩, rfl⟩
  exact ⟨_, matches_literal_cons.mpr ⟨"else".toList ++ rest, rfl, hword⟩⟩

theorem exists_matches_closeForm {word : String} {body : List Char}
    (hword : word = "if" ∨ word = "each") (h : isAlone ("/" ++ word) body) :
    ∃ gs, (seqs closeForm).Matches body gs := by
  rcases isAlone_iff.mp h with ⟨rest, rfl, hrest⟩
  rw [String.toList_append, List.append_assoc]
  exact ⟨_, matches_literal_cons.mpr ⟨_, rfl, matches_group_words_cons.mpr ⟨word, rest, _, hword,
    rfl, matches_many_last.mpr ⟨hrest, rfl⟩, rfl⟩⟩⟩

/-- Where a body is read as a tag, one of the forms matches it. -/
theorem exists_form_of_ofBody? {body : List Char} {tag : Tag} (hbody : Braceless body)
    (h : ofBody? body = some tag) : ∃ form ∈ forms, ∃ gs, (seqs form).Matches body gs := by
  rw [ofBody?] at h
  rcases eq_some_of_orElse h with hvalue | h
  · rcases Option.map_eq_some_iff.mp hvalue with ⟨path, hpath, -⟩
    refine ⟨valueForm, by simp [forms], _, matches_many_cons.mpr ⟨body.takeWhile isBlank, _,
      fun c hc => List.mem_takeWhile_imp hc, List.takeWhile_append_dropWhile.symm,
      matches_path.mpr ⟨path, hpath, rfl⟩⟩⟩
  rcases eq_some_of_orElse h with hjson | h
  · rcases Option.map_eq_some_iff.mp hjson with ⟨path, hread, -⟩
    exact ⟨rawForm, by simp [forms], exists_matches_rawForm (.inl rfl) hread⟩
  rcases eq_some_of_orElse h with hhtml | h
  · rcases Option.map_eq_some_iff.mp hhtml with ⟨path, hread, -⟩
    exact ⟨rawForm, by simp [forms], exists_matches_rawForm (.inr rfl) hread⟩
  rcases eq_some_of_orElse h with hif | h
  · rcases Option.map_eq_some_iff.mp hif with ⟨cs, hafter, -⟩
    exact ⟨ifForm, by simp [forms], exists_matches_ifForm hbody hafter⟩
  rcases eq_some_of_orElse h with heach | h
  · exact ⟨eachForm, by simp [forms], exists_matches_eachForm heach⟩
  rcases eq_some_of_orElse h with hembed | h
  · rcases Option.map_eq_some_iff.mp hembed with ⟨name, hread, -⟩
    exact ⟨embedForm, by simp [forms], exists_matches_embedForm hbody hread⟩
  rcases eq_some_of_orElse h with helse | h
  · split at helse
    · next halone => exact ⟨elseForm, by simp [forms], exists_matches_elseForm halone⟩
    · cases helse
  rcases eq_some_of_orElse h with hend | hend
  · split at hend
    · next halone => exact ⟨closeForm, by simp [forms], exists_matches_closeForm (.inl rfl) halone⟩
    · cases hend
  · split at hend
    · next halone => exact ⟨closeForm, by simp [forms], exists_matches_closeForm (.inr rfl) halone⟩
    · cases hend

/-- No form matches a text with a brace. -/
theorem braceless_of_matches {form : List (Pattern Group)} (hform : form ∈ forms)
    {body : List Char} {gs : Captures Group} (h : (seqs form).Matches body gs) :
    Braceless body := by
  have hne : ∀ c, isBrace c = false → ¬ c = '\x7b' ∧ ¬ c = '\x7d' := by
    intro c hc
    simpa [isBrace] using hc
  have hblank := fun c h => hne c (isBrace_of_isBlank h)
  have hpath := fun c h => hne c (isBrace_of_isPathChar h)
  have hword := fun c h => hne c (isBrace_of_isWord h)
  have hname := fun c h => hne c (isBrace_of_isNameChar h)
  refine h.over ?_
  simp only [forms, List.mem_cons, List.not_mem_nil, or_false] at hform
  rcases hform with rfl | rfl | rfl | rfl | rfl | rfl | rfl <;>
    simp +contextual [valueForm, rawForm, ifForm, eachForm, itemPart, indexPart, embedForm,
      rawName, quotedName, elseForm, closeForm, over_seqs, over_literal, Over, run, maybe, alts,
      hblank, hpath, hword, hname, isBrace]

/-! ## The pattern and the reader -/

theorem matches_braced {form : List (Pattern Group)} {m : List Char} {gs : Captures Group} :
    (braced form).Matches m gs ↔ ∃ body, m = wrap body ∧ (seqs form).Matches body gs := by
  rw [braced, matches_literal_cons]
  constructor
  · rintro ⟨_, rfl, h⟩
    rcases matches_seqs_append.mp h with ⟨body, gs₁, _, _, hbody, hclose, rfl, rfl⟩
    rcases matches_literal_cons.mp hclose with ⟨_, rfl, rfl, rfl⟩
    rw [List.append_nil gs₁]
    exact ⟨body, rfl, hbody⟩
  · rintro ⟨body, rfl, hbody⟩
    refine ⟨body ++ ['\x7d'], rfl, matches_seqs_append.mpr ⟨body, gs, ['\x7d'], [], hbody, ?_, rfl,
      (List.append_nil gs).symm⟩⟩
    exact matches_literal_cons.mpr ⟨[], rfl, rfl, rfl⟩

/-- A body that a form matches is read as a tag. -/
theorem ofBody?_of_matches {form : List (Pattern Group)} (hform : form ∈ forms) {body : List Char}
    {gs : Captures Group} (h : (seqs form).Matches body gs) : ∃ tag, ofBody? body = some tag := by
  have hsound : ∀ {form}, IsSound form → (seqs form).Matches body gs →
      ∃ tag, ofBody? body = some tag :=
    fun hsound h => (hsound body gs h).imp fun _ => And.left
  simp only [forms, List.mem_cons, List.not_mem_nil, or_false] at hform
  rcases hform with rfl | rfl | rfl | rfl | rfl | rfl | rfl
  · exact hsound isSound_valueForm h
  · exact hsound isSound_rawForm h
  · exact ofBody?_of_matches_ifForm h
  · exact hsound isSound_eachForm h
  · exact hsound isSound_embedForm h
  · exact hsound isSound_elseForm h
  · exact hsound isSound_closeForm h

/-- The pattern matches the texts between braces that are read as tags, and no others. -/
theorem matches_pattern_iff {m : List Char} :
    (∃ gs, pattern.Matches m gs) ↔
      ∃ body tag, m = wrap body ∧ Braceless body ∧ ofBody? body = some tag := by
  have hforms : ∀ gs, pattern.Matches m gs ↔ ∃ form ∈ forms, (braced form).Matches m gs := by
    intro gs
    rw [pattern, matches_alts]
    simp only [List.mem_map, exists_exists_and_eq_and]
  simp only [hforms, matches_braced]
  constructor
  · rintro ⟨gs, form, hform, body, rfl, h⟩
    rcases ofBody?_of_matches hform h with ⟨tag, htag⟩
    exact ⟨body, tag, rfl, braceless_of_matches hform h, htag⟩
  · rintro ⟨body, tag, rfl, hbody, htag⟩
    rcases exists_form_of_ofBody? hbody htag with ⟨form, hform, gs, h⟩
    exact ⟨gs, form, hform, body, rfl, h⟩

end Curly.Tag
