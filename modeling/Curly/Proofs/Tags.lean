import Curly.Proofs.Paths
import Curly.Template.Tag
import Mathlib.Data.Option.Basic

/-!
# Tags and what is written for them

`Tag.print` writes a tag in its usual form. A tag is normal if its arguments can be written
(`Tag.IsNormal`). The body that is printed for a normal tag is read as that tag
(`Tag.ofBody?_body`), and only normal tags are read, in whatever form they are written
(`Tag.isNormal_of_ofBody?`).
-/

namespace Curly

/-! ## Classes of characters -/

namespace Text

/-- The code points of the blank characters. -/
def blanks : List Nat :=
  [0x09, 0x0A, 0x0B, 0x0C, 0x0D, 0x1C, 0x1D, 0x1E, 0x1F, 0x20, 0x85, 0xA0, 0x1680, 0x2000, 0x2001,
   0x2002, 0x2003, 0x2004, 0x2005, 0x2006, 0x2007, 0x2008, 0x2009, 0x200A, 0x2028, 0x2029, 0x202F,
   0x205F, 0x3000]

theorem mem_blanks_of_isBlank {c : Char} (h : isBlank c) : c.toNat ∈ blanks := by
  simp only [isBlank, Bool.or_eq_true, Bool.and_eq_true, decide_eq_true_eq, beq_iff_eq] at h
  simp only [blanks, List.mem_cons, List.not_mem_nil, or_false]
  omega

/-- No word has a blank in it, in any script. -/
theorem isBlank_of_isWord {c : Char} (h : isWord c) : isBlank c = false := by
  have hbeyond : ∀ n ∈ blanks, 0x80 ≤ n → inside n wordBoundaries = false := by
    decide +kernel
  by_cases hascii : c.toNat < 0x80
  · refine Path.isBlank_of_isPathChar ?_
    rw [isWord, if_pos hascii] at h
    rw [Path.isPathChar, h, Bool.true_or]
  · rw [isWord, if_neg hascii] at h
    refine Bool.eq_false_iff.mpr fun hblank => ?_
    rw [hbeyond _ (mem_blanks_of_isBlank hblank) (Nat.le_of_not_lt hascii)] at h
    cases h

theorem isBrace_of_isPathChar {c : Char} (h : Path.isPathChar c) : Tag.isBrace c = false := by
  refine Bool.eq_false_iff.mpr fun hbrace => ?_
  have hrange := Path.toNat_of_isPathChar h
  rw [Tag.isBrace, Bool.or_eq_true, beq_iff_eq, beq_iff_eq] at hbrace
  rcases hbrace with rfl | rfl
  · revert hrange
    decide
  · revert hrange
    decide

theorem isBrace_of_isWord {c : Char} (h : isWord c) : Tag.isBrace c = false := by
  refine Bool.eq_false_iff.mpr fun hbrace => ?_
  rw [Tag.isBrace, Bool.or_eq_true, beq_iff_eq, beq_iff_eq] at hbrace
  rcases hbrace with rfl | rfl
  · revert h
    decide
  · revert h
    decide

/-- A run of characters of a class ends where a character of another kind comes. -/
theorem run_append {p : Char → Bool} {run rest : List Char} (hrun : ∀ c ∈ run, p c)
    (hrest : ∀ c ∈ rest.head?, p c = false) :
    (run ++ rest).takeWhile p = run ∧ (run ++ rest).dropWhile p = rest := by
  rw [List.takeWhile_append_of_pos hrun, List.dropWhile_append_of_pos hrun]
  cases rest with
  | nil => exact ⟨List.append_nil run, rfl⟩
  | cons c rest =>
    have hc : ¬ p c = true := Bool.eq_false_iff.mp (hrest c rfl)
    rw [List.takeWhile_cons_of_neg hc, List.dropWhile_cons_of_neg hc, List.append_nil]
    exact ⟨rfl, rfl⟩

/-- A word of characters of a class, not empty. -/
def IsRun (p : Char → Bool) (word : String) : Prop := word ≠ "" ∧ ∀ c ∈ word.toList, p c

theorem IsRun.toList_ne_nil {p : Char → Bool} {word : String} (h : IsRun p word) :
    word.toList ≠ [] :=
  mt String.toList_eq_nil_iff.mp h.1

theorem IsRun.beginsUnblank {p : Char → Bool} {word : String} (h : IsRun p word)
    (hp : ∀ c, p c → isBlank c = false) : BeginsUnblank word.toList :=
  fun c hc => hp c (h.2 c (List.mem_of_mem_head? hc))

theorem IsRun.endsUnblank {p : Char → Bool} {word : String} (h : IsRun p word)
    (hp : ∀ c, p c → isBlank c = false) : EndsUnblank word.toList :=
  fun c hc => hp c (h.2 c (List.mem_of_getLast? hc))

theorem IsRun.trim_eq_self {p : Char → Bool} {word : String} (h : IsRun p word)
    (hp : ∀ c, p c → isBlank c = false) : trim word.toList = word.toList :=
  Text.trim_eq_self (h.beginsUnblank hp) (h.endsUnblank hp)

/-- A text without braces. -/
def Braceless (cs : List Char) : Prop := ∀ c ∈ cs, Tag.isBrace c = false

theorem IsRun.braceless {p : Char → Bool} {word : String} (h : IsRun p word)
    (hp : ∀ c, p c → Tag.isBrace c = false) : Braceless word.toList :=
  fun c hc => hp c (h.2 c hc)

theorem Braceless.append {front back : List Char} (hfront : Braceless front)
    (hback : Braceless back) : Braceless (front ++ back) := by
  intro c hc
  rcases List.mem_append.mp hc with hc | hc
  · exact hfront c hc
  · exact hback c hc

theorem Braceless.cons {c : Char} {cs : List Char} (hc : Tag.isBrace c = false)
    (hcs : Braceless cs) : Braceless (c :: cs) := by
  intro d hd
  rcases List.mem_cons.mp hd with rfl | hd
  · exact hc
  · exact hcs d hd

theorem Braceless.mono {cs part : List Char} (h : Braceless cs) (hpart : part ⊆ cs) :
    Braceless part :=
  fun c hc => h c (hpart hc)

end Text

namespace Tag

/-! ## Runs and paths -/

open Text

theorem run?_append {p : Char → Bool} {word : String} {rest : List Char} (hword : IsRun p word)
    (hrest : ∀ c ∈ rest.head?, p c = false) :
    run? p (word.toList ++ rest) = some (word, rest) := by
  rcases run_append hword.2 hrest with ⟨htake, hdrop⟩
  rw [run?, htake, hdrop]
  exact (if_neg hword.toList_ne_nil).trans (by rw [String.ofList_toList])

theorem run?_eq_some {p : Char → Bool} {cs rest : List Char} {word : String}
    (h : run? p cs = some (word, rest)) : IsRun p word ∧ cs = word.toList ++ rest := by
  rw [run?] at h
  by_cases hnil : cs.takeWhile p = []
  · rw [if_pos hnil] at h
    cases h
  · rw [if_neg hnil] at h
    cases h
    rw [IsRun, String.toList_ofList, List.takeWhile_append_dropWhile]
    refine ⟨⟨?_, fun c hc => List.mem_takeWhile_imp hc⟩, rfl⟩
    intro hempty
    exact hnil (by rw [← String.toList_ofList (l := cs.takeWhile p), hempty]; rfl)

/-- A path, which may have blanks after it. -/
theorem path?_append {path : String} {rest : List Char} (hpath : IsRun Path.isPathChar path)
    (hrest : allBlank rest) : path? (path.toList ++ rest) = some path := by
  have hhead : ∀ c ∈ rest.head?, Path.isPathChar c = false := by
    intro c hc
    refine Bool.eq_false_iff.mpr fun hchar => ?_
    have hblank := List.all_eq_true.mp hrest c (List.mem_of_mem_head? hc)
    rw [Path.isBlank_of_isPathChar hchar] at hblank
    cases hblank
  rw [path?, run?_append hpath hhead]
  change (guard (allBlank rest = true) : Option Unit).bind _ = _
  rw [guard, if_pos hrest]
  rfl

theorem path?_eq_some {cs : List Char} {path : String} (h : path? cs = some path) :
    IsRun Path.isPathChar path := by
  rw [path?, Option.bind_eq_bind, Option.bind_eq_some_iff] at h
  rcases h with ⟨⟨word, rest⟩, hrun, h⟩
  rw [Option.bind_eq_bind, Option.bind_eq_some_iff] at h
  rcases h with ⟨_, -, hword⟩
  cases hword
  exact (run?_eq_some hrun).1

/-! ## Loops -/

/-- What is written after the name of a loop's item for the name of its index. -/
def indexClause (index : String) : List Char :=
  if index = "" then [] else ',' :: ' ' :: index.toList

theorem names?_append {item index : String} (hitem : IsRun isWord item)
    (hindex : index = "" ∨ IsRun isWord index) :
    names? (item.toList ++ indexClause index) = some (item, index) := by
  rcases hindex with rfl | hindex
  · have hrun : run? isWord (item.toList ++ indexClause "") = some (item, []) :=
      run?_append hitem fun _ hc => nomatch hc
    rw [names?, hrun]
    rfl
  · have hclause : indexClause index = ',' :: ' ' :: index.toList := if_neg hindex.1
    have hrun : run? isWord (item.toList ++ ',' :: ' ' :: index.toList) =
        some (item, ',' :: ' ' :: index.toList) := by
      refine run?_append hitem ?_
      rintro _ ⟨⟩
      decide
    have hother : run? isWord ((' ' :: index.toList).dropWhile isBlank) = some (index, []) := by
      have hbegin := hindex.beginsUnblank fun _ => isBlank_of_isWord
      rw [List.dropWhile_cons_of_pos (by decide), dropWhile_isBlank_eq_self hbegin,
        ← List.append_nil index.toList]
      exact run?_append hindex fun _ hc => nomatch hc
    rw [names?, hclause, hrun]
    change (run? isWord ((' ' :: index.toList).dropWhile isBlank)).bind _ = _
    rw [hother]
    rfl

theorem names?_eq_some {cs : List Char} {item index : String} (h : names? cs = some (item, index)) :
    IsRun isWord item ∧ (index = "" ∨ IsRun isWord index) := by
  rw [names?, Option.bind_eq_bind, Option.bind_eq_some_iff] at h
  rcases h with ⟨⟨word, rest⟩, hrun, h⟩
  dsimp only at h
  split at h
  · cases h
    exact ⟨(run?_eq_some hrun).1, .inl rfl⟩
  · rw [Option.bind_eq_bind, Option.bind_eq_some_iff] at h
    rcases h with ⟨⟨other, after⟩, hother, h⟩
    rcases Option.bind_eq_some_iff.mp h with ⟨_, -, hwords⟩
    cases hwords
    exact ⟨(run?_eq_some hrun).1, .inr (run?_eq_some hother).1⟩
  · cases h

/-! ## Names of templates -/

/-- The quote that is put around a name: one that is not in it, if there is one. -/
def quoteFor (name : String) : Char := if '"' ∈ name.toList then '\'' else '"'

theorem quoteFor_not_mem {name : String} :
    quoteFor name ∉ name.toList ↔ '"' ∉ name.toList ∨ '\'' ∉ name.toList := by
  by_cases hdouble : '"' ∈ name.toList
  · rw [quoteFor, if_pos hdouble]
    simp [hdouble]
  · rw [quoteFor, if_neg hdouble]
    simp [hdouble]

theorem name?_quoted {name : String} (h : quoteFor name ∉ name.toList) :
    name? (quoteFor name :: (name.toList ++ [quoteFor name])) = some name := by
  generalize hquote : quoteFor name = quote at h
  have hother : ∀ c ∈ name.toList, decide (c ≠ quote) = true := by
    intro c hc
    refine decide_eq_true ?_
    rintro rfl
    exact h hc
  have hstop : ∀ c ∈ [quote].head?, decide (c ≠ quote) = false := by
    rintro _ ⟨⟩
    simp
  rcases run_append hother hstop with ⟨htake, hdrop⟩
  have hcases : quote = '"' ∨ quote = '\'' := by
    rw [← hquote, quoteFor]
    by_cases hdouble : '"' ∈ name.toList
    · exact .inr (if_pos hdouble)
    · exact .inl (if_neg hdouble)
  rcases hcases with rfl | rfl
  all_goals
    rw [name?]
    dsimp only
    rw [hdrop, htake, String.ofList_toList]
    rfl

theorem name?_eq_some {cs : List Char} {name : String} (h : name? cs = some name) :
    name.toList ⊆ cs ∧ ('"' ∉ name.toList ∨ '\'' ∉ name.toList) := by
  -- what stands between two quotes of a kind has no such quote in it
  have hquoted : ∀ (quote : Char) (inner : List Char),
      inner.takeWhile (· ≠ quote) ⊆ quote :: inner ∧ quote ∉ inner.takeWhile (· ≠ quote) := by
    intro quote inner
    refine ⟨fun c hc => List.mem_cons_of_mem _ ((List.takeWhile_sublist _).subset hc), ?_⟩
    intro hmem
    simpa using List.mem_takeWhile_imp hmem
  unfold name? at h
  dsimp only at h
  split at h
  all_goals
    rcases Option.bind_eq_some_iff.mp h with ⟨⟨word, rest⟩, hread, hguard⟩
    rcases Option.bind_eq_some_iff.mp hguard with ⟨_, -, hword⟩
    cases hword
  · split at hread
    · cases hread
      rw [String.toList_ofList]
      exact ⟨(hquoted '"' _).1, .inl (hquoted '"' _).2⟩
    · cases hread
  · split at hread
    · cases hread
      rw [String.toList_ofList]
      exact ⟨(hquoted '\'' _).1, .inr (hquoted '\'' _).2⟩
    · cases hread
  · rcases run?_eq_some hread with ⟨hrun, hcs⟩
    refine ⟨fun c hc => hcs ▸ List.mem_append_left _ hc, .inl fun hmem => ?_⟩
    have hchar : isNameChar '"' := hrun.2 '"' hmem
    revert hchar
    decide

/-! ## After blanks -/

theorem afterBlanks?_eq_some {cs rest : List Char} (h : afterBlanks? cs = some rest) :
    BeginsUnblank rest ∧ rest ⊆ cs := by
  cases cs with
  | nil => cases h
  | cons c cs =>
    rw [afterBlanks?] at h
    by_cases hc : isBlank c
    · rw [if_pos hc] at h
      cases h
      exact ⟨beginsUnblank_dropWhile cs,
        fun d hd => List.mem_cons_of_mem c ((List.dropWhile_sublist _).subset hd)⟩
    · rw [if_neg hc] at h
      cases h

theorem after?_eq_some {word : String} {body cs : List Char} (h : after? word body = some cs) :
    BeginsUnblank cs ∧ cs ⊆ body := by
  rw [after?, Option.bind_eq_some_iff] at h
  rcases h with ⟨rest, hword, hrest⟩
  rcases afterBlanks?_eq_some hrest with ⟨hbegin, hsub⟩
  refine ⟨hbegin, fun c hc => ?_⟩
  rw [← List.append_eq_of_isPrefixOf?_eq_some hword]
  exact List.mem_append_right _ (hsub hc)

theorem each?_append {collection item index : String}
    (hcollection : IsRun Path.isPathChar collection) (hitem : IsRun isWord item)
    (hindex : index = "" ∨ IsRun isWord index) :
    each? (collection.toList ++ ' ' :: ("as".toList ++ ' ' :: (item.toList ++ indexClause index))) =
      some (eachOpen collection item index) := by
  have hrun : run? Path.isPathChar
      (collection.toList ++ ' ' :: ("as".toList ++ ' ' :: (item.toList ++ indexClause index))) =
        some (collection, ' ' :: ("as".toList ++ ' ' :: (item.toList ++ indexClause index))) := by
    refine run?_append hcollection ?_
    rintro _ ⟨⟩
    decide
  have hbegin : BeginsUnblank (item.toList ++ indexClause index) :=
    (hitem.beginsUnblank fun _ => isBlank_of_isWord).append hitem.toList_ne_nil _
  have hafter : (afterBlanks? (' ' :: ("as".toList ++ ' ' :: (item.toList ++ indexClause index)))).bind
      (after? "as") = some (item.toList ++ indexClause index) := by
    change some ((item.toList ++ indexClause index).dropWhile isBlank) = _
    rw [dropWhile_isBlank_eq_self hbegin]
  rw [each?, hrun]
  change ((afterBlanks? _).bind (after? "as")).bind names? >>= _ = _
  rw [hafter, Option.bind_some, names?_append hitem hindex]
  rfl

theorem each?_eq_some {cs : List Char} {tag : Tag} (h : each? cs = some tag) :
    ∃ collection item index, tag = eachOpen collection item index ∧
      IsRun Path.isPathChar collection ∧ IsRun isWord item ∧
      (index = "" ∨ IsRun isWord index) := by
  rw [each?, Option.bind_eq_bind, Option.bind_eq_some_iff] at h
  rcases h with ⟨⟨collection, rest⟩, hrun, h⟩
  dsimp only at h
  split at h
  · cases h
    refine ⟨collection, defaultItem, "", rfl, (run?_eq_some hrun).1, ?_, .inl rfl⟩
    have hword : defaultItem.toList.all isWord = true := by decide
    exact ⟨by decide, List.all_eq_true.mp hword⟩
  · rcases Option.bind_eq_some_iff.mp h with ⟨⟨item, index⟩, hnames, htag⟩
    cases htag
    rcases Option.bind_eq_some_iff.mp hnames with ⟨_, -, hnames⟩
    exact ⟨collection, item, index, rfl, (run?_eq_some hrun).1, names?_eq_some hnames⟩

/-! ## Bodies

The first characters of a body tell which form it has, so the other forms are not read. -/

theorem afterBlanks?_space {cs : List Char} (h : BeginsUnblank cs) :
    afterBlanks? (' ' :: cs) = some cs := by
  change some (cs.dropWhile isBlank) = _
  rw [dropWhile_isBlank_eq_self h]

theorem orElse_none (result : Option Tag) : (result <|> none) = result := by
  cases result with
  | none => rfl
  | some tag => rfl

theorem ofBody?_json (rest : List Char) :
    ofBody? ("@json".toList ++ rest) = ((afterBlanks? rest).bind path?).map json := by
  change (((afterBlanks? rest).bind path?).map json <|> none) = _
  exact orElse_none _

theorem ofBody?_html (rest : List Char) :
    ofBody? ("@html".toList ++ rest) = ((afterBlanks? rest).bind path?).map html := by
  change (((afterBlanks? rest).bind path?).map html <|> none) = _
  exact orElse_none _

theorem ofBody?_if (rest : List Char) : ofBody? ("#if".toList ++ rest) =
    (afterBlanks? rest).map fun cs => ifOpen (String.ofList (trimEnd cs)) := by
  change ((afterBlanks? rest).map _ <|> none) = _
  exact orElse_none _

theorem ofBody?_each (rest : List Char) :
    ofBody? ("#each".toList ++ rest) = (afterBlanks? rest).bind each? := by
  change ((afterBlanks? rest).bind each? <|> none) = _
  exact orElse_none _

theorem ofBody?_include (rest : List Char) :
    ofBody? ("#include".toList ++ rest) = ((afterBlanks? rest).bind name?).map embed := by
  change (((afterBlanks? rest).bind name?).map embed <|> none) = _
  exact orElse_none _

theorem ofBody?_else {rest : List Char} (h : allBlank rest) :
    ofBody? (":else".toList ++ rest) = some elseMark := by
  change ((if allBlank rest then some elseMark else none) <|> none) = _
  rw [if_pos h]
  rfl

theorem ofBody?_endIf {rest : List Char} (h : allBlank rest) :
    ofBody? ("/if".toList ++ rest) = some (close .cond) := by
  change ((if allBlank rest then some (close .cond) else none) <|> none) = _
  rw [if_pos h]
  rfl

theorem ofBody?_endEach {rest : List Char} (h : allBlank rest) :
    ofBody? ("/each".toList ++ rest) = some (close .each) := by
  change (if allBlank rest then some (close .each) else none) = _
  rw [if_pos h]

/-! ## Normal tags -/

/-- What stands between the braces of a tag in its usual form. -/
def body : Tag → List Char
  | value path => ' ' :: (path.toList ++ [' '])
  | json path => "@json".toList ++ ' ' :: path.toList
  | html path => "@html".toList ++ ' ' :: path.toList
  | ifOpen condition => "#if".toList ++ ' ' :: condition.toList
  | eachOpen collection item index => "#each".toList ++ ' ' :: (collection.toList ++
      ' ' :: ("as".toList ++ ' ' :: (item.toList ++ indexClause index)))
  | embed name =>
    "#include".toList ++ ' ' :: quoteFor name :: (name.toList ++ [quoteFor name])
  | elseMark => ":else".toList
  | close kind => '/' :: kind.word.toList

/-- The text of a tag in its usual form. -/
def print (tag : Tag) : String := String.ofList (wrap tag.body)

/-- A text that can be written as a condition: it has no braces, and no blanks at its ends. -/
structure IsConditionText (text : String) : Prop where
  braceless : Braceless text.toList
  begins : BeginsUnblank text.toList
  ends : EndsUnblank text.toList

/-- A tag whose arguments can be written. -/
def IsNormal : Tag → Prop
  | value path | json path | html path => IsRun Path.isPathChar path
  | ifOpen condition => IsConditionText condition
  | eachOpen collection item index =>
    IsRun Path.isPathChar collection ∧ IsRun isWord item ∧ (index = "" ∨ IsRun isWord index)
  | embed name => Braceless name.toList ∧ ('"' ∉ name.toList ∨ '\'' ∉ name.toList)
  | elseMark | close _ => True

/-- What is printed for a normal tag is read as that tag. -/
theorem ofBody?_body {tag : Tag} (h : tag.IsNormal) : ofBody? tag.body = some tag := by
  have hpathBegin : ∀ {path : String}, IsRun Path.isPathChar path → BeginsUnblank path.toList :=
    fun h => h.beginsUnblank fun _ => Path.isBlank_of_isPathChar
  have hpathAlone : ∀ {path : String}, IsRun Path.isPathChar path →
      path? path.toList = some path := by
    intro path hpath
    rw [← List.append_nil path.toList]
    exact path?_append hpath rfl
  cases tag with
  | value path =>
    have hread : path? ((value path).body.dropWhile isBlank) = some path := by
      change path? ((path.toList ++ [' ']).dropWhile isBlank) = some path
      rw [dropWhile_isBlank_eq_self ((hpathBegin h).append h.toList_ne_nil _)]
      exact path?_append h rfl
    rw [ofBody?, hread]
    rfl
  | json path =>
    refine (ofBody?_json _).trans ?_
    rw [afterBlanks?_space (hpathBegin h), Option.bind_some, hpathAlone h]
    rfl
  | html path =>
    refine (ofBody?_html _).trans ?_
    rw [afterBlanks?_space (hpathBegin h), Option.bind_some, hpathAlone h]
    rfl
  -- a normal condition has no blanks at its ends, so none are taken off
  | ifOpen condition =>
    refine (ofBody?_if _).trans ?_
    rw [afterBlanks?_space h.begins, Option.map_some, trimEnd_eq_self h.ends, String.ofList_toList]
  | eachOpen collection item index =>
    rcases h with ⟨hcollection, hitem, hindex⟩
    have hbegin := (hpathBegin hcollection).append hcollection.toList_ne_nil
    refine (ofBody?_each _).trans ?_
    rw [afterBlanks?_space (hbegin _), Option.bind_some]
    exact each?_append hcollection hitem hindex
  | embed name =>
    have hread := name?_quoted (quoteFor_not_mem.mpr h.2)
    have hbegin : BeginsUnblank (quoteFor name :: (name.toList ++ [quoteFor name])) := by
      rintro _ ⟨⟩
      rw [quoteFor]
      split
      · decide
      · decide
    refine (ofBody?_include _).trans ?_
    rw [afterBlanks?_space hbegin, Option.bind_some, hread]
    rfl
  | elseMark => rfl
  | close kind =>
    cases kind with
    | cond => rfl
    | each => rfl

/-- What is printed for a normal tag has no braces between its own. -/
theorem braceless_body {tag : Tag} (h : tag.IsNormal) : Braceless tag.body := by
  have hpath : ∀ {path : String}, IsRun Path.isPathChar path → Braceless path.toList :=
    fun h => h.braceless fun _ => isBrace_of_isPathChar
  have hword : ∀ {word : String}, IsRun isWord word → Braceless word.toList :=
    fun h => h.braceless fun _ => isBrace_of_isWord
  have hblank : ∀ {cs : List Char}, Braceless cs → Braceless (' ' :: cs) := Braceless.cons rfl
  have hnil : Braceless [] := fun _ hc => nomatch hc
  have hmark : ∀ {cs : List Char}, (cs.all fun c => !Tag.isBrace c) = true → Braceless cs := by
    intro cs hall c hc
    rw [← Bool.not_eq_true', List.all_eq_true.mp hall c hc]
  cases tag with
  | value path => exact hblank ((hpath h).append (hblank hnil))
  | json path => exact (hmark (by decide)).append (hblank (hpath h))
  | html path => exact (hmark (by decide)).append (hblank (hpath h))
  | ifOpen condition => exact (hmark (by decide)).append (hblank h.braceless)
  | eachOpen collection item index =>
    rcases h with ⟨hcollection, hitem, hindex⟩
    have hclause : Braceless (indexClause index) := by
      rw [indexClause]
      split
      · exact hnil
      · next hne => exact .cons rfl (hblank (hword (hindex.resolve_left hne)))
    have has : Braceless "as".toList := hmark (by decide)
    have hnames := has.append (hblank ((hword hitem).append hclause))
    exact (hmark (by decide)).append (hblank ((hpath hcollection).append (hblank hnames)))
  | embed name =>
    have hquote : Tag.isBrace (quoteFor name) = false := by
      rw [quoteFor]
      split
      · rfl
      · rfl
    exact (hmark (by decide)).append
      (hblank (.cons hquote (h.1.append (.cons hquote hnil))))
  | elseMark => exact hmark (by decide)
  | close kind =>
    cases kind with
    | cond => exact hmark (by decide)
    | each => exact hmark (by decide)

/-- One of two readings gives what both together give. -/
theorem eq_some_of_orElse {first second : Option Tag} {tag : Tag}
    (h : (first <|> second) = some tag) : first = some tag ∨ second = some tag := by
  cases first with
  | none => exact .inr h
  | some found => exact .inl h

/-- What is read is a normal tag. -/
theorem isNormal_of_ofBody? {body : List Char} {tag : Tag} (hbody : Braceless body)
    (h : ofBody? body = some tag) : tag.IsNormal := by
  rw [ofBody?] at h
  rcases eq_some_of_orElse h with hvalue | h
  · rcases Option.map_eq_some_iff.mp hvalue with ⟨path, hpath, rfl⟩
    exact path?_eq_some hpath
  rcases eq_some_of_orElse h with hjson | h
  · rcases Option.map_eq_some_iff.mp hjson with ⟨path, hread, rfl⟩
    rcases Option.bind_eq_some_iff.mp hread with ⟨_, -, hpath⟩
    exact path?_eq_some hpath
  rcases eq_some_of_orElse h with hhtml | h
  · rcases Option.map_eq_some_iff.mp hhtml with ⟨path, hread, rfl⟩
    rcases Option.bind_eq_some_iff.mp hread with ⟨_, -, hpath⟩
    exact path?_eq_some hpath
  rcases eq_some_of_orElse h with hif | h
  · rcases Option.map_eq_some_iff.mp hif with ⟨cs, hafter, rfl⟩
    rcases after?_eq_some hafter with ⟨hbegin, hsub⟩
    have hcondition : (String.ofList (trimEnd cs)).toList = trimEnd cs := String.toList_ofList
    refine ⟨?_, ?_, ?_⟩
    · rw [hcondition]
      exact hbody.mono fun c hc => hsub ((prefix_trimEnd cs).subset hc)
    · rw [hcondition]
      exact hbegin.mono (prefix_trimEnd cs)
    · rw [hcondition]
      exact endsUnblank_trimEnd cs
  rcases eq_some_of_orElse h with heach | h
  · rcases Option.bind_eq_some_iff.mp heach with ⟨cs, -, hread⟩
    rcases each?_eq_some hread with ⟨collection, item, index, rfl, hnormal⟩
    exact hnormal
  rcases eq_some_of_orElse h with hembed | h
  · rcases Option.map_eq_some_iff.mp hembed with ⟨name, hread, rfl⟩
    rcases Option.bind_eq_some_iff.mp hread with ⟨cs, hafter, hname⟩
    rcases name?_eq_some hname with ⟨hsub, hquotes⟩
    exact ⟨hbody.mono fun c hc => (after?_eq_some hafter).2 (hsub hc), hquotes⟩
  -- the other forms have no arguments
  rcases eq_some_of_orElse h with helse | h
  · split at helse <;> cases helse
    trivial
  rcases eq_some_of_orElse h with hclose | hclose
  · split at hclose <;> cases hclose
    trivial
  · split at hclose <;> cases hclose
    trivial

end Tag

end Curly
