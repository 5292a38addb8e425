import Curly.Condition
import Curly.Proofs.Patterns
import Curly.Proofs.Tags

/-!
# Reading conditions

The tokens of a condition are what a scan finds that tries a few patterns at each place, the first
that matches winning (`Condition.Scan`). The scan always comes to an end: there is always a pattern
that matches, and what it matches is not empty (`Condition.exists_begins`). A text is read as a
condition exactly if it is one in the grammar (`Condition.Written`), and where a text is refused,
what stands before the place in the refusal begins a condition, and the token at that place, or the
end of the text, is of a kind that cannot come next (`Condition.Refusal.Blames`).
-/

namespace Curly

open Text

namespace Condition

/-! ## The scan -/

/-- The patterns of a scan in the order in which they are tried, each with the kind of token that it
makes: blanks, which make none, an exclamation mark, a path, and any character but a line feed. -/
def specs : List (Option TokenKind × Pattern Empty) :=
  [(none, .run isBlank), (some .bang, .literal "!"),
    (some .path, .seq (.maybe (.literal "-")) (.run Path.isPathChar)),
    (some .unknown, .one (· != '\n'))]

/-- What the first pattern that stands at the start of a text takes of it. -/
def turn? (cs : List Char) : Option (Option TokenKind × Pattern.Way Empty) :=
  specs.findSome? fun (kind, p) => (p.first cs).map (kind, ·)

theorem turn?_eq (cs : List Char) :
    turn? cs = (((Pattern.run isBlank).first cs).map (none, ·)).or
      ((((Pattern.literal "!").first cs).map (some .bang, ·)).or
        ((((Pattern.seq (.maybe (.literal "-")) (.run Path.isPathChar)).first cs).map
          (some .path, ·)).or (((Pattern.one (· != '\n')).first cs).map (some .unknown, ·)))) := by
  have hcons : ∀ {α β : Type} (f : α → Option β) (a : α) (as : List α),
      (a :: as).findSome? f = (f a).or (as.findSome? f) := by
    intro α β f a as
    rw [List.findSome?_cons]
    cases f a <;> rfl
  simp only [turn?, specs, hcons, List.findSome?_nil, Option.or_none]

/-- The tokens that a scan makes of a text that begins at a place, turn by turn until the text
ends. -/
inductive Scan : Nat → List Char → List Token → Prop where
  | stop {position : Nat} : Scan position [] [⟨.stop, "", position⟩]
  | skip {position : Nat} {cs : List Char} {w : Pattern.Way Empty} {ts : List Token} :
      turn? cs = some (none, w) → Scan (position + w.matched.length) w.rest ts →
      Scan position cs ts
  | token {position : Nat} {cs : List Char} {kind : TokenKind} {w : Pattern.Way Empty}
      {ts : List Token} :
      turn? cs = some (some kind, w) → Scan (position + w.matched.length) w.rest ts →
      Scan position cs (⟨kind, String.ofList w.matched, position⟩ :: ts)

/-- What a path in a condition is written with: characters of paths, at least one, after a minus or
not. -/
inductive IsPath : List Char → Prop where
  | plain {word : List Char} : word ≠ [] → (∀ c ∈ word, Path.isPathChar c) → IsPath word
  | minus {word : List Char} : word ≠ [] → (∀ c ∈ word, Path.isPathChar c) → IsPath ('-' :: word)

/-- How a text begins: with blanks or a path, as long as can be, with a mark, or with a character
that begins none of these. -/
inductive Begins : Option TokenKind → List Char → List Char → Prop where
  | blanks {word rest : List Char} : word ≠ [] → (∀ c ∈ word, isBlank c) → BeginsUnblank rest →
      Begins none word rest
  | bang {rest : List Char} : Begins (some .bang) ['!'] rest
  | path {word rest : List Char} : IsPath word → (∀ c ∈ rest.head?, Path.isPathChar c = false) →
      Begins (some .path) word rest
  | unknown {c : Char} {rest : List Char} : isBlank c = false → c ≠ '!' →
      Path.isPathChar c = false → (c = '-' → ∀ d ∈ rest.head?, Path.isPathChar d = false) →
      Begins (some .unknown) [c] rest

/-- A path begins with a character of paths, or with a minus before one. -/
theorem IsPath.exists_cons {word : List Char} (h : IsPath word) :
    ∃ c run, word = c :: run ∧ (∀ d ∈ run, Path.isPathChar d) ∧
      (Path.isPathChar c ∨ c = '-' ∧ run ≠ []) := by
  cases h with
  | plain hne hall =>
    rcases List.exists_cons_of_ne_nil hne with ⟨c, run, rfl⟩
    rcases List.forall_mem_cons.mp hall with ⟨hc, hrun⟩
    exact ⟨c, run, rfl, hrun, .inl hc⟩
  | minus hne hall => exact ⟨'-', _, rfl, hall, .inr ⟨rfl, hne⟩⟩

theorem ne_bang_of_isPathChar {c : Char} (h : Path.isPathChar c) : c ≠ '!' := by
  rintro rfl
  revert h
  decide

/-- The first character of a path begins nothing else. -/
theorem IsPath.head {c : Char} {run : List Char} (h : IsPath (c :: run)) :
    isBlank c = false ∧ c ≠ '!' := by
  rcases h.exists_cons with ⟨_, _, heq, -, hc⟩
  cases heq
  rcases hc with hc | ⟨rfl, -⟩
  · exact ⟨Path.isBlank_of_isPathChar hc, ne_bang_of_isPathChar hc⟩
  · exact ⟨by decide, by decide⟩

theorem IsPath.ne_nil {word : List Char} (h : IsPath word) : word ≠ [] := by
  rcases h.exists_cons with ⟨c, run, rfl, -⟩
  exact List.cons_ne_nil c run

theorem head?_dropWhile_isPathChar (cs : List Char) :
    ∀ c ∈ (cs.dropWhile Path.isPathChar).head?, Path.isPathChar c = false := by
  intro c hc
  have h := List.head?_dropWhile_not Path.isPathChar cs
  rw [Option.mem_def.mp hc] at h
  simpa using h

/-- At each place a text begins in one of the four ways. -/
theorem exists_begins {cs : List Char} (h : cs ≠ []) :
    ∃ kind word rest, cs = word ++ rest ∧ Begins kind word rest := by
  rcases List.exists_cons_of_ne_nil h with ⟨c, rest, rfl⟩
  by_cases hblank : isBlank c
  · refine ⟨none, (c :: rest).takeWhile isBlank, (c :: rest).dropWhile isBlank,
      List.takeWhile_append_dropWhile.symm, .blanks ?_ ?_ (beginsUnblank_dropWhile _)⟩
    · rw [List.takeWhile_cons_of_pos hblank]
      exact List.cons_ne_nil _ _
    · exact fun d hd => List.mem_takeWhile_imp hd
  by_cases hbang : c = '!'
  · subst hbang
    exact ⟨_, ['!'], rest, rfl, .bang⟩
  by_cases hpath : Path.isPathChar c
  · refine ⟨_, (c :: rest).takeWhile Path.isPathChar, (c :: rest).dropWhile Path.isPathChar,
      List.takeWhile_append_dropWhile.symm, .path (.plain ?_ ?_) (head?_dropWhile_isPathChar _)⟩
    · rw [List.takeWhile_cons_of_pos hpath]
      exact List.cons_ne_nil _ _
    · exact fun d hd => List.mem_takeWhile_imp hd
  by_cases hminus : c = '-' ∧ rest.takeWhile Path.isPathChar ≠ []
  · rcases hminus with ⟨rfl, hrun⟩
    refine ⟨_, '-' :: rest.takeWhile Path.isPathChar, rest.dropWhile Path.isPathChar, ?_,
      .path (.minus hrun fun d hd => List.mem_takeWhile_imp hd) (head?_dropWhile_isPathChar rest)⟩
    rw [List.cons_append, List.takeWhile_append_dropWhile]
  · refine ⟨_, [c], rest, rfl, .unknown (Bool.eq_false_iff.mpr hblank) hbang
      (Bool.eq_false_iff.mpr hpath) fun hc d hd => Bool.eq_false_iff.mpr fun hd' => ?_⟩
    -- a minus before a path would begin it
    refine hminus ⟨hc, ?_⟩
    rcases List.head?_eq_some_iff.mp hd with ⟨more, rfl⟩
    rw [List.takeWhile_cons_of_pos hd']
    exact List.cons_ne_nil _ _

theorem Begins.word_ne_nil {kind : Option TokenKind} {word rest : List Char}
    (h : Begins kind word rest) : word ≠ [] := by
  cases h with
  | blanks hword _ _ => exact hword
  | bang => exact List.cons_ne_nil _ _
  | path hword _ => exact hword.ne_nil
  | unknown => exact List.cons_ne_nil _ _

/-- What holds of the empty text, and of a text if it holds of what follows its beginning, holds of
all texts. -/
theorem begins_induct {P : List Char → Prop} (nil : P [])
    (begins : ∀ kind word rest, Begins kind word rest → P rest → P (word ++ rest))
    (cs : List Char) : P cs := by
  induction hn : cs.length using Nat.strongRecOn generalizing cs with
  | ind n ih =>
    rcases eq_or_ne cs [] with rfl | hne
    · exact nil
    · rcases exists_begins hne with ⟨kind, word, rest, rfl, hbegins⟩
      refine begins kind word rest hbegins (ih rest.length ?_ rest rfl)
      have hpos := List.length_pos_iff.mpr hbegins.word_ne_nil
      rw [← hn, List.length_append]
      omega

section Turns

variable {kind : Option TokenKind} {word rest : List Char}

theorem not_singleton_isPrefix {c d : Char} {cs : List Char} (h : c ≠ d) : ¬ [d] <+: c :: cs := by
  intro hprefix
  exact h (List.cons_prefix_cons.mp hprefix).1.symm

/-- A run takes the characters of a class, as long as can be. -/
theorem first_run_append {p : Char → Bool} (hne : word ≠ []) (hall : ∀ c ∈ word, p c)
    (hrest : ∀ c ∈ rest.head?, p c = false) :
    (Pattern.run p : Pattern Empty).first (word ++ rest) = some ⟨word, [], rest⟩ := by
  rcases List.exists_cons_of_ne_nil hne with ⟨c, run, rfl⟩
  rcases List.forall_mem_cons.mp hall with ⟨hc, hmore⟩
  rw [List.cons_append, Pattern.first_run hc, (run_append hmore hrest).1,
    (run_append hmore hrest).2]

/-- The path pattern takes a path, as long as can be. -/
theorem first_path (h : IsPath word) (hrest : ∀ c ∈ rest.head?, Path.isPathChar c = false) :
    (Pattern.seq (.maybe (.literal "-")) (.run Path.isPathChar) : Pattern Empty).first
      (word ++ rest) = some ⟨word, [], rest⟩ := by
  rw [Pattern.first_seq_maybe]
  cases h with
  | plain hne hall =>
    have hminus : ¬ "-".toList <+: word ++ rest := by
      rcases List.exists_cons_of_ne_nil hne with ⟨c, run, rfl⟩
      refine not_singleton_isPrefix ?_
      rintro rfl
      exact absurd (hall '-' List.mem_cons_self) (by decide)
    rw [Pattern.first_seq, Pattern.ways_literal_eq_nil hminus, first_run_append hne hall hrest]
    rfl
  | @minus run hne hall =>
    have hliteral : (Pattern.seq (.literal "-") (.run Path.isPathChar) : Pattern Empty).first
        ('-' :: run ++ rest) = some ⟨'-' :: run, [], rest⟩ :=
      Pattern.first_seq_literal (first_run_append hne hall hrest)
    rw [hliteral]
    rfl

/-- The path pattern takes nothing where no path begins. -/
theorem first_path_eq_none {c : Char} (hc : Path.isPathChar c = false)
    (hminus : c = '-' → ∀ d ∈ rest.head?, Path.isPathChar d = false) :
    (Pattern.seq (.maybe (.literal "-")) (.run Path.isPathChar) : Pattern Empty).first
      (c :: rest) = none := by
  have hrun : (Pattern.run Path.isPathChar : Pattern Empty).first (c :: rest) = none :=
    Pattern.first_run_eq_none (by rintro _ ⟨⟩; exact hc)
  rw [Pattern.first_seq_maybe, hrun, Option.or_none, Pattern.first_seq]
  by_cases heq : c = '-'
  · subst heq
    have hways : (Pattern.literal "-" : Pattern Empty).ways ('-' :: rest) =
        [⟨['-'], [], rest⟩] := Pattern.ways_literal "-" rest
    rw [hways, List.findSome?_singleton, Pattern.first_run_eq_none (hminus rfl)]
    rfl
  · have hno : ¬ "-".toList <+: c :: rest := not_singleton_isPrefix heq
    rw [Pattern.ways_literal_eq_nil hno]
    rfl

/-- A turn takes what the text begins with. -/
theorem turn?_of_begins (h : Begins kind word rest) :
    turn? (word ++ rest) = some (kind, ⟨word, [], rest⟩) := by
  have hblank : ∀ c cs, isBlank c = false →
      (Pattern.run isBlank : Pattern Empty).first (c :: cs) = none := by
    intro c cs hc
    exact Pattern.first_run_eq_none (by rintro _ ⟨⟩; exact hc)
  have hbang : ∀ c cs, c ≠ '!' →
      (Pattern.literal "!" : Pattern Empty).first (c :: cs) = none := by
    intro c cs hc
    have hno : ¬ "!".toList <+: c :: cs := not_singleton_isPrefix hc
    rw [Pattern.first, Pattern.ways_literal_eq_nil hno]
    rfl
  -- the alternatives are tried in order, so of each the earlier ones have to fail
  rw [turn?_eq]
  cases h with
  | blanks hne hall hrest =>
    rw [first_run_append hne hall hrest]
    rfl
  | bang =>
    have hfirst : (Pattern.literal "!" : Pattern Empty).first ('!' :: rest) =
        some ⟨['!'], [], rest⟩ := Pattern.first_literal "!" rest
    rw [List.singleton_append, hblank '!' rest (by decide), hfirst]
    rfl
  | path hword hrest =>
    have hfirst := first_path hword hrest
    rcases hword.exists_cons with ⟨c, run, rfl, -⟩
    rw [hfirst, List.cons_append, hblank c _ hword.head.1, hbang c _ hword.head.2]
    rfl
  | @unknown c _ hc hne hchar hminus =>
    have hfeed : (c != '\n') = true := by
      rw [bne_iff_ne]
      rintro rfl
      revert hc
      decide
    rw [List.singleton_append, hblank c _ hc, hbang c _ hne, first_path_eq_none hchar hminus,
      Pattern.first, Pattern.ways, if_pos hfeed]
    rfl

theorem tokensFrom_nil (position : Nat) : tokensFrom position [] = [⟨.stop, "", position⟩] := by
  rw [tokensFrom.eq_def]

theorem tokensFrom_cons (position : Nat) (c : Char) (cs : List Char) :
    tokensFrom position (c :: cs) =
      if isBlank c then tokensFrom (position + 1) cs
      else ⟨(firstToken c cs).1, String.ofList (c :: cs.take (firstToken c cs).2), position⟩ ::
        tokensFrom (position + 1 + (firstToken c cs).2) (cs.drop (firstToken c cs).2) := by
  rw [tokensFrom.eq_def]

/-- Blanks make no tokens. -/
theorem tokensFrom_blanks {blanks : List Char} (h : ∀ c ∈ blanks, isBlank c) (position : Nat)
    (rest : List Char) :
    tokensFrom position (blanks ++ rest) = tokensFrom (position + blanks.length) rest := by
  induction blanks generalizing position with
  | nil => rfl
  | cons c blanks ih =>
    rcases List.forall_mem_cons.mp h with ⟨hc, hblanks⟩
    rw [List.cons_append, tokensFrom_cons, if_pos hc, ih hblanks, List.length_cons,
      Nat.add_right_comm, ← Nat.add_assoc]

/-- The tokens of a text are what it begins with, if that makes a token, and those of the rest. -/
theorem tokensFrom_of_begins (h : Begins kind word rest) (position : Nat) :
    tokensFrom position (word ++ rest) =
      (kind.map fun k => ⟨k, String.ofList word, position⟩).toList ++
        tokensFrom (position + word.length) rest := by
  cases h with
  | blanks _ hall _ => exact tokensFrom_blanks hall position rest
  | bang =>
    rw [List.singleton_append, tokensFrom_cons, if_neg (by decide), firstToken, if_pos rfl]
    rfl
  | path hword hrest =>
    rcases hword.exists_cons with ⟨c, run, rfl, hrun, hc⟩
    have htake := (run_append hrun hrest).1
    have hlong : run ≠ [] → run.length ≠ 0 := fun hne => mt List.length_eq_zero_iff.mp hne
    have hfirst : firstToken c (run ++ rest) = (.path, run.length) := by
      rw [firstToken, htake, if_neg hword.head.2]
      exact if_pos (hc.imp id (.imp id hlong))
    rw [List.cons_append, tokensFrom_cons, if_neg (Bool.eq_false_iff.mp hword.head.1), hfirst]
    dsimp only
    rw [List.take_left, List.drop_left, List.length_cons, Nat.add_right_comm, ← Nat.add_assoc]
    rfl
  | @unknown c _ hc hne hchar hminus =>
    have hfirst : firstToken c rest = (.unknown, 0) := by
      rw [firstToken, if_neg hne]
      refine if_neg ?_
      rintro (hpath | ⟨heq, hrun⟩)
      · rw [hchar] at hpath
        cases hpath
      · refine hrun ?_
        rw [List.length_eq_zero_iff]
        cases rest with
        | nil => rfl
        | cons d more =>
          exact List.takeWhile_cons_of_neg (Bool.eq_false_iff.mp (hminus heq d rfl))
    rw [List.singleton_append, tokensFrom_cons, if_neg (Bool.eq_false_iff.mp hc), hfirst]
    rfl

end Turns

/-- A scan finds the tokens of a text, and nothing else. -/
theorem scan_iff {position : Nat} {cs : List Char} {ts : List Token} :
    Scan position cs ts ↔ ts = tokensFrom position cs := by
  constructor
  · intro h
    -- a turn takes what the text begins with, and there is one such beginning
    have hword : ∀ {cs : List Char} {kind : Option TokenKind} {w : Pattern.Way Empty},
        turn? cs = some (kind, w) → Begins kind w.matched w.rest ∧ cs = w.matched ++ w.rest := by
      intro cs kind w hturn
      have hne : cs ≠ [] := by
        rintro rfl
        cases hturn
      rcases exists_begins hne with ⟨kind', word, rest, rfl, hbegins⟩
      rw [turn?_of_begins hbegins] at hturn
      cases hturn
      exact ⟨hbegins, rfl⟩
    induction h with
    | stop => rw [tokensFrom_nil]
    | skip hturn _ ih =>
      rcases hword hturn with ⟨hbegins, rfl⟩
      rw [tokensFrom_of_begins hbegins, ih]
      rfl
    | token hturn _ ih =>
      rcases hword hturn with ⟨hbegins, rfl⟩
      rw [tokensFrom_of_begins hbegins, ih]
      rfl
  · rintro rfl
    induction cs using begins_induct generalizing position with
    | nil =>
      rw [tokensFrom_nil]
      exact .stop
    | begins kind word rest hbegins ih =>
      rw [tokensFrom_of_begins hbegins]
      cases kind with
      | none => exact .skip (turn?_of_begins hbegins) ih
      | some kind => exact .token (turn?_of_begins hbegins) ih

/-! ## The grammar -/

/-- The texts of a condition: a path, or a path after an exclamation mark, with blanks before,
between and after them. -/
inductive Written : Condition → List Char → Prop where
  | path {p : String} {before after : List Char} : (∀ c ∈ before, isBlank c) → IsPath p.toList →
      (∀ c ∈ after, isBlank c) → Written (.path p) (before ++ (p.toList ++ after))
  | negated {p : String} {before middle after : List Char} : (∀ c ∈ before, isBlank c) →
      (∀ c ∈ middle, isBlank c) → IsPath p.toList → (∀ c ∈ after, isBlank c) →
      Written (.negated p) (before ++ '!' :: (middle ++ (p.toList ++ after)))

/-- Nothing but blanks makes no token but the one that marks the end. -/
theorem tokensFrom_of_blanks {cs : List Char} (h : ∀ c ∈ cs, isBlank c) (position : Nat) :
    tokensFrom position cs = [⟨.stop, "", position + cs.length⟩] := by
  have htokens := tokensFrom_blanks h position []
  rwa [List.append_nil, tokensFrom_nil] at htokens

theorem tokensFrom_bang (position : Nat) (rest : List Char) :
    tokensFrom position ('!' :: rest) = ⟨.bang, "!", position⟩ :: tokensFrom (position + 1) rest :=
  tokensFrom_of_begins .bang position

/-- A path with nothing but blanks after it is one token. -/
theorem tokensFrom_path {p : String} {after : List Char} (hp : IsPath p.toList)
    (hafter : ∀ c ∈ after, isBlank c) (position : Nat) :
    tokensFrom position (p.toList ++ after) =
      [⟨.path, p, position⟩, ⟨.stop, "", position + (p.toList ++ after).length⟩] := by
  have hend : ∀ c ∈ after.head?, Path.isPathChar c = false := by
    intro c hc
    refine Bool.eq_false_iff.mpr fun hchar => ?_
    have hblank := hafter c (List.mem_of_mem_head? hc)
    rw [Path.isBlank_of_isPathChar hchar] at hblank
    cases hblank
  rw [tokensFrom_of_begins (.path hp hend), tokensFrom_of_blanks hafter, String.ofList_toList,
    List.length_append, Nat.add_assoc]
  rfl

/-- What comes next in a text after its blanks: the end, or a token. -/
inductive Next (position : Nat) (cs : List Char) : Prop where
  | stop : (∀ c ∈ cs, isBlank c) → tokensFrom position cs = [⟨.stop, "", position + cs.length⟩] →
      Next position cs
  | token {kind : TokenKind} {blanks word rest : List Char} : (∀ c ∈ blanks, isBlank c) →
      Begins (some kind) word rest → cs = blanks ++ (word ++ rest) →
      tokensFrom position cs = ⟨kind, String.ofList word, position + blanks.length⟩ ::
        tokensFrom (position + (blanks ++ word).length) rest → Next position cs

theorem next_token (position : Nat) (cs : List Char) : Next position cs := by
  induction cs using begins_induct generalizing position with
  | nil => exact .stop (List.forall_mem_nil _) (tokensFrom_of_blanks (List.forall_mem_nil _) _)
  | begins kind word rest hbegins ih =>
    cases kind with
    | some kind =>
      have htokens := tokensFrom_of_begins hbegins position
      have hnil : ∀ c ∈ ([] : List Char), isBlank c := List.forall_mem_nil _
      exact .token hnil hbegins rfl htokens
    | none =>
      cases hbegins with
      | blanks _ hall _ =>
        have htokens := tokensFrom_blanks hall position rest
        rcases ih (position + word.length) with
          ⟨hrest, hstop⟩ | @⟨kind, blanks, word', rest', hblanks, hbegins', rfl, htoken⟩
        · refine .stop (List.forall_mem_append.mpr ⟨hall, hrest⟩) ?_
          rw [htokens, hstop, List.length_append, Nat.add_assoc]
        · have hboth : ∀ c ∈ word ++ blanks, isBlank c := List.forall_mem_append.mpr ⟨hall, hblanks⟩
          refine .token hboth hbegins' (List.append_assoc ..).symm ?_
          rw [htokens, htoken]
          simp only [List.length_append, Nat.add_assoc]

/-- A path and then the end are read from the texts that have a path and nothing else. -/
theorem pathThenStop_eq_ok {make : String → Condition} {position : Nat} {cs : List Char}
    {c : Condition} (h : pathThenStop make (tokensFrom position cs) = .ok c) :
    ∃ before p after, (∀ c ∈ before, isBlank c) ∧ IsPath (String.toList p) ∧
      (∀ c ∈ after, isBlank c) ∧ cs = before ++ (p.toList ++ after) ∧ c = make p := by
  rcases next_token position cs with
    ⟨-, hstop⟩ | @⟨kind, before, word, rest, hbefore, hbegins, rfl, htoken⟩
  · rw [hstop] at h
    cases h
  · rw [htoken] at h
    cases hbegins with
    | bang => cases h
    | unknown => cases h
    | path hword _ =>
      rcases next_token (position + (before ++ word).length) rest with
        ⟨hrest, hstop⟩ | ⟨-, hbegins, -, hnext⟩
      · rw [hstop] at h
        cases h
        exact ⟨before, String.ofList word, rest, hbefore, by rwa [String.toList_ofList], hrest,
          by rw [String.toList_ofList], rfl⟩
      · rw [hnext] at h
        cases hbegins <;> cases h

/-- After a mark another mark is refused, and a path is read otherwise. -/
theorem ofTokens_bang (text : String) (position : Nat) (rest : List Token) :
    (∃ t ∈ rest, t.kind = .bang ∧
      ofTokens (⟨.bang, text, position⟩ :: rest) = .error ⟨.doubleBang, t.position⟩ ∧
      rest.head? = some t) ∨
    (∀ t ∈ rest.head?, t.kind ≠ .bang) ∧
      ofTokens (⟨.bang, text, position⟩ :: rest) = pathThenStop .negated rest := by
  rcases rest with _ | ⟨⟨kind, text', position'⟩, more⟩
  · exact .inr ⟨fun _ ht => (nomatch ht), rfl⟩
  · cases kind with
    | bang => exact .inl ⟨_, List.mem_cons_self, rfl, rfl, rfl⟩
    | path => exact .inr ⟨by rintro _ ⟨⟩; exact TokenKind.noConfusion, rfl⟩
    | unknown => exact .inr ⟨by rintro _ ⟨⟩; exact TokenKind.noConfusion, rfl⟩
    | stop => exact .inr ⟨by rintro _ ⟨⟩; exact TokenKind.noConfusion, rfl⟩

/-- A text is read as a condition exactly if it is one of its texts. -/
theorem read_eq_ok_iff {text : String} {c : Condition} :
    read text = .ok c ↔ Written c text.toList := by
  rw [read, tokens]
  constructor
  · intro h
    rcases next_token 0 text.toList with
      ⟨-, hstop⟩ | @⟨kind, before, word, rest, hbefore, hbegins, heq, htoken⟩
    · rw [hstop] at h
      cases h
    · cases hbegins with
      | unknown =>
        rw [htoken] at h
        cases h
      | bang =>
        rw [htoken] at h
        -- what follows the mark is read as a path, unless it is another mark
        rcases ofTokens_bang _ _ (tokensFrom (0 + (before ++ ['!']).length) rest) with
          ⟨t, -, -, herror, -⟩ | ⟨-, hread⟩
        · rw [herror] at h
          cases h
        · rw [hread] at h
          rcases pathThenStop_eq_ok h with ⟨middle, p, after, hmiddle, hp, hafter, rfl, rfl⟩
          rw [heq]
          exact .negated hbefore hmiddle hp hafter
      | path =>
        have hpath : pathThenStop .path (tokensFrom 0 text.toList) = .ok c := by
          rw [htoken] at h ⊢
          exact h
        rcases pathThenStop_eq_ok hpath with ⟨before', p, after, hbefore', hp, hafter, heq', rfl⟩
        rw [heq']
        exact .path hbefore' hp hafter
  · intro h
    generalize text.toList = cs at h
    cases h with
    | path hbefore hp hafter =>
      rw [tokensFrom_blanks hbefore, tokensFrom_path hp hafter]
      rfl
    | negated hbefore hmiddle hp hafter =>
      rw [tokensFrom_blanks hbefore, tokensFrom_bang, tokensFrom_blanks hmiddle,
        tokensFrom_path hp hafter]
      rfl

/-! ## What a refusal blames -/

/-- A fault is about a token: the one that is named, or the one that is not wanted. -/
def Fault.Concerns : Fault → Token → Prop
  | empty, _ => False
  | doubleBang, t => t.kind = .bang
  | noPath, t => t.kind = .stop
  | unexpected text, t => t.kind ≠ .stop ∧ t.text = text

/-- What a refusal tells of a text. What stands before its place begins a condition, and the token
at the place, which may be the end of the text, cannot come next: in no condition that begins so
does a token of that kind stand there. A text of nothing but blanks is refused at its start. -/
structure Refusal.Blames (r : Refusal) (cs : List Char) : Prop where
  inside : r.position ≤ cs.length
  begun : ∃ c more, Written c (cs.take r.position ++ more)
  culprit : (r.fault = .empty ∧ r.position = 0 ∧ ∀ c ∈ cs, isBlank c) ∨
    ∃ t ∈ tokensFrom 0 cs, t.position = r.position ∧ r.fault.Concerns t ∧
      ∀ c more, Written c (cs.take r.position ++ more) →
        ∀ u ∈ tokensFrom 0 (cs.take r.position ++ more), u.position = r.position → u.kind ≠ t.kind

/-- A text with which conditions begin, and the kinds of tokens that can come next. -/
inductive Front : List Char → List TokenKind → Prop where
  | start {before : List Char} : (∀ c ∈ before, isBlank c) → Front before [.bang, .path]
  | bang {before middle : List Char} : (∀ c ∈ before, isBlank c) → (∀ c ∈ middle, isBlank c) →
      Front (before ++ '!' :: middle) [.path]
  | path {front word after : List Char} {kinds : List TokenKind} : Front front kinds →
      .path ∈ kinds → IsPath word → (∀ c ∈ after, isBlank c) →
      Front (front ++ (word ++ after)) [.stop]

section Positions

variable {position : Nat} {cs : List Char} {t : Token}

/-- Tokens stand where their text is, or later. -/
theorem le_position (ht : t ∈ tokensFrom position cs) : position ≤ t.position := by
  induction cs using begins_induct generalizing position with
  | nil =>
    rw [tokensFrom_of_blanks (List.forall_mem_nil _), List.mem_singleton] at ht
    rw [ht]
    exact Nat.le_add_right position _
  | begins kind word rest hbegins ih =>
    rw [tokensFrom_of_begins hbegins, List.mem_append] at ht
    rcases ht with ht | ht
    · cases kind with
      | none => cases ht
      | some kind =>
        rw [List.mem_singleton.mp ht]
    · exact (Nat.le_add_right position _).trans (ih ht)

/-- Only the first token can stand where the text begins. -/
theorem head?_of_position (ht : t ∈ tokensFrom position cs) (hposition : t.position = position) :
    (tokensFrom position cs).head? = some t := by
  rcases next_token position cs with ⟨-, hstop⟩ | @⟨kind, blanks, word, rest, -, hbegins, -, htoken⟩
  · rw [hstop, List.mem_singleton] at ht
    rw [hstop, ht]
    rfl
  · rw [htoken] at ht ⊢
    rcases List.mem_cons.mp ht with rfl | ht
    · rfl
    · have hword : 0 < word.length := List.length_pos_iff.mpr hbegins.word_ne_nil
      have hle := le_position ht
      rw [List.length_append] at hle
      omega

end Positions

/-- A path with more characters of paths after it is one path. -/
theorem IsPath.append {word run : List Char} (h : IsPath word)
    (hrun : ∀ c ∈ run, Path.isPathChar c) : IsPath (word ++ run) := by
  cases h with
  | plain hne hall =>
    exact .plain (List.append_ne_nil_of_left_ne_nil hne run)
      (List.forall_mem_append.mpr ⟨hall, hrun⟩)
  | minus hne hall =>
    exact .minus (List.append_ne_nil_of_left_ne_nil hne run)
      (List.forall_mem_append.mpr ⟨hall, hrun⟩)

/-- The first token of a text that begins with a path is a path. -/
theorem exists_tokensFrom_path {word : List Char} (hword : IsPath word) (position : Nat)
    (rest : List Char) :
    ∃ text ts, tokensFrom position (word ++ rest) = ⟨.path, text, position⟩ :: ts := by
  -- the path may go on in the rest
  have hlonger : IsPath (word ++ rest.takeWhile Path.isPathChar) :=
    hword.append fun c hc => List.mem_takeWhile_imp hc
  have htokens := tokensFrom_of_begins (.path hlonger (head?_dropWhile_isPathChar rest)) position
  rw [List.append_assoc, List.takeWhile_append_dropWhile] at htokens
  exact ⟨_, _, htokens⟩

/-- The kinds of tokens that a condition has. -/
theorem Written.kinds {c : Condition} {cs : List Char} (h : Written c cs) (position : Nat) :
    (tokensFrom position cs).map Token.kind = [.path, .stop] ∨
      (tokensFrom position cs).map Token.kind = [.bang, .path, .stop] := by
  cases h with
  | path hbefore hp hafter =>
    rw [tokensFrom_blanks hbefore, tokensFrom_path hp hafter]
    exact .inl rfl
  | negated hbefore hmiddle hp hafter =>
    rw [tokensFrom_blanks hbefore, tokensFrom_bang, tokensFrom_blanks hmiddle,
      tokensFrom_path hp hafter]
    exact .inr rfl

namespace Front

variable {front : List Char} {kinds : List TokenKind}

/-- Blanks change nothing in what can come next. -/
theorem blanks (h : Front front kinds) {blanks : List Char} (hblanks : ∀ c ∈ blanks, isBlank c) :
    Front (front ++ blanks) kinds := by
  cases h with
  | start hbefore => exact .start (List.forall_mem_append.mpr ⟨hbefore, hblanks⟩)
  | bang hbefore hmiddle =>
    rw [List.append_assoc, List.cons_append]
    exact .bang hbefore (List.forall_mem_append.mpr ⟨hmiddle, hblanks⟩)
  | path hfront hpath hword hafter =>
    rw [List.append_assoc, List.append_assoc]
    exact .path hfront hpath hword (List.forall_mem_append.mpr ⟨hafter, hblanks⟩)

/-- Where a path can come the text cannot end. -/
theorem stop_not_mem (h : Front front kinds) (hpath : .path ∈ kinds) : .stop ∉ kinds := by
  cases h with
  | start => decide
  | bang => decide
  | path => exact absurd hpath (by decide)

/-- The tokens before a place where a path can come are none or a mark. -/
theorem exists_tokens (h : Front front kinds) (hpath : .path ∈ kinds) :
    ∃ earlier : List Token, (∀ t ∈ earlier, t.position < front.length) ∧
      (earlier.map Token.kind = [] ∧ kinds = [.bang, .path] ∨
        earlier.map Token.kind = [.bang] ∧ kinds = [.path]) ∧
      ∀ more, tokensFrom 0 (front ++ more) = earlier ++ tokensFrom front.length more := by
  cases h with
  | start hbefore =>
    refine ⟨[], List.forall_mem_nil _, .inl ⟨rfl, rfl⟩, fun more => ?_⟩
    rw [tokensFrom_blanks hbefore, Nat.zero_add]
    rfl
  | @bang before middle hbefore hmiddle =>
    refine ⟨[⟨.bang, "!", before.length⟩], ?_, .inr ⟨rfl, rfl⟩, fun more => ?_⟩
    · rintro _ (_ | ⟨_, ⟨⟩⟩)
      simp
    · rw [List.append_assoc, List.cons_append, tokensFrom_blanks hbefore, tokensFrom_bang,
        tokensFrom_blanks hmiddle, List.length_append, List.length_cons, Nat.zero_add,
        Nat.add_right_comm, ← Nat.add_assoc]
      rfl
  | path => exact absurd hpath (by decide)

/-- Where a path can come, a path and nothing else after it makes a condition. -/
theorem exists_written_path (h : Front front kinds) (hpath : .path ∈ kinds) {p : String}
    (hp : IsPath p.toList) {after : List Char} (hafter : ∀ c ∈ after, isBlank c) :
    ∃ c, Written c (front ++ (p.toList ++ after)) := by
  cases h with
  | start hbefore => exact ⟨_, .path hbefore hp hafter⟩
  | bang hbefore hmiddle =>
    rw [List.append_assoc, List.cons_append]
    exact ⟨_, .negated hbefore hmiddle hp hafter⟩
  | path => exact absurd hpath (by decide)

/-- A text where a path or the end can come begins a condition. -/
theorem exists_written (h : Front front kinds) : ∃ c more, Written c (front ++ more) := by
  have hmissing : .path ∈ kinds → ∃ c more, Written c (front ++ more) := by
    intro hpath
    have ha : IsPath "a".toList := .plain (by decide) (List.all_eq_true.mp (by decide))
    rcases h.exists_written_path hpath ha (List.forall_mem_nil _) with ⟨c, hc⟩
    exact ⟨c, _, hc⟩
  cases h with
  | start => exact hmissing (by decide)
  | bang => exact hmissing (by decide)
  | @path _ word after _ hfront hpath hword hafter =>
    rw [← String.toList_ofList (l := word)] at hword ⊢
    rcases hfront.exists_written_path hpath hword hafter with ⟨c, hc⟩
    exact ⟨c, [], by rwa [List.append_nil]⟩

/-- What is left of the tokens of a condition after none of them, or after its mark. -/
theorem exists_kind {earlier ts : List Token}
    (hearlier : earlier.map Token.kind = [] ∧ kinds = [.bang, .path] ∨
      earlier.map Token.kind = [.bang] ∧ kinds = [.path])
    (h : (earlier ++ ts).map Token.kind = [.path, .stop] ∨
      (earlier ++ ts).map Token.kind = [.bang, .path, .stop]) :
    ∃ kind more, ts.map Token.kind = kind :: more ∧ kind ∈ kinds ∧
      (kind = .path → more = [.stop]) := by
  rw [List.map_append] at h
  rcases hearlier with ⟨hnone, rfl⟩ | ⟨hbang, rfl⟩
  · rw [hnone, List.nil_append] at h
    rcases h with h | h
    · exact ⟨_, _, h, by decide, fun _ => rfl⟩
    · exact ⟨_, _, h, by decide, nofun⟩
  · rw [hbang] at h
    rcases h with h | h
    · cases (List.cons.inj h).1
    · exact ⟨_, _, (List.cons.inj h).2, by decide, fun _ => rfl⟩

/-- In a condition that begins with a text, the token behind the text is of a kind that can come. -/
theorem kind_mem (h : Front front kinds) {c : Condition} {more : List Char}
    (hwritten : Written c (front ++ more)) {t : Token} (ht : t ∈ tokensFrom 0 (front ++ more))
    (hposition : t.position = front.length) : t.kind ∈ kinds := by
  have hkinds := hwritten.kinds 0
  -- where a path can come, the token is the first one of what follows the text
  have hnext : .path ∈ kinds → t.kind ∈ kinds := by
    intro hpath
    rcases h.exists_tokens hpath with ⟨earlier, hearlier, hcases, htokens⟩
    rw [htokens] at ht hkinds
    rcases List.mem_append.mp ht with ht | ht
    · exact absurd hposition (Nat.ne_of_lt (hearlier t ht))
    · rcases List.head?_eq_some_iff.mp (head?_of_position ht hposition) with ⟨ts, hts⟩
      rcases exists_kind hcases hkinds with ⟨kind, rest, hkind, hmem, -⟩
      rw [hts] at hkind
      rwa [(List.cons.inj hkind).1]
  cases h with
  | start => exact hnext (by decide)
  | bang => exact hnext (by decide)
  | @path front word after kinds hfront hpath hword hafter =>
    rcases hfront.exists_tokens hpath with ⟨earlier, hearlier, hcases, htokens⟩
    rcases exists_tokensFrom_path hword front.length (after ++ more) with ⟨text, ts, hts⟩
    have hlength : front.length < (front ++ (word ++ after)).length := by
      have hword : 0 < word.length := List.length_pos_iff.mpr hword.ne_nil
      rw [List.length_append, List.length_append]
      omega
    rw [List.append_assoc, List.append_assoc, htokens, hts] at ht hkinds
    -- the text has the path, so nothing but the end is left
    rcases exists_kind hcases hkinds with ⟨kind, rest, hkind, -, hstop⟩
    rcases List.cons.inj hkind with ⟨rfl, hrest⟩
    rcases List.mem_append.mp ht with ht | ht
    · have hbefore := hearlier t ht
      omega
    · rcases List.mem_cons.mp ht with rfl | ht
      · exact absurd hposition (Nat.ne_of_lt hlength)
      · rw [← hstop rfl, ← hrest]
        exact List.mem_map_of_mem ht

/-- What is behind a text cannot be of another kind, so a refusal that names it is right. -/
theorem blames (h : Front front kinds) {rest : List Char} {t : Token} {r : Refusal}
    (ht : t ∈ tokensFrom 0 (front ++ rest)) (hposition : t.position = r.position)
    (hr : r.position = front.length) (hconcerns : r.fault.Concerns t) (hkind : t.kind ∉ kinds) :
    r.Blames (front ++ rest) := by
  have htake : (front ++ rest).take r.position = front := by
    rw [hr, List.take_left]
  refine ⟨?_, ?_, .inr ⟨t, ht, hposition, hconcerns, ?_⟩⟩
  · rw [hr, List.length_append]
    exact Nat.le_add_right _ _
  · rw [htake]
    exact h.exists_written
  · rw [htake]
    intro c more hwritten u hu huposition heq
    exact hkind (heq ▸ h.kind_mem hwritten hu (huposition.trans hr))

/-- A token of a kind that cannot come is blamed as unexpected. -/
theorem blames_unexpected (h : Front front kinds) {kind : TokenKind} {word rest : List Char}
    (hbegins : Begins (some kind) word rest) (hkind : kind ∉ kinds)
    (ht : ⟨kind, String.ofList word, front.length⟩ ∈ tokensFrom 0 (front ++ (word ++ rest))) :
    Refusal.Blames ⟨.unexpected (String.ofList word), front.length⟩ (front ++ (word ++ rest)) := by
  refine h.blames ht rfl rfl ⟨?_, rfl⟩ hkind
  rintro rfl
  cases hbegins

/-- Where a path can come, a refusal blames what is not a path, or what is behind it. -/
theorem blames_of_pathThenStop (h : Front front kinds) (hpath : .path ∈ kinds)
    {make : String → Condition} {cs : List Char} {r : Refusal}
    (hread : pathThenStop make (tokensFrom front.length cs) = .error r)
    (hfirst : ∀ t ∈ (tokensFrom front.length cs).head?, t.kind ∈ kinds → t.kind = .path) :
    r.Blames (front ++ cs) := by
  rcases h.exists_tokens hpath with ⟨earlier, -, -, htokens⟩
  have hmem : ∀ {t}, t ∈ tokensFrom front.length cs → t ∈ tokensFrom 0 (front ++ cs) := by
    intro t ht
    rw [htokens]
    exact List.mem_append_right earlier ht
  -- the next token is what is blamed unless it is a path, and then the one behind it is
  rcases next_token front.length cs with
    ⟨hblanks, hstop⟩ | @⟨kind, before, word, rest, hbefore, hbegins, rfl, htoken⟩
  · rw [hstop] at hread hmem
    cases hread
    have hself := hmem List.mem_cons_self
    rw [← List.append_nil (front ++ cs)] at hself ⊢
    exact (h.blanks hblanks).blames hself rfl List.length_append.symm rfl (h.stop_not_mem hpath)
  · have hfront := h.blanks hbefore
    rw [htoken] at hread hmem hfirst
    rw [← List.append_assoc] at hmem ⊢
    rw [← List.length_append] at hread hmem hfirst
    have hself := hmem List.mem_cons_self
    cases hbegins with
    | bang =>
      cases hread
      exact hfront.blames_unexpected .bang (TokenKind.noConfusion ∘ hfirst _ rfl) hself
    | unknown hc hne hchar hminus =>
      cases hread
      exact hfront.blames_unexpected (.unknown hc hne hchar hminus)
        (TokenKind.noConfusion ∘ hfirst _ rfl) hself
    | path hword _ =>
      rcases next_token (front.length + (before ++ word).length) rest with
        ⟨-, hstop⟩ | @⟨kind, after, word', rest', hafter, hbegins, rfl, htoken⟩
      · rw [hstop] at hread
        cases hread
      · have hnext := hmem (List.mem_cons_of_mem _ (htoken ▸ List.mem_cons_self))
        have hplace : front.length + (before ++ word).length + after.length =
            (front ++ before ++ (word ++ after)).length := by
          simp only [List.length_append]
          omega
        have htext : front ++ before ++ (word ++ (after ++ (word' ++ rest'))) =
            front ++ before ++ (word ++ after) ++ (word' ++ rest') := by
          simp only [List.append_assoc]
        have hkind : kind ∉ [TokenKind.stop] := by
          rw [List.mem_singleton]
          rintro rfl
          cases hbegins
        rw [hplace, htext] at hnext
        rw [htoken, hplace] at hread
        -- whatever begins there, it is no end, so it is blamed where it stands
        have hrefused : r = ⟨.unexpected (String.ofList word'),
            (front ++ before ++ (word ++ after)).length⟩ := by
          cases hbegins <;> cases hread <;> rfl
        rw [hrefused, htext]
        exact (hfront.path hpath hword hafter).blames_unexpected hbegins hkind hnext

/-- Where a mark cannot come, a refusal of a second mark blames it. -/
theorem blames_doubleBang (h : Front front [.path]) {cs : List Char} {t : Token}
    (ht : (tokensFrom front.length cs).head? = some t) (hkind : t.kind = .bang) :
    Refusal.Blames ⟨.doubleBang, t.position⟩ (front ++ cs) := by
  rcases h.exists_tokens (by decide) with ⟨earlier, -, -, htokens⟩
  have hmem : t ∈ tokensFrom 0 (front ++ cs) := by
    rw [htokens]
    exact List.mem_append_right earlier (List.mem_of_mem_head? ht)
  rcases next_token front.length cs with
    ⟨-, hstop⟩ | @⟨kind, blanks, word, rest, hblanks, -, rfl, htoken⟩
  · rw [hstop] at ht
    cases ht
    cases hkind
  · rw [htoken] at ht
    cases ht
    rw [← List.append_assoc] at hmem ⊢
    refine (h.blanks hblanks).blames hmem rfl List.length_append.symm hkind ?_
    rw [hkind]
    decide

end Front

/-- A text that is refused is refused with blame. -/
theorem blames_of_ofTokens {cs : List Char} {r : Refusal}
    (h : ofTokens (tokensFrom 0 cs) = .error r) : r.Blames cs := by
  have hempty : Front [] [.bang, .path] := .start (List.forall_mem_nil _)
  rcases next_token 0 cs with
    ⟨hblanks, hstop⟩ | @⟨kind, before, word, rest, hbefore, hbegins, heq, htoken⟩
  · rw [hstop] at h
    cases h
    exact ⟨Nat.zero_le _, hempty.exists_written, .inl ⟨rfl, rfl, hblanks⟩⟩
  -- the grammar forks at a leading mark: behind it a second mark is blamed in its own way
  by_cases hbang : kind = .bang
  · subst hbang
    cases hbegins
    have hfront : Front (before ++ ['!']) [.path] := .bang hbefore (List.forall_mem_nil _)
    rw [htoken, Nat.zero_add, Nat.zero_add] at h
    rw [heq, ← List.append_assoc]
    rcases ofTokens_bang _ _ (tokensFrom (before ++ ['!']).length rest) with
      ⟨t, -, hkind, herror, hhead⟩ | ⟨-, hpath⟩
    · rw [herror] at h
      cases h
      exact hfront.blames_doubleBang hhead hkind
    · rw [hpath] at h
      exact hfront.blames_of_pathThenStop (by decide) h fun t _ hkind =>
        List.mem_singleton.mp hkind
  · have hread : ofTokens (tokensFrom 0 cs) = pathThenStop .path (tokensFrom 0 cs) := by
      rw [htoken]
      cases hbegins with
      | bang => exact (hbang rfl).elim
      | path => rfl
      | unknown => rfl
    rw [hread] at h
    refine hempty.blames_of_pathThenStop (by decide) h fun t ht hkind => ?_
    rw [List.length_nil, htoken] at ht
    cases ht
    simpa [hbang] using hkind

/-- What has no tokens but the end is refused as empty, and nothing else is. -/
theorem read_eq_empty_iff {text : String} :
    read text = .error ⟨.empty, 0⟩ ↔ ∀ c ∈ text.toList, isBlank c := by
  constructor
  · intro h
    rcases (blames_of_ofTokens h).culprit with ⟨-, -, hblanks⟩ | ⟨_, -, -, hconcerns, -⟩
    · exact hblanks
    · exact hconcerns.elim
  · intro h
    rw [read, tokens, tokensFrom_of_blanks h]
    rfl

/-- What is read as a condition, and what is not. The tokens of a text are what the scan finds,
which always comes to an end. A text is read as a condition exactly if it is one of its texts, that
is a path, or a path after an exclamation mark, among blanks. Any other text is refused: as empty,
and at its start, if it has nothing but blanks, and else with blame. -/
theorem read_exact (text : String) :
    (∀ ts, Scan 0 text.toList ts ↔ ts = tokens text) ∧
    (∀ c, read text = .ok c ↔ Written c text.toList) ∧
    (read text = .error ⟨.empty, 0⟩ ↔ ∀ c ∈ text.toList, isBlank c) ∧
    ∀ r, read text = .error r → r.Blames text.toList :=
  ⟨fun _ => scan_iff, fun _ => read_eq_ok_iff, read_eq_empty_iff, fun _ => blames_of_ofTokens⟩

/-- A minus begins a path, but a path does not go on with one: of the two words the second is
blamed. -/
theorem read_exact_minus :
    read "a -b" = .error ⟨.unexpected "-b", 2⟩ ∧
      Refusal.Blames ⟨.unexpected "-b", 2⟩ "a -b".toList := by
  have hread : read "a -b" = .error ⟨.unexpected "-b", 2⟩ := by decide +kernel
  exact ⟨hread, (read_exact "a -b").2.2.2 _ hread⟩

end Condition

end Curly
