import Curly.Proofs.Scanning
import Mathlib.Algebra.GroupWithZero.Nat

/-!
# The places of tokens

The tokens of a text are a partition of it: their texts, put together again, are the text, and each
token stands where the texts of those before it end (`Token.ofText_partition`). So the place of a
token is told by the text before it alone (`Token.location_eq`).

Lines are counted by the character. Counting them by the run, by the line feeds in it and by what
follows the last of them, leads to the same places (`Location.after_eq_past`).
-/

namespace Curly

/-! ## Counting lines -/

/-- The place after characters: their number, the lines they begin, and the characters since the last
line feed among them. -/
def Location.behind (cs : List Char) : Location :=
  ⟨cs.length, 1 + cs.count '\n', 1 + (cs.reverse.takeWhile (· ≠ '\n')).length⟩

theorem Location.behind_append_singleton (cs : List Char) (c : Char) :
    behind (cs ++ [c]) = (behind cs).next c := by
  rw [behind, behind, next]
  by_cases hc : c = '\n'
  · subst hc
    simp
    omega
  · simp [hc]
    omega

/-- Counting lines and columns on from the start of a text comes to counting them afresh. -/
theorem Location.after_start (cs : List Char) : start.after cs = behind cs := by
  induction cs using List.reverseRecOn with
  | nil => rfl
  | append_singleton cs c ih =>
    rw [behind_append_singleton, ← ih, after_append]
    rfl

/-- The last line of a text, from the last line feed on, tells the column behind the text. -/
theorem Location.exists_column_behind (cs : List Char) :
    ∃ lines last, cs = lines ++ last ∧ '\n' ∉ last ∧ (∀ c ∈ lines.getLast?, c = '\n') ∧
      (behind cs).column = 1 + last.length := by
  let last := cs.reverse.takeWhile (· ≠ '\n')
  let lines := cs.reverse.dropWhile (· ≠ '\n')
  have hsplit : cs.reverse = last ++ lines := List.takeWhile_append_dropWhile.symm
  refine ⟨lines.reverse, last.reverse, List.reverse_eq_append_iff.mp hsplit, ?_, ?_, ?_⟩
  · intro hmem
    have hne := List.mem_takeWhile_imp (List.mem_reverse.mp hmem)
    simp at hne
  · intro c hc
    rw [List.getLast?_reverse] at hc
    have hbreak := List.head?_dropWhile_not (· ≠ '\n') cs.reverse
    rw [show (cs.reverse.dropWhile (· ≠ '\n')).head? = some c from hc] at hbreak
    simpa using hbreak
  · rw [List.length_reverse]
    rfl

/-- The place past a run of text, counted at once: each line feed begins a line, and the characters
after the last of them are its columns; without one the columns go on. -/
def Location.past (l : Location) (cs : List Char) : Location where
  offset := l.offset + cs.length
  line := l.line + cs.count '\n'
  column := if '\n' ∈ cs then 1 + (cs.reverse.takeWhile (· ≠ '\n')).length
    else l.column + cs.length

theorem Location.past_append_singleton (l : Location) (cs : List Char) (c : Char) :
    l.past (cs ++ [c]) = (l.past cs).next c := by
  by_cases hc : c = '\n'
  · subst hc
    simp [past, next, Nat.add_assoc]
  · have hmem : '\n' ∈ cs ++ [c] ↔ '\n' ∈ cs := by simp [Ne.symm hc]
    by_cases hcs : '\n' ∈ cs
    · simp [past, next, hc, hcs, Nat.add_assoc]
    · simp [past, next, hc, hcs, Ne.symm hc, Nat.add_assoc]

/-- Counting by the character and counting by the run lead to the same place. -/
theorem Location.after_eq_past (l : Location) (cs : List Char) : l.after cs = l.past cs := by
  induction cs using List.reverseRecOn with
  | nil => rfl
  | append_singleton cs c ih =>
    rw [past_append_singleton, ← ih, after_append]
    rfl

/-! ## Tokens side by side -/

/-- The text of tokens. -/
def Token.sources (tokens : List Token) : List Char := tokens.flatMap fun t => t.source.toList

/-- The tokens of pieces are their text. -/
theorem Token.sources_locate (l : Location) (ps : List Piece) :
    Token.sources (locate l ps) = ps.flatMap Piece.source := by
  induction ps generalizing l with
  | nil => rfl
  | cons p rest ih =>
    rw [locate, List.flatMap_cons, ← ih (l.after p.source), Token.sources, List.flatMap_cons]
    exact congrArg (· ++ _) String.toList_ofList

/-- A token stands where the text of those before it ends. -/
theorem Token.location_of_locate {l : Location} {ps : List Piece} {before after : List Token}
    {t : Token} (h : locate l ps = before ++ t :: after) :
    t.location = l.after (Token.sources before) := by
  induction ps generalizing l before with
  | nil =>
    rcases before with _ | ⟨u, before⟩
    · cases h
      rfl
    · simp [locate] at h
  | cons p rest ih =>
    rw [locate] at h
    rcases before with _ | ⟨u, before⟩
    · cases h
      rfl
    · rw [List.cons_append, List.cons.injEq] at h
      rcases h with ⟨rfl, hrest⟩
      have hsource : (p.token l).source.toList = p.source := String.toList_ofList
      rw [ih hrest, ← Location.after_append, ← hsource]
      rfl

/-- The tokens of a text are the text, and the place of each is told by the text before it. -/
theorem Token.location_eq {text : String} {before after : List Token} {t : Token}
    (h : Token.ofText text = before ++ t :: after) :
    text.toList = Token.sources before ++ (t.source.toList ++ Token.sources after) ∧
      t.location = .behind (Token.sources before) := by
  constructor
  · rw [← flatMap_source_pieces text.toList, ← Token.sources_locate .start]
    change Token.sources (Token.ofText text) = _
    rw [h, Token.sources, List.flatMap_append, List.flatMap_cons]
    rfl
  · rw [Token.location_of_locate h, Location.after_start]

/-- Each token begins where the one before it ends. -/
theorem Token.isChain_locate (l : Location) (ps : List Piece) :
    (locate l ps).IsChain fun t u => u.location = t.location.after t.source.toList := by
  induction ps generalizing l with
  | nil => exact .singleton _
  | cons p rest ih =>
    refine List.isChain_cons.mpr ⟨?_, ih (l.after p.source)⟩
    intro u hu
    have hsource : (p.token l).source.toList = p.source := String.toList_ofList
    have hplace : u.location = l.after p.source := by
      cases rest with
      | nil => cases hu; rfl
      | cons q rest => cases hu; rfl
    rw [hsource, hplace]
    rfl

/-- The last of the tokens, and no other, marks the end, and it alone has no text. -/
theorem Token.exists_locate_eq {ps : List Piece} (h : ∀ p ∈ ps, p.source ≠ []) (l : Location) :
    ∃ tokens last, locate l ps = tokens ++ [⟨.stop, "", last⟩] ∧
      ∀ t ∈ tokens, t.form ≠ .stop ∧ t.source ≠ "" := by
  induction ps generalizing l with
  | nil => exact ⟨[], l, rfl, List.forall_mem_nil _⟩
  | cons p rest ih =>
    obtain ⟨hp, hrest⟩ := List.forall_mem_cons.mp h
    obtain ⟨tokens, last, heq, hall⟩ := ih hrest (l.after p.source)
    refine ⟨p.token l :: tokens, last, by rw [locate, heq, List.cons_append], ?_⟩
    refine List.forall_mem_cons.mpr ⟨⟨?_, ?_⟩, hall⟩
    · cases p with
      | text cs => exact TokenForm.noConfusion
      | tag body tag => exact TokenForm.noConfusion
    · intro hempty
      apply hp
      rw [← String.toList_ofList (l := p.source)]
      exact congrArg String.toList hempty

/-- No two texts are side by side among the tokens if none are among the pieces. -/
theorem Token.isChain_form_locate {ps : List Piece} (l : Location)
    (h : (ps.map Piece.symbol).IsChain fun x y => x.IsText → ¬ y.IsText) :
    (locate l ps).IsChain fun t u => t.form = .text → u.form ≠ .text := by
  induction ps generalizing l with
  | nil => exact .singleton _
  | cons p rest ih =>
    rw [List.map_cons, List.isChain_cons] at h
    refine List.isChain_cons.mpr ⟨?_, ih (l.after p.source) h.2⟩
    intro u hu ht hu'
    -- the next token is that of the next piece, or the end
    cases rest with
    | nil => cases hu; cases hu'
    | cons q rest =>
      cases hu
      cases p with
      | tag body tag => cases ht
      | text cs =>
        cases q with
        | tag body tag => cases hu'
        | text ds => exact h.1 _ rfl trivial trivial

/-- The tokens of a text are a partition of it. Put together again, their texts are the text. The
last token, and no other, marks the end, and it alone is empty; no two runs of text stand side by
side. Each token begins where the one before it ends, its lines counted by the run. So its offset is
the length of the texts before it, its line is one more than the number of line feeds in the text
before it, and its column is one more than the number of characters since the last of these. -/
theorem Token.ofText_partition (text : String) :
    String.join ((ofText text).map Token.source) = text ∧
    (∃ tokens last, ofText text = tokens ++ [⟨.stop, "", last⟩] ∧
      ∀ t ∈ tokens, t.form ≠ .stop ∧ t.source ≠ "") ∧
    ((ofText text).IsChain fun t u => t.form = .text → u.form ≠ .text) ∧
    ((ofText text).IsChain fun t u => u.location = t.location.past t.source.toList) ∧
    ∀ before t after, ofText text = before ++ t :: after →
      t.location.offset = (before.map fun u => u.source.length).sum ∧
      t.location.line = 1 + (text.toList.take t.location.offset).count '\n' ∧
      ∃ lines last, text.toList.take t.location.offset = lines ++ last ∧ '\n' ∉ last ∧
        (∀ c ∈ lines.getLast?, c = '\n') ∧ t.location.column = 1 + last.length := by
  refine ⟨?_, ?_, ?_, ?_, ?_⟩
  · apply String.toList_inj.mp
    rw [String.toList_join, List.flatMap_map]
    exact (Token.sources_locate .start _).trans (flatMap_source_pieces text.toList)
  · exact exists_locate_eq (fun _ => source_ne_nil_of_mem_pieces) .start
  · exact isChain_form_locate .start (lexical_pieces text.toList).2
  · have hchain := isChain_locate .start (pieces text.toList)
    simp only [Location.after_eq_past] at hchain
    exact hchain
  · intro before t after h
    -- the text in front of a token is that of the tokens in front of it
    obtain ⟨htext, hplace⟩ := location_eq h
    have hoffset : t.location.offset = (sources before).length := by rw [hplace]; rfl
    have hbefore : text.toList.take t.location.offset = sources before := by
      rw [hoffset, htext, List.take_left]
    rw [hbefore, hplace]
    refine ⟨?_, rfl, Location.exists_column_behind (sources before)⟩
    show (sources before).length = _
    rw [sources, List.length_flatMap]
    simp only [String.length_toList]

end Curly
