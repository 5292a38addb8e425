import Curly.Proofs.Conditions

/-!
# Conditions printed and read again

Reading a text and printing the condition that it is loses nothing that a second reading could tell
(`Condition.ofText_print`). A condition prints to its text without the blanks, which has the same
tokens, only closer together, and so is read as the same condition. A text that is no condition is
printed as it stands, and so it is refused again, for the same reason and at the same place.
-/

namespace Curly

open Text

namespace Condition

/-- What a token is, wherever it stands. -/
def Token.label (t : Token) : TokenKind × String := (t.kind, t.text)

/-- What the tokens of a condition are: its path, after a mark if it is negated, and the end. -/
def labels : Condition → List (TokenKind × String)
  | path p => [(.path, p), (.stop, "")]
  | negated p => [(.bang, "!"), (.path, p), (.stop, "")]
  | invalid .. => []

variable {c : Condition} {cs : List Char}

/-- There are no blanks in a path. -/
theorem IsPath.filter_isBlank (h : IsPath cs) : cs.filter (!isBlank ·) = cs := by
  have hchar : ∀ d ∈ cs, Path.isPathChar d ∨ d = '-' := by
    cases h with
    | plain _ hall =>
      intro d hd
      exact .inl (hall d hd)
    | minus _ hall =>
      intro d hd
      rcases List.mem_cons.mp hd with rfl | hd
      · exact .inr rfl
      · exact .inl (hall d hd)
  apply List.filter_eq_self.mpr
  intro d hd
  rcases hchar d hd with hd | rfl
  · rw [Path.isBlank_of_isPathChar hd]
    rfl
  · decide

theorem filter_isBlank_of_blanks (h : ∀ d ∈ cs, isBlank d) : cs.filter (!isBlank ·) = [] := by
  apply List.filter_eq_nil_iff.mpr
  intro d hd
  simp [h d hd]

/-- A condition prints to each of its texts without the blanks in it. -/
theorem Written.toList_print (h : Written c cs) : c.print.toList = cs.filter (!isBlank ·) := by
  cases h with
  | path hbefore hp hafter =>
    rw [List.filter_append, List.filter_append, filter_isBlank_of_blanks hbefore,
      hp.filter_isBlank, filter_isBlank_of_blanks hafter, List.nil_append, List.append_nil]
    rfl
  | negated hbefore hmiddle hp hafter =>
    have hbang : isBlank '!' = false := by decide
    rw [List.filter_append, List.filter_cons, hbang, List.filter_append, List.filter_append,
      filter_isBlank_of_blanks hbefore, filter_isBlank_of_blanks hmiddle, hp.filter_isBlank,
      filter_isBlank_of_blanks hafter, List.append_nil]
    exact String.toList_append

/-- What a condition prints to is one of its texts. -/
theorem Written.print (h : Written c cs) : Written c c.print.toList := by
  have hnil : ∀ d ∈ ([] : List Char), isBlank d := List.forall_mem_nil _
  cases h with
  | @path p _ _ _ hp _ =>
    have hprint : (Condition.path p).print.toList = [] ++ (p.toList ++ []) :=
      (List.append_nil _).symm
    rw [hprint]
    exact .path hnil hp hnil
  | @negated p _ _ _ _ _ hp _ =>
    have hprint : (Condition.negated p).print.toList = [] ++ '!' :: ([] ++ (p.toList ++ [])) := by
      rw [Condition.print, String.toList_append, List.append_nil]
      rfl
    rw [hprint]
    exact .negated hnil hnil hp hnil

/-- All texts of a condition have the same tokens, at other places. -/
theorem Written.map_label (h : Written c cs) (position : Nat) :
    (tokensFrom position cs).map Token.label = c.labels := by
  cases h with
  | path hbefore hp hafter =>
    rw [tokensFrom_blanks hbefore, tokensFrom_path hp hafter]
    rfl
  | negated hbefore hmiddle hp hafter =>
    rw [tokensFrom_blanks hbefore, tokensFrom_bang, tokensFrom_blanks hmiddle,
      tokensFrom_path hp hafter]
    rfl

/-- What a text is read as, printed and read again, is what it was read as at first. A condition is
printed without the blanks of its text, and the tokens are still the same; a text that is none is
printed unchanged, and refused as before. -/
theorem ofText_print (text : String) :
    ofText (ofText text).print = ofText text ∧
    match read text with
    | .ok c => ofText text = c ∧ c.print.toList = text.toList.filter (!isBlank ·) ∧
        (tokens c.print).map Token.label = (tokens text).map Token.label ∧ read c.print = .ok c
    | .error r => ofText text = .invalid text r.message ∧ (ofText text).print = text ∧
        read (ofText text).print = .error r := by
  rcases hread : read text with r | c
  · have hself : ofText text = .invalid text r.message := by rw [ofText, hread]
    rw [hself]
    exact ⟨hself, rfl, rfl, hread⟩
  · have hself : ofText text = c := by rw [ofText, hread]
    have hwritten := read_eq_ok_iff.mp hread
    have hagain : read c.print = .ok c := read_eq_ok_iff.mpr hwritten.print
    have htokens : (tokens c.print).map Token.label = (tokens text).map Token.label := by
      rw [tokens, tokens, hwritten.print.map_label, hwritten.map_label]
    rw [hself]
    refine ⟨?_, rfl, hwritten.toList_print, htokens, hagain⟩
    rw [ofText, hagain]

example : ofText " ! -.. " = .negated "-.." ∧ (ofText " ! -.. ").print = "!-.." := by decide +kernel

end Condition

end Curly
