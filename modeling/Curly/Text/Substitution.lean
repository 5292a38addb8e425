/-!
# Substituting texts for characters

A substitution is a list of replacements, each a character and the text to put in its place. They
are carried out one after another on the whole text, so a later one also meets what an earlier one
put in.
-/

namespace Curly.Text

/-- Puts `replacement` in the place of every `c`. -/
def replaceChar (c : Char) (replacement : List Char) (cs : List Char) : List Char :=
  cs.flatMap fun d => if d = c then replacement else [d]

/-- Carries out the replacements in order, each on the whole of what the ones before it left. -/
def substitute (replacements : List (Char × String)) (cs : List Char) : List Char :=
  replacements.foldl (fun cs (c, replacement) => replaceChar c replacement.toList cs) cs

@[simp] theorem substitute_nil (cs : List Char) : substitute [] cs = cs := rfl

@[simp] theorem substitute_cons (c : Char) (s : String) (rest : List (Char × String))
    (cs : List Char) : substitute ((c, s) :: rest) cs = substitute rest (replaceChar c s.toList cs) :=
  rfl

end Curly.Text
