/-!
# Splitting a text at a character

`split` gives the part before the first separator and the parts after it; a text without a
separator is its own first part. Putting the separators back gives the text (`join_split`).
-/

namespace Curly.Text

/-- The parts of a text between the separators: the first, and the others in order. -/
def split (separator : Char) : List Char → List Char × List (List Char)
  | [] => ([], [])
  | c :: rest =>
    let (first, others) := split separator rest
    if c = separator then ([], first :: others) else (c :: first, others)

/-- The parts of a text between the separators, as one list. -/
def splitList (separator : Char) (cs : List Char) : List (List Char) :=
  let (first, others) := split separator cs
  first :: others

/-- The parts with the separator put between them. -/
def join (separator : Char) : List Char × List (List Char) → List Char
  | (first, others) => first ++ others.flatMap (separator :: ·)

theorem join_split (separator : Char) (cs : List Char) :
    join separator (split separator cs) = cs := by
  induction cs with
  | nil => rfl
  | cons c rest ih =>
    simp only [split]
    split <;> simp_all [join]

/-- Any other character is in a text exactly if it is in one of the parts. -/
theorem mem_iff_of_ne {separator c : Char} (h : c ≠ separator) (cs : List Char) :
    c ∈ cs ↔ ∃ part ∈ splitList separator cs, c ∈ part := by
  have hjoin : c ∈ join separator (split separator cs) ↔ ∃ part ∈ splitList separator cs, c ∈ part := by
    simp [join, splitList, h]
  rwa [join_split] at hjoin

end Curly.Text
