import Curly.Text.Blank
import Mathlib.Data.List.DropRight

/-!
# Blank ends

What trimming a text leaves does not begin or end with a blank, and a text that does not is left as
it is.
-/

namespace Curly.Text

/-- The first character of a text, if it has one, is not blank. -/
def BeginsUnblank (cs : List Char) : Prop := ∀ c ∈ cs.head?, isBlank c = false

/-- The last character of a text, if it has one, is not blank. -/
def EndsUnblank (cs : List Char) : Prop := ∀ c ∈ cs.getLast?, isBlank c = false

theorem trimEnd_eq_rdropWhile (cs : List Char) : trimEnd cs = cs.rdropWhile isBlank := by
  have hkept : ∀ (front : List Char) (c : Char), front.foldr
      (fun d rest => if rest.isEmpty && isBlank d then [] else d :: rest) [c] = front ++ [c] := by
    intro front c
    induction front with
    | nil => rfl
    | cons d front ih =>
      rw [List.foldr_cons, ih]
      simp
  induction cs using List.reverseRecOn with
  | nil => rfl
  | append_singleton front c ih =>
    rw [trimEnd, List.foldr_append, List.rdropWhile_concat]
    cases hc : isBlank c with
    | true =>
      rw [← ih]
      simp [hc, trimEnd]
    | false => simpa [hc] using hkept front c

theorem endsUnblank_trimEnd (cs : List Char) : EndsUnblank (trimEnd cs) := by
  intro c hc
  rw [trimEnd_eq_rdropWhile] at hc
  rcases List.mem_getLast?_eq_getLast hc with ⟨hne, rfl⟩
  exact Bool.eq_false_iff.mpr (List.rdropWhile_last_not isBlank cs hne)

theorem trimEnd_eq_self {cs : List Char} (h : EndsUnblank cs) : trimEnd cs = cs := by
  rw [trimEnd_eq_rdropWhile, List.rdropWhile_eq_self_iff]
  intro hne
  exact Bool.eq_false_iff.mp (h _ (List.getLast_mem_getLast? hne))

theorem prefix_trimEnd (cs : List Char) : trimEnd cs <+: cs := by
  rw [trimEnd_eq_rdropWhile]
  exact List.rdropWhile_prefix isBlank cs

/-- What trimming takes off is blank. -/
theorem exists_blanks_after_trimEnd (cs : List Char) :
    ∃ blanks, (∀ c ∈ blanks, isBlank c) ∧ cs = trimEnd cs ++ blanks := by
  refine ⟨cs.rtakeWhile isBlank, fun c hc => List.mem_rtakeWhile_imp hc, ?_⟩
  rw [trimEnd_eq_rdropWhile, List.rdropWhile_append_rtakeWhile]

theorem EndsUnblank.append {front back : List Char} (h : EndsUnblank back)
    (hfront : back = [] → EndsUnblank front) : EndsUnblank (front ++ back) := by
  intro c hc
  rcases List.eq_nil_or_concat back with hnil | ⟨_, _, hback⟩
  · rw [hnil, List.append_nil] at hc
    exact hfront hnil c hc
  · have hne : back ≠ [] := by simp [hback]
    rw [List.getLast?_append_of_ne_nil front hne] at hc
    exact h c hc

theorem EndsUnblank.of_append {front back : List Char} (h : EndsUnblank (front ++ back)) :
    EndsUnblank back := by
  intro c hc
  refine h c ?_
  rw [List.getLast?_append, Option.mem_def.mp hc]
  rfl

theorem BeginsUnblank.append {front : List Char} (h : BeginsUnblank front) (hne : front ≠ [])
    (back : List Char) : BeginsUnblank (front ++ back) := by
  intro c hc
  rw [List.head?_append_of_ne_nil front hne] at hc
  exact h c hc

theorem BeginsUnblank.mono {cs front : List Char} (h : BeginsUnblank cs)
    (hfront : front <+: cs) : BeginsUnblank front := by
  intro c hc
  rcases hfront with ⟨rest, rfl⟩
  refine h c ?_
  rw [List.head?_append, Option.mem_def.mp hc]
  rfl

theorem beginsUnblank_dropWhile (cs : List Char) : BeginsUnblank (cs.dropWhile isBlank) := by
  intro c hc
  have h := List.head?_dropWhile_not isBlank cs
  rw [Option.mem_def.mp hc] at h
  simpa using h

theorem dropWhile_isBlank_eq_self {cs : List Char} (h : BeginsUnblank cs) :
    cs.dropWhile isBlank = cs := by
  cases cs with
  | nil => rfl
  | cons c rest => exact List.dropWhile_cons_of_neg (Bool.eq_false_iff.mp (h c rfl))

theorem beginsUnblank_trim (cs : List Char) : BeginsUnblank (trim cs) :=
  (beginsUnblank_dropWhile cs).mono (prefix_trimEnd _)

theorem trim_eq_self {cs : List Char} (hbegin : BeginsUnblank cs) (hend : EndsUnblank cs) :
    trim cs = cs := by
  rw [trim, dropWhile_isBlank_eq_self hbegin, trimEnd_eq_self hend]

/-- Trimming takes blanks off both ends of a text. -/
theorem exists_blanks_around (cs : List Char) :
    ∃ before after, (∀ c ∈ before, isBlank c) ∧ (∀ c ∈ after, isBlank c) ∧
      cs = before ++ (trim cs ++ after) := by
  rcases exists_blanks_after_trimEnd (cs.dropWhile isBlank) with ⟨after, hafter, heq⟩
  refine ⟨cs.takeWhile isBlank, after, fun c hc => List.mem_takeWhile_imp hc, hafter, ?_⟩
  rw [trim, ← heq, List.takeWhile_append_dropWhile]

/-- Trimming takes off all blanks that are around a text. -/
theorem trim_append {before core after : List Char} (hbefore : ∀ c ∈ before, isBlank c)
    (hne : core ≠ []) (hbegin : BeginsUnblank core) (hend : EndsUnblank core)
    (hafter : ∀ c ∈ after, isBlank c) : trim (before ++ (core ++ after)) = core := by
  have hreverse : BeginsUnblank core.reverse := by
    rw [BeginsUnblank, List.head?_reverse]
    exact hend
  rw [trim, List.dropWhile_append_of_pos hbefore,
    dropWhile_isBlank_eq_self (hbegin.append hne after), trimEnd_eq_rdropWhile, List.rdropWhile,
    List.reverse_append, List.dropWhile_append_of_pos fun c hc => hafter c (List.mem_reverse.mp hc),
    dropWhile_isBlank_eq_self hreverse, List.reverse_reverse]

/-- Trimming a text that does not end in a blank takes off what is before it. -/
theorem EndsUnblank.exists_blanks_before {cs : List Char} (h : EndsUnblank cs) :
    ∃ before, (∀ c ∈ before, isBlank c) ∧ cs = before ++ trim cs := by
  refine ⟨cs.takeWhile isBlank, fun c hc => List.mem_takeWhile_imp hc, ?_⟩
  have hcut := List.takeWhile_append_dropWhile (p := isBlank) (l := cs)
  have hend : EndsUnblank (cs.dropWhile isBlank) := EndsUnblank.of_append (hcut.symm ▸ h)
  rw [trim, trimEnd_eq_self hend, hcut]

end Curly.Text
