import Curly.Proofs.Escaping
import Mathlib.Data.List.Basic

/-!
# Escaping in one pass, and its undoing

Escaping goes over a text once for each character that has an entity, and a later pass meets the
entities that the earlier ones put in. But no pass puts in what a later one looks for
(`Text.Settled`), so all of them together come to a single pass that gives each character its entity
(`Text.toList_escape`). Hence a text can be escaped in parts, and reading the entities back from the
left gives the text (`Text.escape_exact`).
-/

namespace Curly.Text

/-! ## Many passes as one -/

/-- No replacement puts in a character that a later one takes out. -/
def Settled (replacements : List (Char × String)) : Prop :=
  replacements.Pairwise fun r later => later.1 ∉ r.2.toList

/-- A text in which no character has a replacement stays. -/
theorem substitute_eq_self {replacements : List (Char × String)} {cs : List Char}
    (h : ∀ r ∈ replacements, r.1 ∉ cs) : substitute replacements cs = cs := by
  have hkept : ∀ c ∈ cs, substitute replacements [c] = [c] := by
    intro c hc
    refine substitute_singleton_of_forall_ne ?_
    rintro r hr rfl
    exact h r hr hc
  rw [substitute_eq_flatMap, List.flatMap_congr hkept, List.flatMap_singleton']

/-- Of settled replacements a character gets its own and keeps it. -/
theorem substitute_singleton_of_settled {replacements : List (Char × String)}
    (h : Settled replacements) (c : Char) :
    substitute replacements [c] = ((replacements.lookup c).map String.toList).getD [c] := by
  induction replacements with
  | nil => rfl
  | cons r rest ih =>
    rcases r with ⟨d, name⟩
    obtain ⟨hfirst, hrest⟩ := List.pairwise_cons.mp h
    rw [substitute_cons]
    by_cases hc : c = d
    · have hput : replaceChar d name.toList [c] = name.toList := by simp [replaceChar, hc]
      rw [hput, substitute_eq_self hfirst, hc, List.lookup_cons_self]
      rfl
    · have hkept : replaceChar d name.toList [c] = [c] := by simp [replaceChar, hc]
      rw [hkept, List.lookup_cons, beq_false_of_ne hc]
      exact ih hrest

theorem settled_markupEntities : Settled markupEntities := by
  unfold Settled
  decide

/-- Escaping gives each character its entity. -/
theorem toList_escape (s : String) : (escape s).toList = s.toList.flatMap entity := by
  rw [escape, String.toList_ofList, substitute_eq_flatMap]
  refine List.flatMap_congr fun c _ => ?_
  rw [substitute_singleton_of_settled settled_markupEntities, entity]
  cases markupEntities.lookup c with
  | none => rfl
  | some name => rfl

theorem escape_append (s t : String) : escape (s ++ t) = escape s ++ escape t := by
  rw [← String.toList_inj, String.toList_append, toList_escape, toList_escape, toList_escape,
    String.toList_append, List.flatMap_append]

/-- The characters that have an entity. -/
theorem map_fst_markupEntities : markupEntities.map Prod.fst = '&' :: markupChars := rfl

/-- A character without an entity stays. -/
theorem entity_of_not_mem {c : Char} (h : c ∉ '&' :: markupChars) : entity c = [c] := by
  have hnone : markupEntities.lookup c = none := by
    rw [List.lookup_eq_none_iff]
    intro r hr
    rw [bne_iff_ne]
    rintro rfl
    exact h (map_fst_markupEntities ▸ List.mem_map_of_mem hr)
  rw [entity, hnone]

/-! ## Reading entities back -/

/-- The character whose entity stands at the start of a text, and what follows the entity. -/
def readEntity? (cs : List Char) : Option (Char × List Char) :=
  markupEntities.findSome? fun (c, name) => (name.toList.isPrefixOf? cs).map (c, ·)

/-- A text that begins with the entity of a character is the entity and what follows it. -/
theorem eq_of_readEntity? {cs rest : List Char} {c : Char}
    (h : readEntity? cs = some (c, rest)) :
    ∃ r ∈ markupEntities, r.1 = c ∧ cs = r.2.toList ++ rest := by
  obtain ⟨r, hr, hread⟩ := List.exists_of_findSome?_eq_some h
  obtain ⟨after, hafter, heq⟩ := Option.map_eq_some_iff.mp hread
  cases heq
  exact ⟨r, hr, rfl, (List.append_eq_of_isPrefixOf?_eq_some hafter).symm⟩

theorem length_lt_of_readEntity? {cs rest : List Char} {c : Char}
    (h : readEntity? cs = some (c, rest)) : rest.length < cs.length := by
  have hname : ∀ r ∈ markupEntities, 0 < r.2.toList.length := by decide
  obtain ⟨r, hr, -, rfl⟩ := eq_of_readEntity? h
  rw [List.length_append]
  exact Nat.lt_add_of_pos_left (hname r hr)

/-- The text with the character put back for each entity, from the left. -/
def unescape (cs : List Char) : List Char :=
  match h : readEntity? cs with
  | some (c, rest) =>
    have := length_lt_of_readEntity? h
    c :: unescape rest
  | none =>
    match cs with
    | [] => []
    | c :: rest => c :: unescape rest
  termination_by cs.length

theorem unescape_of_some {cs rest : List Char} {c : Char} (h : readEntity? cs = some (c, rest)) :
    unescape cs = c :: unescape rest := by
  rw [unescape]
  split
  · next heq =>
    rw [h] at heq
    cases heq
    rfl
  · next heq =>
    rw [h] at heq
    cases heq

theorem unescape_of_none {c : Char} {rest : List Char} (h : readEntity? (c :: rest) = none) :
    unescape (c :: rest) = c :: unescape rest := by
  rw [unescape]
  split
  · next heq =>
    rw [h] at heq
    cases heq
  · rfl

theorem unescape_nil : unescape [] = [] := by
  rw [unescape]
  rfl

/-- An entity is read back as its character, whatever follows. -/
theorem readEntity?_append {r : Char × String} (hr : r ∈ markupEntities) (rest : List Char) :
    readEntity? (r.2.toList ++ rest) = some (r.1, rest) := by
  simp only [markupEntities, List.mem_cons, List.not_mem_nil, or_false] at hr
  rcases hr with rfl | rfl | rfl | rfl | rfl | rfl | rfl <;> rfl

/-- Entities begin with an ampersand. -/
theorem readEntity?_of_ne {c : Char} (h : c ≠ '&') (rest : List Char) :
    readEntity? (c :: rest) = none := by
  have hname : ∀ r ∈ markupEntities, r.2.toList.head? = some '&' := by decide
  rcases hread : readEntity? (c :: rest) with _ | ⟨d, after⟩
  · rfl
  · obtain ⟨r, hr, -, heq⟩ := eq_of_readEntity? hread
    have hhead := congrArg List.head? heq
    rw [List.head?_append, hname r hr] at hhead
    exact (h (Option.some.inj hhead)).elim

/-- What a character becomes is read back as the character. -/
theorem unescape_entity_append (c : Char) (rest : List Char) :
    unescape (entity c ++ rest) = c :: unescape rest := by
  by_cases hc : c ∈ '&' :: markupChars
  · have hnames : ∀ r ∈ markupEntities, entity r.1 = r.2.toList := by decide
    rw [← map_fst_markupEntities] at hc
    obtain ⟨r, hr, rfl⟩ := List.mem_map.mp hc
    rw [hnames r hr]
    exact unescape_of_some (readEntity?_append hr rest)
  · rw [entity_of_not_mem hc]
    refine unescape_of_none (readEntity?_of_ne ?_ rest)
    rintro rfl
    exact hc List.mem_cons_self

theorem unescape_escape (s : String) : unescape (escape s).toList = s.toList := by
  rw [toList_escape]
  induction s.toList with
  | nil => exact unescape_nil
  | cons c rest ih => rw [List.flatMap_cons, unescape_entity_append, ih]

/-- Escaping is exact. The passes over a text come to one in which each of seven characters becomes
its entity and every other stays. So texts are escaped in parts, what comes out is inert in markup,
and reading the entities back in one pass from the left gives the text; no two texts become one. -/
theorem escape_exact :
    (∀ s, escape s = String.ofList (s.toList.flatMap entity)) ∧
    List.Forall₂ (fun c name => entity c = name.toList) ('&' :: markupChars) entityNames ∧
    (∀ c ∉ '&' :: markupChars, entity c = [c]) ∧
    (∀ s t, escape (s ++ t) = escape s ++ escape t) ∧
    (∀ s, Inert (escape s).toList) ∧
    (∀ s, unescape (escape s).toList = s.toList) ∧
    Function.Injective escape := by
  refine ⟨?_, ?_, fun c => entity_of_not_mem, escape_append, inert_escape, unescape_escape, ?_⟩
  · intro s
    rw [← toList_escape, String.ofList_toList]
  · exact .cons rfl (.cons rfl (.cons rfl (.cons rfl (.cons rfl (.cons rfl (.cons rfl .nil))))))
  · intro s t h
    rw [← String.toList_inj, ← unescape_escape, h, unescape_escape]

end Curly.Text
