import Curly.Text.Markup
import Curly.Value.Json

/-!
# Escaped texts

A substitution goes over the whole text once for each replacement, and yet treats each character by
itself (`Text.substitute_eq_flatMap`). So a property of texts that is kept when they are put one
after another is one of all escaped texts as soon as it is one of what each character becomes. Two
such properties matter: an escaped text is inert in markup (`Text.inert_escape`), and JSON for a
script is inert in a script (`Json.scriptInert_scriptSafe`).
-/

namespace Curly

namespace Text

/-! ## Substitutions -/

theorem substitute_append (replacements : List (Char × String)) (xs ys : List Char) :
    substitute replacements (xs ++ ys) =
      substitute replacements xs ++ substitute replacements ys := by
  induction replacements generalizing xs ys with
  | nil => rfl
  | cons r rest ih =>
    rw [substitute_cons, replaceChar, List.flatMap_append, ih]
    rfl

@[simp] theorem substitute_empty (replacements : List (Char × String)) :
    substitute replacements [] = [] := by
  induction replacements with
  | nil => rfl
  | cons r rest ih => exact ih

/-- A substitution treats each character by itself. -/
theorem substitute_eq_flatMap (replacements : List (Char × String)) (cs : List Char) :
    substitute replacements cs = cs.flatMap fun c => substitute replacements [c] := by
  induction cs with
  | nil => exact substitute_empty replacements
  | cons c rest ih =>
    rw [← List.singleton_append, substitute_append, ih]
    rfl

/-- A character that has no replacement stays. -/
theorem substitute_singleton_of_forall_ne {replacements : List (Char × String)} {c : Char}
    (h : ∀ r ∈ replacements, c ≠ r.1) : substitute replacements [c] = [c] := by
  induction replacements with
  | nil => rfl
  | cons r rest ih =>
    have hc : replaceChar r.1 r.2.toList [c] = [c] := by
      simp [replaceChar, h r List.mem_cons_self]
    rw [substitute_cons, hc]
    exact ih fun r' hr' => h r' (List.mem_cons_of_mem r hr')

/-- What holds of the empty text, of what each character becomes, and of texts one after another,
holds of a text after a substitution. -/
theorem substitute_induct {P : List Char → Prop} {replacements : List (Char × String)}
    (nil : P []) (append : ∀ xs ys, P xs → P ys → P (xs ++ ys))
    (replaced : ∀ r ∈ replacements, P (substitute replacements [r.1]))
    (kept : ∀ c, (∀ r ∈ replacements, c ≠ r.1) → P [c]) (cs : List Char) :
    P (substitute replacements cs) := by
  rw [substitute_eq_flatMap]
  induction cs with
  | nil => exact nil
  | cons c rest ih =>
    rw [List.flatMap_cons]
    refine append _ _ ?_ ih
    by_cases hc : ∀ r ∈ replacements, c ≠ r.1
    · rw [substitute_singleton_of_forall_ne hc]
      exact kept c hc
    · obtain ⟨r, hr, heq⟩ : ∃ r ∈ replacements, c = r.1 := by simpa using hc
      rw [heq]
      exact replaced r hr

/-! ## Texts in markup -/

/-- The characters that escaping takes out of a text, besides the ampersand. -/
def markupChars : List Char := ['<', '>', '"', '\'', '/', '\x60']

/-- The entities that escaping puts into a text. -/
def entityNames : List String := ["&amp;", "&lt;", "&gt;", "&quot;", "&#39;", "&#x2F;", "&#96;"]

/-- A text that cannot be taken for markup: it has no character of markup, and each of its
ampersands begins an entity. -/
structure Inert (cs : List Char) : Prop where
  plain : ∀ c ∈ cs, c ∉ markupChars
  entities : ∀ before after, cs = before ++ '&' :: after →
    ∃ name ∈ entityNames, name.toList <+: '&' :: after

theorem Inert.nil : Inert [] where
  plain c hc := nomatch hc
  entities before after h := by simp at h

theorem Inert.append {xs ys : List Char} (hx : Inert xs) (hy : Inert ys) : Inert (xs ++ ys) where
  plain c hc := (List.mem_append.mp hc).elim (hx.plain c) (hy.plain c)
  -- an ampersand stands in one of the two texts, and its entity does not go beyond that text
  entities before after h := by
    rcases List.append_eq_append_iff.mp h with ⟨inner, rfl, hrest⟩ | ⟨inner, rfl, hrest⟩
    · exact hy.entities inner after hrest
    · cases inner with
      | nil => exact hy.entities [] after hrest.symm
      | cons c inner =>
        rw [List.cons_append, List.cons.injEq] at hrest
        rcases hrest with ⟨rfl, rfl⟩
        rcases hx.entities before inner rfl with ⟨name, hname, hpre⟩
        exact ⟨name, hname, hpre.trans (by rw [← List.cons_append]; exact List.prefix_append ..)⟩

theorem Inert.singleton {c : Char} (hc : c ∉ markupChars) (hamp : c ≠ '&') : Inert [c] where
  plain d hd := List.mem_singleton.mp hd ▸ hc
  entities before after h := by
    have hmem : '&' ∈ [c] := by
      rw [h]
      exact List.mem_append_right before List.mem_cons_self
    exact (hamp (List.mem_singleton.mp hmem).symm).elim

/-- A text with one ampersand, which begins an entity, is inert. -/
theorem Inert.ampersand {name : String} {rest : List Char} (hname : name ∈ entityNames)
    (hpre : name.toList <+: '&' :: rest) (hplain : ∀ c ∈ rest, c ∉ markupChars)
    (hamp : '&' ∉ rest) : Inert ('&' :: rest) where
  plain c hc := by
    rcases List.mem_cons.mp hc with rfl | hc
    · decide
    · exact hplain c hc
  entities before after h := by
    cases before with
    | nil =>
      rw [List.nil_append] at h
      exact ⟨name, hname, h ▸ hpre⟩
    | cons c before =>
      rw [List.cons_append, List.cons.injEq] at h
      rw [h.2] at hamp
      exact (hamp (List.mem_append_right before List.mem_cons_self)).elim

/-- An entity is inert. -/
theorem Inert.entity {name : String} (hname : name ∈ entityNames) : Inert name.toList := by
  have hshape : ∀ name ∈ entityNames, name.toList = '&' :: name.toList.tail ∧
      (∀ c ∈ name.toList.tail, c ∉ markupChars) ∧ '&' ∉ name.toList.tail := by
    simp [entityNames, markupChars]
  rcases hshape name hname with ⟨hcs, hplain, hamp⟩
  rw [hcs]
  exact Inert.ampersand hname (hcs ▸ List.prefix_rfl) hplain hamp

/-- What escaping makes of a text is inert. -/
theorem inert_escape (s : String) : Inert (escape s).toList := by
  rw [escape, String.toList_ofList]
  refine substitute_induct Inert.nil (fun _ _ => Inert.append) ?_ ?_ s.toList
  -- later replacements find nothing to replace in the entity of a character
  · have hreplaced : ∀ r ∈ markupEntities,
        substitute markupEntities [r.1] = r.2.toList ∧ r.2 ∈ entityNames := by
      decide
    intro r hr
    rcases hreplaced r hr with ⟨heq, hname⟩
    rw [heq]
    exact Inert.entity hname
  · intro c hc
    have hkeys : ∀ d ∈ markupChars, d ∈ markupEntities.map Prod.fst := by
      simp [markupChars, markupEntities]
    refine Inert.singleton ?_ (hc _ List.mem_cons_self)
    intro hmem
    rcases List.mem_map.mp (hkeys c hmem) with ⟨r, hr, heq⟩
    exact hc r hr heq.symm

end Text

namespace Json

/-- A text that cannot end a script element or an attribute. -/
def ScriptInert (cs : List Char) : Prop := ∀ c ∈ cs, c ∉ ['<', '>', '&', '\'']

/-- The JSON of a value for a script is inert in a script. -/
theorem scriptInert_scriptSafe {v : Value} {text : String} (h : scriptSafe v = .ok text) :
    ScriptInert text.toList := by
  rcases hjson : write .strict (asObject v) with fault | json
  · simp [scriptSafe, hjson, bind, Except.bind] at h
  · simp [scriptSafe, hjson, bind, Except.bind, pure, Except.pure] at h
    rw [← h, String.toList_ofList]
    refine Text.substitute_induct (P := ScriptInert) ?_ ?_ ?_ ?_ json.toList
    · intro c hc
      cases hc
    · intro xs ys hx hy c hc
      exact (List.mem_append.mp hc).elim (hx c) (hy c)
    · have hreplaced : ∀ r ∈ scriptEscapes, Text.substitute scriptEscapes [r.1] = r.2.toList := by
        decide
      have hinert : ∀ r ∈ scriptEscapes, ∀ c ∈ r.2.toList, c ∉ ['<', '>', '&', '\''] := by
        simp [scriptEscapes]
      intro r hr
      rw [hreplaced r hr]
      exact hinert r hr
    · intro c hc d hd hmem
      -- what is left alone is none of the four, since each of them is replaced
      have hkeys : ∀ d ∈ ['<', '>', '&', '\''], d ∈ scriptEscapes.map Prod.fst := by
        simp [scriptEscapes]
      rw [List.mem_singleton.mp hd] at hmem
      rcases List.mem_map.mp (hkeys c hmem) with ⟨r, hr, heq⟩
      exact hc r hr heq.symm

end Json

end Curly
