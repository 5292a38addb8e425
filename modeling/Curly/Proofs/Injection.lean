import Curly.Proofs.Escaping
import Curly.Proofs.Grammar
import Curly.Proofs.Inlining
import Curly.Proofs.Provenance

/-!
# Data brings no markup into a page

A page without `html` fragments has its markup from templates alone: a shown value is escaped, JSON
for a script has no character of markup left, and so each angle bracket of the page stands in a text
of a template or in the marker of a template that could not be embedded.
-/

namespace Curly

/-! ## The characters of a page -/

@[simp] theorem printPage_nil : printPage [] = "" := rfl

theorem toList_printPage_cons (f : Fragment) (fs : List Fragment) :
    (printPage (f :: fs)).toList = f.print.toList ++ (printPage fs).toList := by
  rw [printPage, List.map_cons, String.join_cons, String.toList_append]
  rfl

/-- Each character of a page stands in one of its fragments. -/
theorem exists_fragment_of_mem_page {fs : List Fragment} {before after : List Char} {c : Char}
    (h : (printPage fs).toList = before ++ c :: after) :
    ∃ earlier f later own rest, fs = earlier ++ f :: later ∧ f.print.toList = own ++ c :: rest ∧
      before = (printPage earlier).toList ++ own ∧ after = rest ++ (printPage later).toList := by
  induction fs generalizing before with
  | nil => simp at h
  | cons f fs ih =>
    rw [toList_printPage_cons] at h
    -- the character stands after the first fragment, or in it
    rcases List.append_eq_append_iff.mp h with ⟨inner, rfl, hrest⟩ | ⟨inner, hprint, hrest⟩
    · rcases ih hrest with ⟨earlier, g, later, own, rest, rfl, hg, rfl, rfl⟩
      refine ⟨f :: earlier, g, later, own, rest, rfl, hg, ?_, rfl⟩
      rw [toList_printPage_cons, List.append_assoc]
    · cases inner with
      | nil =>
        have hpage : (printPage fs).toList = [] ++ c :: after := hrest.symm
        rcases ih hpage with ⟨earlier, g, later, own, rest, rfl, hg, hown, rfl⟩
        refine ⟨f :: earlier, g, later, own, rest, rfl, hg, ?_, rfl⟩
        rw [toList_printPage_cons, List.append_assoc, ← hown, hprint, List.append_nil,
          List.append_nil]
      | cons d inner =>
        rw [List.cons_append, List.cons.injEq] at hrest
        rcases hrest with ⟨rfl, rfl⟩
        exact ⟨[], f, fs, before, inner, rfl, hprint, rfl, rfl⟩

/-! ## Fragments without markup of the data -/

/-- What a fragment keeps the data from: escaped text is inert in markup, and JSON is inert in a
script. The fragments that carry a value as it is keep it from nothing. -/
def Fragment.Inert : Fragment → Prop
  | .text _ | .marker _ => True
  | .value t => Text.Inert t.toList
  | .json t => Json.ScriptInert t.toList
  | .html _ => False

/-- A fragment that carries nothing of the data: text of a template, or the marker of a name. -/
def Fragment.IsOwn : Fragment → Prop
  | .text _ | .marker _ => True
  | .value _ | .json _ | .html _ => False

/-- A fragment is inert if it was not made by a node that shows a value as it is. -/
theorem Fragment.IsMade.inert {P : Node → Prop} {f : Fragment} (h : f.IsMade P)
    (hfree : ∀ path, ¬ P (.html path)) : f.Inert := by
  cases h with
  | text _ => trivial
  | value _ _ => exact Text.inert_escape _
  | json _ hjson => exact Json.scriptInert_scriptSafe hjson
  | null _ =>
    unfold Inert Json.ScriptInert
    simp
  | html hnode _ => exact (hfree _ hnode).elim
  | marker _ => trivial

/-- An inert fragment with an angle bracket carries nothing of the data. -/
theorem Fragment.Inert.isOwn {f : Fragment} (h : f.Inert) {c : Char} (hc : c ∈ f.print.toList)
    (hangle : c = '<' ∨ c = '>') : f.IsOwn := by
  cases f with
  | text _ => trivial
  | marker _ => trivial
  | html _ => exact h.elim
  | value text =>
    have hplain := Text.Inert.plain h c hc
    rcases hangle with rfl | rfl
    · exact (hplain (by decide)).elim
    · exact (hplain (by decide)).elim
  | json text =>
    have hplain : c ∉ ['<', '>', '&', '\''] := h c hc
    rcases hangle with rfl | rfl
    · exact (hplain (by decide)).elim
    · exact (hplain (by decide)).elim

namespace Engine

/-- Data brings no markup into the page of a template that neither contains nor embeds a node that
shows a value as it is. The page is that of its fragments one after another. Each is made by a node
of the template or of one that it embeds, and is inert; so each angle bracket of the page stands in
a fragment that carries nothing of the data. -/
theorem render_inert (e : Engine) (mode : Mode) (template : Compiled) (s : Scope) {j : Journal}
    (hj : j.Genuine) (hfree : ∀ path, ¬ e.Contains mode template.tree (.html path)) {page : String}
    (h : (Run.exec (e.render mode template s) j).1 = .ok page) :
    ∃ fs, (Run.exec (e.fragments mode template s) j).1 = .ok fs ∧ page = printPage fs ∧
      (∀ f ∈ fs, f.IsMade (e.Contains mode template.tree) ∧ f.Inert) ∧
      ∀ before c after, page.toList = before ++ c :: after → c = '<' ∨ c = '>' →
        ∃ earlier f later own rest, fs = earlier ++ f :: later ∧ f.IsOwn ∧
          f.print.toList = own ++ c :: rest ∧ before = (printPage earlier).toList ++ own ∧
          after = rest ++ (printPage later).toList := by
  rcases hrun : Run.exec (e.fragments mode template s) j with ⟨failure | fs, k⟩
  · rw [exec_render, hrun] at h
    cases h
  · rw [exec_render, hrun] at h
    cases h
    have hmade := (e.fragments_made mode template s j hj).1 fs (by rw [hrun])
    have hinert : ∀ f ∈ fs, f.Inert := fun f hf => (hmade f hf).inert hfree
    refine ⟨fs, rfl, rfl, fun f hf => ⟨hmade f hf, hinert f hf⟩, ?_⟩
    intro before c after hpage hangle
    -- the bracket is in some fragment, and a fragment with one in it is the template's own
    obtain ⟨earlier, f, later, own, rest, rfl, hprint, hbefore, hafter⟩ :=
      exists_fragment_of_mem_page hpage
    refine ⟨earlier, f, later, own, rest, rfl, ?_, hprint, hbefore, hafter⟩
    refine (hinert f (by simp)).isOwn (c := c) ?_ hangle
    rw [hprint]
    exact List.mem_append_right own List.mem_cons_self

/-- A page that shows a value, also to a script, and embeds a template that there is and one that there
is not. -/
def scriptTemplate : Compiled :=
  ⟨[.text "<p>", .value "x", .json "x", .embed "note", .embed "gone"], "page"⟩

/-- A value with markup in it. -/
def markupData : Value := .dict [(.str "x", .str "<b>")]

/-- The page has the markup of the value in no fragment. -/
theorem render_inert_page :
    (Journal.start none).Genuine ∧
    (∀ path, ¬ noteEngine.Contains .blocking scriptTemplate.tree (.html path)) ∧
    ∃ page fs, (Run.exec (noteEngine.render .blocking scriptTemplate (.ofData markupData))
        (.start none)).1 = .ok page ∧
      page = printPage fs ∧ ∀ f ∈ fs, f.Inert := by
  have hgenuine : (Journal.start none).Genuine := fun c hc => nomatch hc
  have hfree : ∀ path, ¬ noteEngine.Contains .blocking scriptTemplate.tree (.html path) := by
    intro path h
    have hocc := noteEngine_occurs rfl h
    rw [Tree.occurs_iff_mem_symbols (x := .tag (.html path)) rfl] at hocc
    simp [scriptTemplate, Tree.symbols, Node.symbols] at hocc
  have hplain : (Scope.ofData markupData).Plain := by
    refine ⟨⟨_, rfl, ?_⟩, fun layer hlayer => by cases hlayer⟩
    intro k v hmem
    cases List.mem_singleton.mp hmem
    rfl
  have hreadable : Tree.isReadable scriptTemplate.tree := by decide
  obtain ⟨page, hpage⟩ := (noteEngine.exists_page_iff .blocking scriptTemplate _ (.start none)).mpr
    (hplain.completes hreadable)
  rcases render_inert _ _ _ _ hgenuine hfree hpage with ⟨fs, -, heq, hinert, -⟩
  exact ⟨hgenuine, hfree, page, fs, hpage, heq, fun f hf => (hinert f hf).2⟩

end Engine

end Curly
