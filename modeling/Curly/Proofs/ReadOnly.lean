import Curly.Proofs.Refusals
import Curly.Proofs.Trees
import Mathlib.Algebra.GroupWithZero.Nat
import Mathlib.Logic.Relation

/-!
# Read-only mappings

A read-only mapping has the entries of a dict, and may stand for it in data. How far it does when it
is put out depends on where the dict lies (`Site`), and `Value.frozen_alike` says how far. A dict
that lies in no other mapping is shown in the same way, and so is one in a read-only mapping that is
itself not written. In a mapping that is written a dict is written too, and a read-only mapping is
not: it becomes one string, or in JSON for scripts is refused. Only the value itself may be
read-only there.

One dict is replaced in one step (`Value.Freezes`). Such a step leaves the text of a value as it is
or takes an opening brace from it, and a brace that is lost never comes back, so a value that has
still its text in the end has lost none (`Value.Frozen.cases_shown`).
-/

namespace Curly

/-! ## Replacing dicts -/

/-- Where in a value a dict lies. -/
inductive Site where
  /-- It is the value. -/
  | top
  /-- In lists and tuples only. -/
  | apart
  /-- In a dict, and in no read-only mapping. -/
  | inDict
  /-- In a read-only mapping that lies in no other mapping. -/
  | inView
  /-- In a read-only mapping that lies in a mapping. -/
  | hidden
deriving DecidableEq, Repr

namespace Site

/-- The site in a list or a tuple of what has a site in one of its items. -/
def inItem : Site → Site
  | top => apart
  | site => site

/-- Whether what is there is written with the value, where a read-only mapping is not. -/
def isWritten : Site → Bool
  | top | apart | inDict => true
  | inView | hidden => false

/-- The site in a dict of what has a site in one of its values. -/
def inDictValue (site : Site) : Site := if site.isWritten then inDict else hidden

/-- The site in a read-only mapping of what has a site in one of its values. -/
def inViewValue (site : Site) : Site := if site.isWritten then inView else hidden

/-- Whether what is there is shown as a part of a mapping. -/
def isMember : Site → Bool
  | inDict | inView => true
  | top | apart | hidden => false

theorem inItem_ne_top (site : Site) : site.inItem ≠ top := by
  cases site <;> nofun

theorem inDictValue_ne_top (site : Site) : site.inDictValue ≠ top := by
  cases site <;> nofun

theorem inViewValue_ne_top (site : Site) : site.inViewValue ≠ top := by
  cases site <;> nofun

@[simp] theorem isWritten_inItem (site : Site) : site.inItem.isWritten = site.isWritten := by
  cases site <;> rfl

@[simp] theorem isMember_inItem (site : Site) : site.inItem.isMember = site.isMember := by
  cases site <;> rfl

@[simp] theorem isWritten_inDictValue (site : Site) :
    site.inDictValue.isWritten = site.isWritten := by
  cases site <;> rfl

@[simp] theorem isWritten_inViewValue (site : Site) : site.inViewValue.isWritten = false := by
  cases site <;> rfl

@[simp] theorem isMember_inDictValue (site : Site) :
    site.inDictValue.isMember = site.isWritten := by
  cases site <;> rfl

@[simp] theorem isMember_inViewValue (site : Site) :
    site.inViewValue.isMember = site.isWritten := by
  cases site <;> rfl

end Site

/-- One dict in the value, at a site, is replaced by a read-only mapping with the same entries in
the same order. -/
inductive Value.Freezes : Site → Value → Value → Prop where
  | here (entries : Entries) : Freezes .top (.dict entries) (.view entries)
  | list {site : Site} {v v' : Value} (before after : List Value) : Freezes site v v' →
      Freezes site.inItem (.list (before ++ v :: after)) (.list (before ++ v' :: after))
  | tuple {site : Site} {v v' : Value} (before after : List Value) : Freezes site v v' →
      Freezes site.inItem (.tuple (before ++ v :: after)) (.tuple (before ++ v' :: after))
  | dict {site : Site} {k : Key} {v v' : Value} (before after : Entries) : Freezes site v v' →
      Freezes site.inDictValue (.dict (before ++ (k, v) :: after)) (.dict (before ++ (k, v') :: after))
  | view {site : Site} {k : Key} {v v' : Value} (before after : Entries) : Freezes site v v' →
      Freezes site.inViewValue (.view (before ++ (k, v) :: after)) (.view (before ++ (k, v') :: after))

/-- Any number of dicts in the value, one after another, each at one of some sites, are replaced by
read-only mappings. -/
def Value.Frozen (sites : Site → Prop) : Value → Value → Prop :=
  Relation.ReflTransGen fun v v' => ∃ site, sites site ∧ v.Freezes site v'

/-! ## Texts that lose a brace -/

namespace Json

/-- The number of opening braces in a text. -/
def openings (text : String) : Nat := text.toList.count '\x7b'

theorem openings_append (a b : String) : openings (a ++ b) = openings a + openings b := by
  rw [openings, String.toList_append, List.count_append]
  rfl

theorem openings_intercalate (texts : List String) :
    openings (",".intercalate texts) = (texts.map openings).sum := by
  induction texts with
  | nil => rfl
  | cons text rest ih =>
    by_cases hne : rest = []
    · subst hne
      simp
    · rw [String.intercalate_cons_of_ne_nil hne, openings_append, openings_append, ih, List.map_cons,
        List.sum_cons]
      rfl

/-- A result with a text becomes one with a text that has fewer opening braces. -/
def Loses (result result' : Except Fault String) : Prop :=
  ∀ text, result = .ok text → ∃ text', result' = .ok text' ∧ openings text' < openings text

/-- What is made of a text, between other things, loses a brace with it. -/
theorem Loses.between {α β : Type} {result result' : Except Fault String} (h : Loses result result')
    (front : Except Fault α) (back : Except Fault β) {f : α → β → String → String}
    (hf : ∀ a b text text', openings text' < openings text →
      openings (f a b text') < openings (f a b text)) :
    Loses (do let a ← front; let text ← result; let b ← back; return f a b text)
      (do let a ← front; let text ← result'; let b ← back; return f a b text) := by
  intro whole hwhole
  rcases front with fault | a
  · cases hwhole
  rcases result with fault | text
  · cases hwhole
  rcases back with fault | b
  · cases hwhole
  obtain ⟨text', rfl, hlt⟩ := h text rfl
  cases hwhole
  exact ⟨f a b text', rfl, hf a b text text' hlt⟩

/-! ## Lists with one part replaced -/

section Parts

variable {α : Type} {f : α → Except Fault String} {a a' : α}

theorem mapM_middle (f : α → Except Fault String) (before after : List α) (a : α) :
    (before ++ a :: after).mapM f = do
      let front ← before.mapM f
      let text ← f a
      let back ← after.mapM f
      return front ++ text :: back := by
  rw [List.mapM_append, List.mapM_cons]
  simp only [bind_assoc, pure_bind]

/-- A list of texts stays as it is with each of its parts. -/
theorem mapM_congr_middle (h : f a' = f a) (before after : List α) :
    (before ++ a' :: after).mapM f = (before ++ a :: after).mapM f := by
  rw [mapM_middle, mapM_middle, h]

/-- A list of texts, between commas, loses a brace with each of its parts. -/
theorem Loses.list (h : Loses (f a) (f a')) (opening closing : String) (before after : List α) :
    Loses (do return opening ++ ",".intercalate (← (before ++ a :: after).mapM f) ++ closing)
      (do return opening ++ ",".intercalate (← (before ++ a' :: after).mapM f) ++ closing) := by
  rw [mapM_middle, mapM_middle]
  simp only [bind_assoc, pure_bind]
  apply h.between (before.mapM f) (after.mapM f)
  intro front back text text' hlt
  simp only [openings_append, openings_intercalate, List.map_append, List.map_cons, List.sum_append,
    List.sum_cons]
  omega

end Parts

/-! ## JSON -/

/-- A member of an object. -/
def writeEntry (mode : Mode) : Key × Value → Except Fault String
  | (k, v) => do
    let name ← key mode k
    let text ← write mode v
    return string name ++ ":" ++ text

theorem writeItems_eq_mapM (mode : Mode) (items : List Value) :
    writeItems mode items = items.mapM (write mode) := by
  induction items with
  | nil => rfl
  | cons v rest ih => rw [writeItems, ih, List.mapM_cons]

theorem writeEntries_eq_mapM (mode : Mode) (entries : Entries) :
    writeEntries mode entries = entries.mapM (writeEntry mode) := by
  induction entries with
  | nil => rfl
  | cons e rest ih =>
    rw [writeEntries, ih, List.mapM_cons, writeEntry]
    simp only [bind_assoc, pure_bind]

theorem Loses.entry {mode : Mode} {v v' : Value} (h : Loses (write mode v) (write mode v'))
    (k : Key) : Loses (writeEntry mode (k, v)) (writeEntry mode (k, v')) := by
  have hbetween := h.between (key mode k) (pure () : Except Fault Unit)
    (f := fun name _ text => string name ++ ":" ++ text) ?_
  · simpa only [writeEntry, pure_bind] using hbetween
  · intro name _ text text' hlt
    simp only [openings_append]
    omega

/-- A dict that is written loses a brace when it is replaced, and one that is not is replaced
without a trace. -/
theorem write_of_freezes {site : Site} {v v' : Value} (h : v.Freezes site v') :
    (site.isWritten = false → write .lenient v' = write .lenient v) ∧
      (site.isWritten → Loses (write .lenient v) (write .lenient v')) := by
  induction h with
  | here entries =>
    refine ⟨nofun, ?_⟩
    intro _ text htext
    -- the string of a read-only mapping has no brace, and an object has one at least
    refine ⟨string "ReadOnlyMap", rfl, ?_⟩
    have hview : openings (string "ReadOnlyMap") = 0 := by decide +kernel
    rw [write] at htext
    rcases hmembers : writeEntries .lenient entries with fault | members
    · rw [hmembers] at htext
      cases htext
    · rw [hmembers] at htext
      cases htext
      rw [hview, openings_append, openings_append]
      have hopening : openings "\x7b" = 1 := by decide +kernel
      omega
  | @list site v v' before after _ ih =>
    simp only [Site.isWritten_inItem, write, writeItems_eq_mapM]
    refine ⟨fun hsite => ?_, fun hsite => (ih.2 hsite).list "[" "]" before after⟩
    rw [mapM_congr_middle (ih.1 hsite)]
  | @tuple site v v' before after _ ih =>
    simp only [Site.isWritten_inItem, write, writeItems_eq_mapM]
    refine ⟨fun hsite => ?_, fun hsite => (ih.2 hsite).list "[" "]" before after⟩
    rw [mapM_congr_middle (ih.1 hsite)]
  | @dict site k v v' before after _ ih =>
    simp only [Site.isWritten_inDictValue, write, writeEntries_eq_mapM]
    refine ⟨fun hsite => ?_, fun hsite => ((ih.2 hsite).entry k).list "\x7b" "\x7d" before after⟩
    have hentry : writeEntry .lenient (k, v') = writeEntry .lenient (k, v) := by
      rw [writeEntry, writeEntry, ih.1 hsite]
    rw [mapM_congr_middle hentry]
  | @view site k v v' before after _ _ =>
    refine ⟨fun _ => rfl, fun hsite => ?_⟩
    rw [Site.isWritten_inViewValue] at hsite
    cases hsite

end Json

/-! ## Shown texts -/

namespace Value

open Json (Loses)

theorem shownItems_eq_mapM (items : List Value) : shownItems items = items.mapM shown := by
  induction items with
  | nil => rfl
  | cons v rest ih => rw [shownItems, ih, List.mapM_cons]

/-- The items of a list are shown between commas. -/
theorem shown_list (items : List Value) :
    (Value.list items).shown = do return "" ++ ",".intercalate (← items.mapM shown) ++ "" := by
  simp only [shown, shownItems_eq_mapM, String.empty_append, String.append_empty]

theorem shown_tuple (items : List Value) : (Value.tuple items).shown = (Value.list items).shown := by
  rw [shown, shown]

theorem shown_view (entries : Entries) : (Value.view entries).shown = (Value.dict entries).shown := by
  rw [shown, shown]

/-- A dict that is shown as a part of a mapping loses a brace when it is replaced, and any other is
replaced without a trace. -/
theorem shown_of_freezes {site : Site} {v v' : Value} (h : v.Freezes site v') :
    (site.isMember = false → v'.shown = v.shown) ∧ (site.isMember → Loses v.shown v'.shown) := by
  induction h with
  | here entries => exact ⟨fun _ => shown_view entries, nofun⟩
  | @list site v v' before after _ ih =>
    simp only [Site.isMember_inItem, shown_list]
    refine ⟨fun hsite => ?_, fun hsite => (ih.2 hsite).list "" "" before after⟩
    rw [Json.mapM_congr_middle (ih.1 hsite)]
  | @tuple site v v' before after _ ih =>
    simp only [Site.isMember_inItem, shown_tuple, shown_list]
    refine ⟨fun hsite => ?_, fun hsite => (ih.2 hsite).list "" "" before after⟩
    rw [Json.mapM_congr_middle (ih.1 hsite)]
  | @dict site k v v' before after hfreezes _ =>
    have hwrite := Json.write_of_freezes (hfreezes.dict (k := k) before after)
    simpa only [shown, Site.isMember_inDictValue, Site.isWritten_inDictValue] using hwrite
  | @view site k v v' before after hfreezes _ =>
    -- a read-only mapping is shown as the dict that it stands for
    have hwrite := Json.write_of_freezes (hfreezes.dict (k := k) before after)
    simpa only [shown, Site.isMember_inViewValue, Site.isWritten_inDictValue] using hwrite

/-- Any dicts that are no parts of mappings are replaced without a trace. -/
theorem Frozen.shown_eq {v v' : Value} (h : v.Frozen (·.isMember = false) v') :
    v'.shown = v.shown := by
  induction h with
  | refl => rfl
  | tail _ hstep ih =>
    obtain ⟨site, hsite, hfreezes⟩ := hstep
    rw [← ih]
    exact (shown_of_freezes hfreezes).1 hsite

/-- Whatever dicts are replaced, a value that is shown still is, and its text has lost a brace unless
none of them was a part of a mapping. -/
theorem Frozen.cases_shown {v v' : Value} (h : v.Frozen (fun _ => True) v') {text : String}
    (htext : v.shown = .ok text) : ∃ text', v'.shown = .ok text' ∧
      (Json.openings text' < Json.openings text ∨ v.Frozen (·.isMember = false) v') := by
  induction h with
  | refl => exact ⟨text, htext, .inr .refl⟩
  | tail _ hstep ih =>
    obtain ⟨site, -, hfreezes⟩ := hstep
    obtain ⟨text', htext', hcases⟩ := ih
    cases hsite : site.isMember with
    | true =>
      obtain ⟨text'', htext'', hlt⟩ := (shown_of_freezes hfreezes).2 hsite text' htext'
      refine ⟨text'', htext'', .inl ?_⟩
      rcases hcases with hless | hfrozen
      · exact Nat.lt_trans hlt hless
      · rw [hfrozen.shown_eq, htext] at htext'
        cases htext'
        exact hlt
    | false =>
      refine ⟨text', ?_, hcases.imp_right fun hfrozen => hfrozen.tail ⟨site, hsite, hfreezes⟩⟩
      rw [(shown_of_freezes hfreezes).1 hsite, htext']

/-- A value that is shown has the same text with some dicts replaced exactly if they can be replaced
at sites that are no parts of mappings. -/
theorem Frozen.shown_eq_iff {v v' : Value} (h : v.Frozen (fun _ => True) v') {text : String}
    (htext : v.shown = .ok text) : v'.shown = .ok text ↔ v.Frozen (·.isMember = false) v' := by
  constructor
  · intro htext'
    obtain ⟨text', hshown, hless | hfrozen⟩ := h.cases_shown htext
    · rw [htext'] at hshown
      cases hshown
      exact absurd hless (Nat.lt_irrefl _)
    · exact hfrozen
  · intro hfrozen
    rw [hfrozen.shown_eq, htext]

end Value

/-! ## JSON for scripts -/

namespace Json

/-- A value in which a dict has been replaced holds a read-only mapping. -/
theorem holdsForeign_of_freezes {site : Site} {v v' : Value} (h : v.Freezes site v') :
    HoldsForeign v' := by
  induction h with
  | here entries => exact ⟨_, .self _, trivial⟩
  | list before after _ ih => exact holdsForeign_list.mpr ⟨_, by simp, ih⟩
  | tuple before after _ ih => exact holdsForeign_tuple.mpr ⟨_, by simp, ih⟩
  | @dict site k v v' before after _ ih => exact holdsForeign_dict.mpr ⟨(k, v'), by simp, .inr ih⟩
  | view before after _ _ => exact ⟨_, .self _, trivial⟩

/-- At the top nothing has changed, and anywhere else there is a read-only mapping now, below the
top. -/
theorem asObject_of_freezes {site : Site} {v v' : Value} (h : v.Freezes site v') :
    (site = .top → asObject v' = asObject v) ∧ (site ≠ .top → HoldsForeign (asObject v')) := by
  cases h with
  | here entries => exact ⟨fun _ => rfl, fun hsite => (hsite rfl).elim⟩
  | @list site _ _ before after hfreezes =>
    exact ⟨fun hsite => (site.inItem_ne_top hsite).elim,
      fun _ => holdsForeign_of_freezes (hfreezes.list before after)⟩
  | @tuple site _ _ before after hfreezes =>
    exact ⟨fun hsite => (site.inItem_ne_top hsite).elim,
      fun _ => holdsForeign_of_freezes (hfreezes.tuple before after)⟩
  | @dict site k _ _ before after hfreezes =>
    exact ⟨fun hsite => (site.inDictValue_ne_top hsite).elim,
      fun _ => holdsForeign_of_freezes (hfreezes.dict before after)⟩
  | @view site k _ _ before after hfreezes =>
    exact ⟨fun hsite => (site.inViewValue_ne_top hsite).elim,
      fun _ => holdsForeign_of_freezes (hfreezes.dict before after)⟩

theorem scriptSafe_eq_of_frozen {v v' : Value} (h : v.Frozen (· = .top) v') :
    scriptSafe v' = scriptSafe v := by
  induction h with
  | refl => rfl
  | tail _ hstep ih =>
    obtain ⟨site, hsite, hfreezes⟩ := hstep
    rw [← ih, scriptSafe, scriptSafe, (asObject_of_freezes hfreezes).1 hsite]

/-- With some dicts replaced a value has JSON for scripts exactly if it had it before, and no dict but
the value itself has been replaced. -/
theorem scriptSafe_eq_ok_iff_of_frozen {v v' : Value} (h : v.Frozen (fun _ => True) v')
    {text : String} :
    scriptSafe v' = .ok text ↔ scriptSafe v = .ok text ∧ v.Frozen (· = .top) v' := by
  constructor
  · intro htext
    induction h with
    | refl => exact ⟨htext, .refl⟩
    | @tail u w _ hstep ih =>
      obtain ⟨site, -, hfreezes⟩ := hstep
      by_cases hsite : site = .top
      · have hlast : u.Frozen (· = .top) w := .single ⟨site, hsite, hfreezes⟩
        rw [scriptSafe_eq_of_frozen hlast] at htext
        obtain ⟨hstart, hfrozen⟩ := ih htext
        exact ⟨hstart, hfrozen.trans hlast⟩
      · -- a read-only mapping below the top is refused
        obtain ⟨fault, hfault⟩ :=
          (scriptSafe_fails_iff w).mpr ((asObject_of_freezes hfreezes).2 hsite)
        rw [hfault] at htext
        cases htext
  · rintro ⟨htext, hfrozen⟩
    rw [scriptSafe_eq_of_frozen hfrozen, htext]

end Json

/-! ## Tags over data with read-only mappings -/

section Tags

variable {embed : Scope → String → Run (List Fragment)} {s s' : Scope} {path : String} {v v' : Value}

/-- Values that are shown alike are put out alike, escaped or as they are. -/
theorem Node.render_value_congr (hs : s.value path = .ok (some v))
    (hs' : s'.value path = .ok (some v')) (h : v'.shown = v.shown) :
    (Node.value path).render embed s' = (Node.value path).render embed s ∧
      (Node.html path).render embed s' = (Node.html path).render embed s := by
  have hshow : showValue v' = showValue v := by rw [showValue, showValue, h]
  constructor
  · rw [Node.render, Node.render, valueFragment, valueFragment, valueOf_eq_pure hs,
      valueOf_eq_pure hs', pure_bind, pure_bind]
    simp only [hshow]
  · rw [Node.render, Node.render, htmlFragment, htmlFragment, valueOf_eq_pure hs,
      valueOf_eq_pure hs', pure_bind, pure_bind]
    simp only [hshow]

/-- Values with the same JSON are put out alike as JSON. -/
theorem Node.render_json_congr (hs : s.value path = .ok (some v))
    (hs' : s'.value path = .ok (some v')) (h : Json.scriptSafe v' = Json.scriptSafe v) :
    (Node.json path).render embed s' = (Node.json path).render embed s := by
  rw [Node.render, Node.render, jsonFragment, jsonFragment, valueOf_eq_pure hs, valueOf_eq_pure hs',
    pure_bind, pure_bind]
  simp only [h]

end Tags

namespace Value

/-- How far read-only mappings are as good as dicts. Whatever dicts in a value are replaced, it has
the same shown text as before, or the same failure, if none of them is a part of a mapping that is
written with it, and a text that was shown is the same in no other case. It has the same JSON for
scripts, or the same failure, if no dict but the value itself is replaced, and it has JSON in no
other case. Where the two are the same, tags over the two values put out the same. -/
theorem frozen_alike {v v' : Value} (h : v.Frozen (fun _ => True) v') :
    (v.Frozen (·.isMember = false) v' → v'.shown = v.shown) ∧
    (∀ text, v.shown = .ok text →
      (v'.shown = .ok text ↔ v.Frozen (·.isMember = false) v')) ∧
    (v.Frozen (· = .top) v' → Json.scriptSafe v' = Json.scriptSafe v) ∧
    (∀ text, Json.scriptSafe v' = .ok text ↔
      Json.scriptSafe v = .ok text ∧ v.Frozen (· = .top) v') ∧
    ∀ (embed : Scope → String → Run (List Fragment)) (s s' : Scope) (path : String),
      s.value path = .ok (some v) → s'.value path = .ok (some v') →
      (v.Frozen (·.isMember = false) v' →
        (Node.value path).render embed s' = (Node.value path).render embed s ∧
        (Node.html path).render embed s' = (Node.html path).render embed s) ∧
      (v.Frozen (· = .top) v' →
        (Node.json path).render embed s' = (Node.json path).render embed s) := by
  refine ⟨Frozen.shown_eq, fun _ => h.shown_eq_iff, Json.scriptSafe_eq_of_frozen,
    fun _ => Json.scriptSafe_eq_ok_iff_of_frozen h, ?_⟩
  intro embed s s' path hs hs'
  constructor
  · intro hfrozen
    exact Node.render_value_congr hs hs' hfrozen.shown_eq
  · intro hfrozen
    exact Node.render_json_congr hs hs' (Json.scriptSafe_eq_of_frozen hfrozen)

/-- In a list a read-only mapping is shown as a dict is, but it has no JSON for scripts. -/
theorem frozen_alike_list :
    let rows := list [dict [(.str "x", .int 1)]]
    let rows' := list [view [(.str "x", .int 1)]]
    rows.Frozen (fun _ => True) rows' ∧ rows.Frozen (·.isMember = false) rows' ∧
      rows'.shown = rows.shown ∧ Json.scriptSafe rows' = .error (.unsupported "ReadOnlyMap") := by
  intro rows rows'
  have hstep : rows.Freezes .apart rows' := .list [] [] (.here _)
  have hfrozen : rows.Frozen (fun _ => True) rows' := .single ⟨.apart, trivial, hstep⟩
  have hapart : rows.Frozen (·.isMember = false) rows' := .single ⟨.apart, rfl, hstep⟩
  exact ⟨hfrozen, hapart, (frozen_alike hfrozen).1 hapart, by rfl⟩

/-- In a dict a read-only mapping is neither shown as a dict is nor has it JSON for scripts. -/
theorem frozen_ne_nested :
    let nested := dict [(.str "a", dict [(.str "x", .int 1)])]
    let nested' := dict [(.str "a", view [(.str "x", .int 1)])]
    nested.Frozen (fun _ => True) nested' ∧
      nested.shown = .ok "\x7b\"a\":\x7b\"x\":1\x7d\x7d" ∧
      nested'.shown = .ok "\x7b\"a\":\"ReadOnlyMap\"\x7d" ∧
      Json.scriptSafe nested = .ok "\x7b\"a\":\x7b\"x\":1\x7d\x7d" ∧
      Json.scriptSafe nested' = .error (.unsupported "ReadOnlyMap") := by
  intro nested nested'
  exact ⟨.single ⟨_, trivial, .dict [] [] (.here _)⟩, by rfl, by rfl, by rfl, by rfl⟩

end Value

end Curly
