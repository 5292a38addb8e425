import Curly.Proofs.Comparison
import Curly.Proofs.Honesty
import Curly.Proofs.Paths
import Curly.Proofs.Showing

/-!
# When rendering completes

A rendering comes to values that it looks up and shows, to conditions that it decides, and to loops
that it goes round. `Tree.Completes` says of a tree in a scope that each of these can be done where
the rendering comes to it; this is a matter of the tree and the data alone. A template gives a page
exactly if its own tree completes, with whatever engine and journal (`Engine.completes_iff`): what goes
wrong inside the templates that it embeds is recovered from there.

Over a mapping only the size of numbers and the keys of mappings stand in the way: a key is to be
written that is no scalar, a whole number has too many digits to be written or to be read, or a range
has more items than can be counted (`Failure.IsRefusal`).
-/

namespace Curly

/-! ## Looking up in a mapping -/

/-- A fault of a path in a mapping: a numeral in the path is too long, or the items of a range cannot
be counted. -/
def LookupFault.IsSize (fault : LookupFault) : Prop :=
  (∃ digits, fault = .numeral (.tooLongToRead digits)) ∨ fault = .tooManyItems

theorem Numeral.read_eq_error {cs : List Char} {fault : NumeralFault}
    (h : Numeral.read cs = .error fault) : fault = .tooLongToRead cs.length := by
  rw [Numeral.read] at h
  split at h
  · cases h
  · cases h
    rfl

namespace Value

theorem child?_eq_error {v : Value} {segment : String} {fault : LookupFault}
    (h : v.child? segment = .error fault) : fault.IsSize := by
  unfold child? at h
  split at h
  · cases h
  split at h
  swap
  · cases h
  split at h
  swap
  · cases h
  next place hindex =>
  rcases place with fault' | index
  · cases h
    unfold Path.index? at hindex
    dsimp only at hindex
    split at hindex
    · exact .inl ⟨_, congrArg _ (Numeral.read_eq_error (Option.some.inj hindex))⟩
    · cases hindex
  · -- only the items of a range are counted
    have hitem : v.item index = .error fault := h
    unfold item at hitem
    split at hitem
    · split at hitem <;> cases hitem
      exact .inr rfl
    · cases hitem

theorem descend?_eq_error {v : Value} {segments : List String} {fault : LookupFault}
    (h : v.descend? segments = .error fault) : fault.IsSize := by
  induction segments generalizing v with
  | nil => cases h
  | cons segment rest ih =>
    rw [descend?_cons] at h
    rcases hchild : v.child? segment with fault' | _ | w
    · rw [hchild] at h
      cases h
      exact child?_eq_error hchild
    · rw [hchild] at h
      cases h
    · rw [hchild] at h
      exact ih h

end Value

namespace Scope

/-- In a scope over a mapping a layer only answers for the names that it binds. -/
theorem get_push {s : Scope} {entries : Entries} (h : s.data.entries? = some entries)
    (bindings : Bindings) (name : String) :
    (s.push bindings).get name = (Bindings.get? name bindings).elim (s.get name) .ok := by
  have hpush : (s.push bindings).data.entries? = some entries := h
  rw [get_eq_ok hpush, get_eq_ok h, push, List.findSome?_cons]
  cases Bindings.get? name bindings with
  | none => rfl
  | some binding => rfl

/-- In a scope over a mapping sizes only keep a path from being looked up. -/
theorem value_eq_error {s : Scope} {entries : Entries} (h : s.data.entries? = some entries)
    {path : String} {fault : LookupFault} (hvalue : s.value path = .error fault) : fault.IsSize := by
  rcases hliteral : Path.literal? (Text.trim path.toList) with _ | read
  · by_cases hne : Text.trim path.toList = []
    · rw [s.value_of_trim_eq_nil hne] at hvalue
      cases hvalue
    · rw [s.value_eq_bind_get rfl hne hliteral, get_eq_ok h] at hvalue
      rcases hfound : (s.layers.findSome? (Bindings.get? (String.ofList
        (Text.split '.' (Text.trim path.toList)).1))).getD (entries.get? (String.ofList
          (Text.split '.' (Text.trim path.toList)).1)) with _ | u
      · rw [hfound] at hvalue
        cases hvalue
      · rw [hfound] at hvalue
        exact Value.descend?_eq_error hvalue
  · rw [s.value_of_literal? hliteral] at hvalue
    rcases read with fault' | v
    · cases hvalue
      obtain ⟨digits, rfl⟩ := Path.literal?_eq_error hliteral
      exact .inl ⟨digits, rfl⟩
    · cases hvalue

end Scope

/-- What data refuses over a mapping: a value that cannot be shown, or a path that cannot be looked
up, for the size of a number or for a key. -/
inductive Failure.IsRefusal : Failure → Prop where
  | shown {fault : Json.Fault} : fault.IsRefusal → IsRefusal (.notShown fault)
  | lookup {fault : LookupFault} : fault.IsSize → IsRefusal (.badLookup fault)

/-- In a scope over a mapping data causes no failures but refusals. -/
theorem Scope.Causes.isRefusal {s : Scope} {entries : Entries} {failure : Failure}
    (hcauses : s.Causes failure) (h : s.data.entries? = some entries) : failure.IsRefusal := by
  rcases hcauses with ⟨hlookup⟩ | @⟨path, v, fault, hvalue, hshown⟩
  · exact .lookup (s.value_eq_error h hlookup)
  · have hdecided := v.shown_decided
    rw [hshown] at hdecided
    exact .shown hdecided.2

/-! ## Failures of a rendering -/

/-- Work that fails in no other way than `E` allows. -/
def Run.FailsOnly {α : Type} (E : Failure → Prop) (work : Run α) : Prop :=
  ∀ j failure, (work.exec j).1 = .error failure → E failure

theorem Run.failsOnly_iff {α : Type} {E : Failure → Prop} {work : Run α} :
    Run.FailsOnly E work ↔ Run.Related (fun j j' => j' = j) (fun f _ => E f) (fun _ _ => True)
      work work := by
  constructor
  · rintro h _ j rfl
    refine ⟨?_, rfl⟩
    rcases hexec : (work.exec j).1 with failure | a
    · exact h j failure hexec
    · exact trivial
  · intro h j failure hexec
    have hagree := (h j j rfl).1
    rw [hexec] at hagree
    exact hagree

section Failures

variable {I : Scope → Prop} {E : Failure → Prop} (hcaused : ∀ s f, I s → s.Causes f → E f)
variable (hpushed : ∀ (s : Scope) bindings, I s → I (s.push bindings))

/-- A rendering in scopes of a kind, which layers keep, compared with itself. -/
def Comparison.within : Comparison where
  journals j j' := j' = j
  failures f _ := E f
  fragments _ _ := True
  scopes s s' := s' = s ∧ I s
  paths _ := True
  noted _ h := by rw [h]
  nil := trivial
  append _ _ := trivial
  agreed hs _ := by rw [hs.1]
  caused hs hcause := hcaused _ _ hs.2 hcause
  looped _ _ _ hs _ _ _ := ⟨by rw [hs.1], hpushed _ _ hs.2⟩

/-- A template that cannot be embedded, or fails, leaves a marker. -/
theorem Engine.exists_embed_eq_ok (e : Engine) (mode : Mode) (remaining : Nat) (chain : Chain)
    (s : Scope) (name : String) (j : Journal) :
    ∃ fs, (Run.exec (e.embed mode remaining chain s name) j).1 = .ok fs := by
  have hrecover : ∀ work : Run (List Fragment),
      ∃ fs, (Run.exec (Engine.recover name work) j).1 = .ok fs := by
    intro work
    rw [Engine.exec_recover]
    rcases work.exec j with ⟨failure | fs, k⟩
    · exact ⟨_, rfl⟩
    · exact ⟨_, rfl⟩
  cases remaining with
  | zero =>
    rw [embed_zero]
    exact hrecover _
  | succ below =>
    rw [embed_succ]
    exact hrecover _

include hcaused hpushed in
/-- A rendering fails only as data makes it fail. -/
theorem Engine.render_failsOnly (e : Engine) (mode : Mode) (template : Compiled) {s : Scope}
    (hs : I s) : Run.FailsOnly E (e.render mode template s) := by
  have hfits : (Comparison.within hcaused hpushed).Fits
      (e.embed mode e.settings.maxDepth.toNat (rootChain template.name))
      (e.embed mode e.settings.maxDepth.toNat (rootChain template.name)) template.tree := by
    refine ⟨fun _ _ _ _ => trivial, fun _ _ _ _ _ _ _ _ => trivial, ?_⟩
    rintro name _ _ u ⟨rfl, -⟩
    refine Run.failsOnly_iff.mp fun j failure hexec => ?_
    obtain ⟨fs, hfs⟩ := e.exists_embed_eq_ok mode _ _ u name j
    rw [hfs] at hexec
    cases hexec
  have hfragments : Run.FailsOnly E (e.fragments mode template s) := by
    rw [fragments_eq]
    exact Run.failsOnly_iff.mpr (Tree.render_related hfits ⟨rfl, hs⟩)
  intro j failure hexec
  rw [Engine.exec_render] at hexec
  rcases hrun : (Run.exec (e.fragments mode template s) j).1 with failure' | fs
  · rw [hrun] at hexec
    cases hexec
    exact hfragments j failure hrun
  · rw [hrun] at hexec
    cases hexec

end Failures

/-! ## Trees that complete -/

/-- Nothing is asked of the templates that are embedded. -/
def anyEmbedded : Scope → String → Prop := fun _ _ => True

/-- A path can be looked up, and what it leads to, if anything, can be shown. -/
def Scope.Shows (s : Scope) (path : String) : Prop :=
  ∃ found, s.value path = .ok found ∧ ∀ v, found = some v → v.isShowable

mutual

/-- All that a node comes to in a scope can be done, where `embed` says the same of the templates that
it embeds. -/
def Node.Completes (embed : Scope → String → Prop) (s : Scope) : Node → Prop
  | .value path | .html path => s.Shows path
  | .json path => ∃ found, s.value path = .ok found
  | .cond _ test body otherwise => ∃ met, test.holds s = .ok met ∧
    (met = true → Tree.Completes embed s body) ∧
    (met = false → match otherwise with
      | some nodes => Tree.Completes embed s nodes
      | none => True)
  | .each collection item index body => ∃ found, s.value collection = .ok found ∧
    ∀ (k : Nat) (x : Value), ((found.bind Value.items?).getD [])[k]? = some x →
      Tree.Completes embed (s.push (loopBindings item index k x)) body
  | .embed name => embed s name
  | .text _ | .bare => True

/-- All that the nodes of a tree come to in a scope can be done. -/
def Tree.Completes (embed : Scope → String → Prop) (s : Scope) : List Node → Prop
  | [] => True
  | n :: rest => n.Completes embed s ∧ Tree.Completes embed s rest

end

section Completes

variable {E : Scope → String → Prop} {s : Scope}

@[simp] theorem Tree.completes_nil : Tree.Completes E s [] := by
  rw [Tree.Completes]
  trivial

theorem Tree.completes_cons {n : Node} {rest : Tree} :
    Tree.Completes E s (n :: rest) ↔ n.Completes E s ∧ Tree.Completes E s rest := by
  rw [Tree.Completes]

@[simp] theorem Tree.completes_singleton {n : Node} :
    Tree.Completes E s [n] ↔ n.Completes E s := by
  rw [Tree.completes_cons, and_iff_left Tree.completes_nil]

theorem Tree.completes_append {t u : Tree} :
    Tree.Completes E s (t ++ u) ↔ Tree.Completes E s t ∧ Tree.Completes E s u := by
  induction t with
  | nil => simp
  | cons n rest ih => rw [List.cons_append, Tree.completes_cons, ih, Tree.completes_cons, and_assoc]

/-- A condition completes if it can be decided and the branch that it chooses completes. -/
theorem Node.completes_cond {condition : String} {test : Condition} {body : Tree}
    {other : Option Tree} :
    Node.Completes E s (.cond condition test body other) ↔
      ∃ met, test.holds s = .ok met ∧
        Tree.Completes E s (if met then body else other.getD []) := by
  cases other with
  | none =>
    rw [Node.Completes]
    refine exists_congr fun met => and_congr_right fun _ => ?_
    cases met <;> simp
  | some nodes =>
    rw [Node.Completes]
    refine exists_congr fun met => and_congr_right fun _ => ?_
    cases met <;> simp

/-- A loop completes if its collection can be looked up and its body completes for each item. -/
theorem Node.completes_each {collection item index : String} {body : Tree} :
    Node.Completes E s (.each collection item index body) ↔
      ∃ found, s.value collection = .ok found ∧
        ∀ (k : Nat) (x : Value), ((found.bind Value.items?).getD [])[k]? = some x →
          Tree.Completes E (s.push (loopBindings item index k x)) body := by
  rw [Node.Completes]

end Completes

/-! ## Work that gives a result -/

/-- Work that gives a result, whatever the journal, exactly if something holds. -/
def Run.GivesIff {α : Type} (work : Run α) (p : Prop) : Prop :=
  ∀ j, (∃ a, (work.exec j).1 = .ok a) ↔ p

namespace Run.GivesIff

variable {α β : Type} {p q : Prop}

theorem pure (a : α) : Run.GivesIff (Pure.pure a) True := fun _ => iff_of_true ⟨a, rfl⟩ trivial

theorem note (ns : List Notice) : Run.GivesIff (Curly.note ns) True :=
  fun _ => iff_of_true ⟨(), rfl⟩ trivial

theorem congr {work : Run α} (h : Run.GivesIff work p) (hpq : p ↔ q) : Run.GivesIff work q :=
  fun j => (h j).trans hpq

/-- Work in two steps gives a result if both steps do. -/
theorem bind {work : Run α} {next : α → Run β} (h : Run.GivesIff work p)
    (hnext : ∀ a, Run.GivesIff (next a) q) : Run.GivesIff (work >>= next) (p ∧ q) := by
  intro j
  rw [Run.exec_bind, ← h j]
  rcases work.exec j with ⟨failure | a, k⟩
  · exact iff_of_false (fun h => nomatch h.choose_spec) (fun h => nomatch h.1.choose_spec)
  · exact (hnext a k).trans (and_iff_right ⟨a, rfl⟩).symm

/-- A step that gives a certain value, if any, before another that depends on the value. -/
theorem ofExcept_bind (result : Except Failure α) {next : α → Run β} {P : α → Prop}
    (hnext : ∀ a, result = .ok a → Run.GivesIff (next a) (P a)) :
    Run.GivesIff (MonadExcept.ofExcept result >>= next) (∃ a, result = .ok a ∧ P a) := by
  intro j
  rw [Run.exec_bind, Run.exec_ofExcept]
  cases result with
  | error failure =>
    exact iff_of_false (fun h => nomatch h.choose_spec) (fun h => nomatch h.choose_spec.1)
  | ok a => exact (hnext a rfl j).trans (by simp)

end Run.GivesIff

/-- A loop gives a result if each pass does. -/
theorem renderItems_givesIff {body : Nat → Value → Run (List Fragment)} {P : Nat → Value → Prop}
    (h : ∀ k x, Run.GivesIff (body k x) (P k x)) (items : List Value) (k : Nat) :
    Run.GivesIff (renderItems body k items) (∀ i x, items[i]? = some x → P (k + i) x) := by
  induction items generalizing k with
  | nil =>
    refine (Run.GivesIff.pure []).congr (iff_of_true trivial fun i x hx => ?_)
    simp at hx
  | cons v rest ih =>
    rw [renderItems]
    refine ((h k v).bind fun fs => (ih (k + 1)).bind fun gs => .pure (fs ++ gs)).congr ?_
    constructor
    · rintro ⟨hfirst, hrest, -⟩ (_ | i) x hx
      · cases hx
        exact hfirst
      · rw [← Nat.succ_add_eq_add_succ]
        exact hrest i x hx
    · intro hall
      refine ⟨hall 0 v rfl, fun i x hx => ?_, trivial⟩
      have hlater := hall (i + 1) x hx
      rwa [← Nat.succ_add_eq_add_succ] at hlater

/-- A path that is looked up before further work. -/
theorem valueOf_bind_givesIff {s : Scope} {path : String} {α : Type}
    {next : Option Value → Run α} {P : Option Value → Prop}
    (hnext : ∀ found, s.value path = .ok found → Run.GivesIff (next found) (P found)) :
    Run.GivesIff (valueOf s path >>= next) (∃ found, s.value path = .ok found ∧ P found) := by
  rcases hvalue : s.value path with fault | found
  · intro j
    rw [Run.exec_bind, exec_valueOf, hvalue]
    exact iff_of_false (fun h => nomatch h.choose_spec) (fun h => nomatch h.choose_spec.1)
  · rw [valueOf_eq_pure hvalue, pure_bind]
    exact (hnext found hvalue).congr (by simp)

/-- What a value is shown as is there if the value can be shown. -/
theorem showValue_givesIff (v : Value) : Run.GivesIff (showValue v) (v.isShowable = true) := by
  intro j
  rw [exec_showValue]
  have hdecided := v.shown_decided
  rcases hshown : v.shown with fault | text
  · rw [hshown] at hdecided
    exact iff_of_false (fun h => nomatch h.choose_spec)
      (fun h => Bool.false_ne_true (hdecided.1.symm.trans h))
  · rw [hshown] at hdecided
    exact iff_of_true ⟨text, rfl⟩ hdecided

/-- A fragment of what a value is shown as. -/
theorem shown_givesIff (s : Scope) (path : String) (fragment : String → Fragment) :
    Run.GivesIff (do
      match ← valueOf s path with
      | none => return []
      | some v => return [fragment (← showValue v)]) (s.Shows path) := by
  refine valueOf_bind_givesIff fun found _ => ?_
  cases found with
  | none => exact (Run.GivesIff.pure []).congr (by simp)
  | some v =>
    exact ((showValue_givesIff v).bind fun text => .pure [fragment text]).congr (by simp)

theorem jsonFragment_givesIff (s : Scope) (path : String) :
    Run.GivesIff (jsonFragment s path) (∃ found, s.value path = .ok found) := by
  rw [jsonFragment]
  refine (valueOf_bind_givesIff (P := fun _ => True) fun found _ => ?_).congr (by simp)
  cases found with
  | none => exact .pure _
  | some v =>
    dsimp only
    rcases Json.scriptSafe v with fault | text
    · exact ((Run.GivesIff.note _).bind fun _ => .pure _).congr (by simp)
    · exact .pure _

theorem isMet_bind_givesIff {s : Scope} {test : Condition} {α : Type} {next : Bool → Run α}
    {P : Bool → Prop} (hnext : ∀ met, Run.GivesIff (next met) (P met)) :
    Run.GivesIff (isMet s test >>= next) (∃ met, test.holds s = .ok met ∧ P met) := by
  refine (Run.GivesIff.ofExcept_bind _ fun met _ => hnext met).congr ?_
  rcases test.holds s with fault | met
  · simp
  · simp

/-- The items of a loop are there if its collection can be looked up. -/
theorem loopItems_bind_givesIff {s : Scope} {collection : String} {α : Type}
    {next : List Value → Run α} {P : List Value → Prop}
    (hnext : ∀ items, Run.GivesIff (next items) (P items)) :
    Run.GivesIff (loopItems s collection >>= next)
      (∃ found, s.value collection = .ok found ∧ P ((found.bind Value.items?).getD [])) := by
  rw [loopItems, bind_assoc]
  refine valueOf_bind_givesIff fun found _ => ?_
  have hnone : ∀ ns, Run.GivesIff ((do
      note ns
      return []) >>= next) (P []) := by
    intro ns
    rw [bind_assoc]
    exact ((Run.GivesIff.note ns).bind fun _ => hnext []).congr (by simp)
  cases found with
  | none => exact hnone _
  | some v =>
    dsimp only
    rcases hitems : v.items? with _ | items
    · rw [Option.bind_some, hitems]
      exact hnone _
    · rw [Option.bind_some, hitems, pure_bind]
      exact hnext items

/-- A condition gives fragments if the branch that it chooses does. -/
theorem Node.cond_givesIff {embed : Scope → String → Run (List Fragment)}
    {E : Scope → String → Prop} {s : Scope} {condition : String} {test : Condition} {body : Tree}
    {other : Option Tree}
    (hbody : Run.GivesIff (Tree.render embed s body) (Tree.Completes E s body))
    (hother : Run.GivesIff (Tree.render embed s (other.getD []))
      (Tree.Completes E s (other.getD []))) :
    Run.GivesIff (Node.render embed s (.cond condition test body other))
      (Node.Completes E s (.cond condition test body other)) := by
  rw [Node.render_cond, Node.completes_cond]
  refine ((Run.GivesIff.note _).bind fun _ => isMet_bind_givesIff
    (P := fun met => Tree.Completes E s (if met then body else other.getD [])) fun met => ?_).congr
      (by simp)
  cases met with
  | true => exact hbody
  | false => exact hother

/-- Rendering a tree gives fragments exactly if the tree completes, if it is so for the templates
embedded in it. -/
theorem Tree.render_givesIff {embed : Scope → String → Run (List Fragment)}
    {E : Scope → String → Prop} (hembed : ∀ s name, Run.GivesIff (embed s name) (E s name))
    (t : Tree) (s : Scope) : Run.GivesIff (Tree.render embed s t) (Tree.Completes E s t) := by
  induction t using Tree.induct generalizing s with
  | nil => exact (Run.GivesIff.pure []).congr (by simp)
  | cons n rest ihn ih =>
    have hn := ihn s
    rw [Tree.render_singleton, Tree.completes_singleton] at hn
    rw [Tree.render_cons, Tree.completes_cons]
    exact (hn.bind fun fs => (ih s).bind fun gs => .pure (fs ++ gs)).congr (by simp)
  | leaf n hn =>
    rw [Tree.render_singleton, Tree.completes_singleton]
    cases n with
    | cond | each | embed => exact hn.elim
    | text text =>
      rw [Node.render, Node.Completes]
      exact .pure _
    | bare =>
      rw [Node.render, Node.Completes, bareFragment]
      exact ((Run.GivesIff.note _).bind fun _ => .pure _).congr (by simp)
    | value path =>
      rw [Node.render, Node.Completes]
      exact shown_givesIff s path fun text => .value (Text.escape text)
    | html path =>
      rw [Node.render, Node.Completes]
      exact shown_givesIff s path .html
    | json path =>
      rw [Node.render, Node.Completes]
      exact jsonFragment_givesIff s path
  | embed name =>
    rw [Tree.render_singleton, Tree.completes_singleton, Node.render, Node.Completes]
    exact hembed s name
  | cond condition test body ih =>
    rw [Tree.render_singleton, Tree.completes_singleton]
    exact Node.cond_givesIff (ih s) ((Run.GivesIff.pure []).congr (by simp))
  | condElse condition test body other ihbody ihother =>
    rw [Tree.render_singleton, Tree.completes_singleton]
    exact Node.cond_givesIff (ihbody s) (ihother s)
  | each collection item index body ih =>
    rw [Tree.render_singleton, Tree.completes_singleton, Node.render_each, Node.completes_each]
    -- the passes count from 0, and all of them have to give something
    refine loopItems_bind_givesIff (P := fun items => ∀ (k : Nat) (x : Value), items[k]? = some x →
      Tree.Completes E (s.push (loopBindings item index k x)) body) fun items => ?_
    refine (renderItems_givesIff (fun k x => ih _) items 0).congr ?_
    simp only [Nat.zero_add]

/-- A node without parts that completes yields fragments, and notices, whatever embeds templates and
whatever the journal is. -/
theorem Node.exists_yields_ok {n : Node} (hn : n.IsLeaf) {E : Scope → String → Prop} {s : Scope}
    (h : n.Completes E s) :
    ∃ fs ns, n.Yields s (.ok fs) ns ∧
      ∀ embed j, Run.exec (n.render embed s) j = (.ok fs, j.noting ns) := by
  obtain ⟨result, ns, hyields, hexec⟩ := Node.exists_yields hn s fun _ _ => pure []
  have hembed : ∀ (u : Scope) (name : String),
      Run.GivesIff (pure [] : Run (List Fragment)) (anyEmbedded u name) := fun _ _ => .pure []
  -- a leaf embeds nothing, so any way to embed will do
  have hgives := Tree.render_givesIff hembed [n] s (.start none)
  have hcompletes : Tree.Completes anyEmbedded s [n] := by
    rw [Tree.completes_singleton]
    cases n <;> first | exact hn.elim | exact h
  rw [Tree.render_singleton, hexec] at hgives
  obtain ⟨fs, rfl⟩ := hgives.mpr hcompletes
  refine ⟨fs, ns, hyields, fun embed j => ?_⟩
  rw [← hexec j, Node.render_congr_of_isLeaf hn (fun _ _ => rfl) _ embed]

/-- Induction on a tree that completes: on the branch that each condition chooses, and on the body of
each loop for each item. -/
@[elab_as_elim]
theorem Tree.completes_induct {E : Scope → String → Prop} {P : Scope → Tree → Prop}
    (nil : ∀ s, P s [])
    (cons : ∀ s n rest, P s [n] → P s rest → P s (n :: rest))
    (leaf : ∀ s n fs ns, Node.Yields s n (.ok fs) ns →
      (∀ embed j, Run.exec (n.render embed s) j = (.ok fs, j.noting ns)) → n.IsLeaf → P s [n])
    (embed : ∀ s name, E s name → P s [.embed name])
    (cond : ∀ s condition (test : Condition) body other met, test.holds s = .ok met →
      P s (if met then body else other.getD []) → P s [.cond condition test body other])
    (each : ∀ s collection item index body found, s.value collection = .ok found →
      (∀ (k : Nat) (x : Value), ((found.bind Value.items?).getD [])[k]? = some x →
        P (s.push (loopBindings item index k x)) body) → P s [.each collection item index body])
    {t : Tree} {s : Scope} (h : Tree.Completes E s t) : P s t := by
  induction t using Tree.induct generalizing s with
  | nil => exact nil s
  | cons n rest ihn ih =>
    rw [Tree.completes_cons] at h
    exact cons s n rest (ihn (Tree.completes_singleton.mpr h.1)) (ih h.2)
  | leaf n hn =>
    obtain ⟨fs, ns, hyields, hexec⟩ := Node.exists_yields_ok hn (Tree.completes_singleton.mp h)
    exact leaf s n fs ns hyields hexec hn
  | embed name =>
    rw [Tree.completes_singleton, Node.Completes] at h
    exact embed s name h
  | cond condition test body ih =>
    rw [Tree.completes_singleton, Node.completes_cond] at h
    obtain ⟨met, hmet, hbranch⟩ := h
    -- only the branch that is taken has to complete
    refine cond s condition test body none met hmet ?_
    cases met with
    | true => exact ih hbranch
    | false => exact nil s
  | condElse condition test body other ihbody ihother =>
    rw [Tree.completes_singleton, Node.completes_cond] at h
    obtain ⟨met, hmet, hbranch⟩ := h
    refine cond s condition test body (some other) met hmet ?_
    cases met with
    | true => exact ihbody hbranch
    | false => exact ihother hbranch
  | each collection item index body ih =>
    rw [Tree.completes_singleton, Node.completes_each] at h
    obtain ⟨found, hfound, hpasses⟩ := h
    exact each s collection item index body found hfound fun k x hx => ih (hpasses k x hx)

/-! ## Templates that complete -/

namespace Engine

/-- A template gives a page exactly if its tree completes. -/
theorem exists_page_iff (e : Engine) (mode : Mode) (template : Compiled) (s : Scope) (j : Journal) :
    (∃ page, (Run.exec (e.render mode template s) j).1 = .ok page) ↔
      Tree.Completes anyEmbedded s template.tree := by
  have hembed : ∀ u name, Run.GivesIff
      (e.embed mode e.settings.maxDepth.toNat (rootChain template.name) u name)
      (anyEmbedded u name) :=
    fun u name j => iff_of_true (e.exists_embed_eq_ok mode _ _ u name j) trivial
  have hfragments := Tree.render_givesIff hembed template.tree s
  rw [← fragments_eq] at hfragments
  rw [render_eq]
  exact ((hfragments.bind fun fs => .pure (printPage fs)).congr (and_iff_left trivial)) j

/-- A template gives a page exactly if its tree completes, and over a mapping it fails by a refusal
only: a value cannot be shown for a key in it that is no scalar, or for a number with too many digits,
or a path cannot be looked up for the digits of a number in it or for the length of a range. -/
theorem completes_iff {s : Scope} {entries : Entries} (h : s.data.entries? = some entries)
    (e : Engine) (mode : Mode) (template : Compiled) (j : Journal) :
    ((∃ page, (Run.exec (e.render mode template s) j).1 = .ok page) ↔
      Tree.Completes anyEmbedded s template.tree) ∧
    ∀ failure, (Run.exec (e.render mode template s) j).1 = .error failure → failure.IsRefusal := by
  refine ⟨e.exists_page_iff mode template s j, ?_⟩
  intro failure
  have hcaused : ∀ (u : Scope) f, u.data.entries? = some entries → u.Causes f → f.IsRefusal :=
    fun u f hu hcauses => hcauses.isRefusal hu
  exact e.render_failsOnly hcaused (fun _ _ hu => hu) mode template h j failure

/-- Rows of numbers. -/
def numbersRows : Entries := [(.str "rows", .list [.list [.int 1], .null])]

/-- A template that goes round a loop, shows what it finds there, and embeds another. -/
def numbersTemplate : Compiled :=
  ⟨[.each "rows" "row" "k" [.value "row.0", .value "k"], .embed "gone"], "page"⟩

/-- A row that is no list is shown as nothing, and without a source the other template leaves a
marker. -/
theorem completes_iff_rows :
    (Scope.ofData (.dict numbersRows)).data.entries? = some numbersRows ∧
    (Run.exec (Engine.render ⟨none, {}⟩ .blocking numbersTemplate (.ofData (.dict numbersRows)))
      (.start none)).1 = .ok "101<!-- Error loading component: gone -->" ∧
    Tree.Completes anyEmbedded (.ofData (.dict numbersRows)) numbersTemplate.tree := by
  have hentries : (Scope.ofData (.dict numbersRows)).data.entries? = some numbersRows := rfl
  have hpage : (Run.exec (Engine.render ⟨none, {}⟩ .blocking numbersTemplate
      (.ofData (.dict numbersRows))) (.start none)).1 =
        .ok "101<!-- Error loading component: gone -->" := rfl
  exact ⟨hentries, hpage,
    (completes_iff hentries ⟨none, {}⟩ .blocking numbersTemplate (.start none)).1.mp ⟨_, hpage⟩⟩

end Engine

/-! ## Templates that do not complete -/

/-- A whole number of so many digits. -/
def ones (digits : Nat) : String := String.ofList (List.replicate digits '1')

/-- A whole number of too many digits can be looked up nowhere. -/
theorem Scope.value_ones (s : Scope) {digits : Nat} (h : digitLimit < digits) :
    s.value (ones digits) = .error (.numeral (.tooLongToRead digits)) := by
  have hlist : (ones digits).toList = List.replicate digits '1' := String.toList_ofList
  have hdigits : ∀ c ∈ List.replicate digits '1', c.isDigit = true := by
    intro c hc
    rw [(List.mem_replicate.mp hc).2]
    rfl
  have hunblank : ∀ c ∈ List.replicate digits '1', Text.isBlank c = false :=
    fun c hc => Path.isBlank_of_isDigit (hdigits c hc)
  have htrim : Text.trim (ones digits).toList = List.replicate digits '1' := by
    rw [hlist]
    exact Text.trim_eq_self (fun c hc => hunblank c (List.mem_of_mem_head? hc))
      (fun c hc => hunblank c (List.mem_of_mem_getLast? hc))
  have hliteral := Path.literal?_of_tooLong hdigits (by rwa [List.length_replicate])
  rw [List.length_replicate] at hliteral
  rw [s.value_of_literal? (by rw [htrim]; exact hliteral)]
  rfl

/-- A number of too many digits makes a tree fail that shows nothing else. -/
theorem Tree.exec_render_ones (embed : Scope → String → Run (List Fragment)) (s : Scope) (j : Journal)
    {digits : Nat} (h : digitLimit < digits) :
    Run.exec (Tree.render embed s [.value (ones digits)]) j =
      (.error (.badLookup (.numeral (.tooLongToRead digits))), j) := by
  rw [Tree.render_singleton, Node.render, valueFragment, Run.exec_bind, exec_valueOf, s.value_ones h]
  rfl

namespace Engine

/-- A template that shows nothing but a number of too many digits fails. -/
theorem exec_render_ones (e : Engine) (mode : Mode) (name : String) (s : Scope) (j : Journal)
    {digits : Nat} (h : digitLimit < digits) :
    Run.exec (e.render mode ⟨[.value (ones digits)], name⟩ s) j =
      (.error (.badLookup (.numeral (.tooLongToRead digits))), j) := by
  rw [exec_render, fragments_eq, Tree.exec_render_ones _ _ _ h]
  rfl

/-- A mapping that has a pair for a key cannot be shown, and a number that is too long cannot even be
read. -/
theorem render_pairKey :
    (Run.exec (Engine.render ⟨none, {}⟩ .blocking ⟨[.value "x"], ""⟩
      (.ofData (.dict [(.str "x", .dict [(.tuple [.int 1, .int 2], .int 3)])]))) (.start none)).1 =
        .error (.notShown (.badKey "tuple")) ∧
    (Run.exec (Engine.render ⟨none, {}⟩ .blocking ⟨[.value (ones 5000)], ""⟩ (.ofData (.dict [])))
      (.start none)).1 = .error (.badLookup (.numeral (.tooLongToRead 5000))) := by
  refine ⟨rfl, ?_⟩
  rw [exec_render_ones _ _ _ _ _ (by decide)]

end Engine

end Curly
