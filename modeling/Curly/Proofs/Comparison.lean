import Curly.Proofs.Trees

/-!
# Comparing renderings

Two runs of the work on templates are compared by what they do to related journals: they both
give a result or both fail, with related outcomes, and leave related journals (`Run.Related`).
A `Comparison` says what is related to what, and that notices, lists of fragments and loops keep it
so. Then two renderings of a tree are related as soon as the templates embedded in it are
(`Tree.render_related`): the induction on the tree is made once, here.

A run may be compared with itself. This is how a property of all results and all journals is shown,
and a comparison that relates no failures shows that there is none.
-/

namespace Curly

variable {α β γ δ : Type}

/-- How two outcomes compare: results by `P` and failures by `E`. A result and a failure do not. -/
def Run.Agree (E : Failure → Failure → Prop) (P : α → β → Prop) :
    Except Failure α → Except Failure β → Prop
  | .ok a, .ok b => P a b
  | .error f, .error g => E f g
  | _, _ => False

/-- Where no failures are related, outcomes that agree are results. -/
theorem Run.Agree.exists_ok {P : α → β → Prop} {result : Except Failure α}
    {result' : Except Failure β} (h : Run.Agree (fun _ _ => False) P result result') :
    ∃ a b, result = .ok a ∧ result' = .ok b ∧ P a b := by
  cases result with
  | error f => cases result' <;> exact h.elim
  | ok a =>
    cases result' with
    | error g => exact h.elim
    | ok b => exact ⟨a, b, rfl, rfl, h⟩

/-- Outcomes that agree in all are equal. -/
theorem Run.Agree.eq {result result' : Except Failure α}
    (h : Run.Agree Eq Eq result result') : result = result' := by
  cases result with
  | error f =>
    cases result' with
    | error g => exact congrArg Except.error h
    | ok b => exact h.elim
  | ok a =>
    cases result' with
    | error g => exact h.elim
    | ok b => exact congrArg Except.ok h

theorem Run.agree_refl (result : Except Failure α) : Run.Agree Eq Eq result result := by
  cases result with
  | error f => exact rfl
  | ok a => exact rfl

/-- Two runs that have outcomes that agree and leave related journals, when they begin with such. -/
def Run.Related (R : Journal → Journal → Prop) (E : Failure → Failure → Prop) (P : α → β → Prop)
    (work : Run α) (work' : Run β) : Prop :=
  ∀ j j', R j j' →
    Run.Agree E P (work.exec j).1 (work'.exec j').1 ∧ R (work.exec j).2 (work'.exec j').2

namespace Run.Related

variable {R : Journal → Journal → Prop} {E : Failure → Failure → Prop}
variable {P : α → β → Prop} {Q : γ → δ → Prop}

theorem pure {a : α} {b : β} (h : P a b) : Run.Related R E P (Pure.pure a) (Pure.pure b) := by
  intro j j' hj
  exact ⟨h, hj⟩

theorem throw {f g : Failure} (h : E f g) :
    Run.Related R E P (MonadExcept.throw f) (MonadExcept.throw g) := by
  intro j j' hj
  exact ⟨h, hj⟩

theorem bind {work : Run α} {work' : Run β} {next : α → Run γ} {next' : β → Run δ}
    (h : Run.Related R E P work work')
    (hnext : ∀ a b, P a b → Run.Related R E Q (next a) (next' b)) :
    Run.Related R E Q (work >>= next) (work' >>= next') := by
  intro j j' hj
  have h := h j j' hj
  rw [Run.exec_bind, Run.exec_bind]
  -- outcomes of different kinds do not agree: both failed, or both go on
  rcases hw : work.exec j with ⟨f | a, k⟩ <;> rcases hw' : work'.exec j' with ⟨g | b, k'⟩ <;>
    rw [hw, hw'] at h
  · exact h
  · exact h.1.elim
  · exact h.1.elim
  · exact hnext a b h.1 k k' h.2

/-- Handlers of related failures keep runs related. -/
theorem tryCatch {work : Run α} {work' : Run β} {handler : Failure → Run α}
    {handler' : Failure → Run β} (h : Run.Related R E P work work')
    (hfail : ∀ f g, E f g → Run.Related R E P (handler f) (handler' g)) :
    Run.Related R E P (MonadExcept.tryCatch work handler)
      (MonadExcept.tryCatch work' handler') := by
  intro j j' hj
  have h := h j j' hj
  rw [Run.exec_tryCatch, Run.exec_tryCatch]
  rcases hw : work.exec j with ⟨f | a, k⟩ <;> rcases hw' : work'.exec j' with ⟨g | b, k'⟩ <;>
    rw [hw, hw'] at h
  · exact hfail f g h.1 k k' h.2
  · exact h.1.elim
  · exact h.1.elim
  · exact h

/-- Notices keep runs related if they keep journals so. -/
theorem note {ns : List Notice} (h : ∀ j j', R j j' → R (j.noting ns) (j'.noting ns)) :
    Run.Related R E Eq (Curly.note ns) (Curly.note ns) := by
  intro j j' hj
  exact ⟨rfl, h j j' hj⟩

end Run.Related

/-- The renderings of the items of a loop are related if that of each item is. -/
theorem renderItems_related {R : Journal → Journal → Prop} {E : Failure → Failure → Prop}
    {P : List Fragment → List Fragment → Prop} (hnil : P [] [])
    (happend : ∀ fs gs fs' gs', P fs fs' → P gs gs' → P (fs ++ gs) (fs' ++ gs'))
    {body body' : Nat → Value → Run (List Fragment)} {items : List Value} {k : Nat}
    (hbody : ∀ i v, items[i]? = some v → Run.Related R E P (body (k + i) v) (body' (k + i) v)) :
    Run.Related R E P (renderItems body k items) (renderItems body' k items) := by
  induction items generalizing k with
  | nil => exact .pure hnil
  | cons v rest ih =>
    refine .bind (hbody 0 v rfl) ?_
    intro fs fs' hfs
    have hrest : ∀ i w, rest[i]? = some w →
        Run.Related R E P (body (k + 1 + i) w) (body' (k + 1 + i) w) := by
      intro i w hw
      rw [Nat.succ_add_eq_add_succ]
      exact hbody (i + 1) w hw
    refine .bind (ih hrest) ?_
    intro gs gs' hgs
    exact .pure (happend fs gs fs' gs' hfs hgs)

/-! ## Comparisons -/

/-- A failure that data can cause in a scope: a path that cannot be looked up, or a value that
cannot be shown. -/
inductive Scope.Causes (s : Scope) : Failure → Prop where
  | lookup {path : String} {fault : LookupFault} :
      s.value path = .error fault → Causes s (.badLookup fault)
  | shown {path : String} {v : Value} {fault : Json.Fault} :
      s.value path = .ok (some v) → v.shown = .error fault → Causes s (.notShown fault)

/-- What is compared with what in two renderings. -/
structure Comparison where
  journals : Journal → Journal → Prop
  failures : Failure → Failure → Prop
  fragments : List Fragment → List Fragment → Prop
  scopes : Scope → Scope → Prop
  /-- The paths that related scopes agree on. -/
  paths : String → Prop
  noted : ∀ {j j' : Journal} (ns : List Notice), journals j j' →
    journals (j.noting ns) (j'.noting ns)
  nil : fragments [] []
  append : ∀ {fs gs fs' gs' : List Fragment}, fragments fs fs' → fragments gs gs' →
    fragments (fs ++ gs) (fs' ++ gs')
  agreed : ∀ {s s' : Scope} {path : String}, scopes s s' → paths path → s'.value path = s.value path
  caused : ∀ {s s' : Scope} {f : Failure}, scopes s s' → s.Causes f → failures f f
  looped : ∀ {s s' : Scope} {path : String} {v x : Value} {items : List Value} (item index : String)
    (k : Nat), scopes s s' → s.value path = .ok (some v) → v.items? = some items → x ∈ items →
    scopes (s.push (loopBindings item index k x)) (s'.push (loopBindings item index k x))

namespace Comparison

/-- The comparison of two renderings in one scope. -/
def inOneScope (journals : Journal → Journal → Prop) (failures : Failure → Failure → Prop)
    (fragments : List Fragment → List Fragment → Prop)
    (noted : ∀ {j j' : Journal} (ns : List Notice), journals j j' →
      journals (j.noting ns) (j'.noting ns))
    (nil : fragments [] [])
    (append : ∀ {fs gs fs' gs' : List Fragment}, fragments fs fs' → fragments gs gs' →
      fragments (fs ++ gs) (fs' ++ gs'))
    (refl : ∀ f, failures f f) : Comparison where
  journals := journals
  failures := failures
  fragments := fragments
  scopes s s' := s' = s
  paths _ := True
  noted := noted
  nil := nil
  append := append
  agreed hs _ := by rw [hs]
  caused _ _ := refl _
  looped _ _ _ hs _ _ _ := by rw [hs]

variable {C : Comparison}

/-- Two runs that a comparison relates. -/
abbrev Related (C : Comparison) (work work' : Run (List Fragment)) : Prop :=
  Run.Related C.journals C.failures C.fragments work work'

theorem note_related (ns : List Notice) :
    Run.Related C.journals C.failures Eq (note ns) (note ns) :=
  .note fun _ _ => C.noted ns

/-- Related scopes give one value, or fail alike, at a path that they agree on. -/
theorem valueOf_related {s s' : Scope} {path : String} (hs : C.scopes s s') (hp : C.paths path) :
    Run.Related C.journals C.failures (fun v v' => v = v' ∧ s.value path = .ok v) (valueOf s path)
      (valueOf s' path) := by
  have hv : valueOf s' path = valueOf s path := by rw [valueOf, valueOf, C.agreed hs hp]
  rw [hv]
  rcases hs' : s.value path with fault | found
  · rw [valueOf, hs']
    exact .throw (C.caused hs (.lookup hs'))
  · rw [valueOf, hs']
    exact .pure ⟨rfl, rfl⟩

/-- Related scopes choose one branch, or fail alike, for a condition on a path that they agree
on. -/
theorem isMet_related {s s' : Scope} {test : Condition} (hs : C.scopes s s')
    (hp : ∀ path, test.path? = some path → C.paths path) :
    Run.Related C.journals C.failures Eq (isMet s test) (isMet s' test) := by
  cases test with
  | invalid text reason => exact .pure rfl
  | path path =>
    rw [isMet, isMet, Condition.holds, Condition.holds, C.agreed hs (hp path rfl)]
    rcases hv : s.value path with fault | found
    · exact .throw (C.caused hs (.lookup hv))
    · exact .pure rfl
  | negated path =>
    rw [isMet, isMet, Condition.holds, Condition.holds, C.agreed hs (hp path rfl)]
    rcases hv : s.value path with fault | found
    · exact .throw (C.caused hs (.lookup hv))
    · exact .pure rfl

/-- A node without parts puts out related fragments if each list that it yields is related to
itself. -/
theorem leaf_related {n : Node} (hn : n.IsLeaf) {s s' : Scope} (hs : C.scopes s s')
    (hp : ∀ path, n.path? = some path → C.paths path)
    (hleaf : ∀ fs ns, n.Yields s (.ok fs) ns → C.fragments fs fs)
    (embed embed' : Scope → String → Run (List Fragment)) :
    C.Related (n.render embed s) (n.render embed' s') := by
  have hs' := fun path hpath => C.agreed hs (hp path hpath)
  rw [Node.render_congr_of_isLeaf hn hs' embed embed']
  -- one result whatever the journal is, so it is the same on both sides
  rcases Node.exists_yields hn s embed with ⟨result, ns, hyields, hexec⟩
  intro j j' hj
  rw [hexec, hexec]
  refine ⟨?_, C.noted ns hj⟩
  rcases result with f | fs
  · cases hyields with
    | badLookup _ hv => exact C.caused hs (.lookup hv)
    | notShown _ hv ht => exact C.caused hs (.shown hv ht)
  · exact hleaf fs ns hyields

theorem cond_related {s s' : Scope} {embed embed' : Scope → String → Run (List Fragment)}
    {condition : String} {test : Condition} {body : Tree} {other : Option Tree}
    (hs : C.scopes s s') (hp : ∀ path, test.path? = some path → C.paths path)
    (hbody : C.Related (Tree.render embed s body) (Tree.render embed' s' body))
    (hother : C.Related (Tree.render embed s (other.getD []))
      (Tree.render embed' s' (other.getD []))) :
    C.Related (Node.render embed s (.cond condition test body other))
      (Node.render embed' s' (.cond condition test body other)) := by
  rw [Node.render_cond, Node.render_cond]
  refine .bind (note_related test.notices) ?_
  intro _ _ _
  refine .bind (isMet_related hs hp) ?_
  rintro holds _ rfl
  cases holds with
  | true => exact hbody
  | false => exact hother

/-- Related scopes give a loop the same items, which are those of the list at its path, or fail
alike. -/
theorem loopItems_related {s s' : Scope} {collection : String} (hs : C.scopes s s')
    (hp : C.paths collection) :
    Run.Related C.journals C.failures
      (fun items items' => items = items' ∧ ∀ x ∈ items, ∃ v found,
        s.value collection = .ok (some v) ∧ v.items? = some found ∧ x ∈ found)
      (loopItems s collection) (loopItems s' collection) := by
  have hnone : ([] : List Value) = [] ∧ ∀ x ∈ ([] : List Value), ∃ v found,
      s.value collection = .ok (some v) ∧ v.items? = some found ∧ x ∈ found :=
    ⟨rfl, fun x hx => (List.not_mem_nil hx).elim⟩
  rw [loopItems, loopItems]
  refine .bind (valueOf_related hs hp) ?_
  rintro found _ ⟨rfl, hv⟩
  cases found with
  | none =>
    refine .bind (note_related _) ?_
    intro _ _ _
    exact .pure hnone
  | some v =>
    rcases hitems : v.items? with _ | items <;> simp only [hitems]
    · refine .bind (note_related _) ?_
      intro _ _ _
      exact .pure hnone
    · exact .pure ⟨rfl, fun x hx => ⟨v, items, hv, hitems, hx⟩⟩

theorem each_related {s s' : Scope} {embed embed' : Scope → String → Run (List Fragment)}
    {collection item index : String} {body : Tree} (hs : C.scopes s s') (hp : C.paths collection)
    (hbody : ∀ u u', C.scopes u u' →
      C.Related (Tree.render embed u body) (Tree.render embed' u' body)) :
    C.Related (Node.render embed s (.each collection item index body))
      (Node.render embed' s' (.each collection item index body)) := by
  rw [Node.render_each, Node.render_each]
  refine .bind (loopItems_related hs hp) ?_
  rintro items _ ⟨rfl, hfound⟩
  refine renderItems_related C.nil (fun _ _ _ _ => C.append) fun k x hx => ?_
  obtain ⟨v, found, hv, hitems, hmem⟩ := hfound x (List.mem_of_getElem? hx)
  exact hbody _ _ (C.looped item index (0 + k) hs hv hitems hmem)

/-- What a comparison asks of the nodes of a tree: related scopes agree on their paths, those
without parts put out fragments related to themselves, and the templates embedded under their names
are rendered to related fragments. -/
structure Fits (C : Comparison) (embed embed' : Scope → String → Run (List Fragment)) (t : Tree) :
    Prop where
  paths : ∀ n : Node, n.Occurs t → ∀ path, n.path? = some path → C.paths path
  leaf : ∀ n : Node, n.Occurs t → ∀ s s', C.scopes s s' → ∀ fs ns, n.Yields s (.ok fs) ns →
    C.fragments fs fs
  embed : ∀ name, Node.Occurs (.embed name) t → ∀ s s', C.scopes s s' →
    C.Related (embed s name) (embed' s' name)

theorem Fits.mono {embed embed' : Scope → String → Run (List Fragment)} {t u : Tree}
    (h : C.Fits embed embed' t) (hsub : ∀ n : Node, n.Occurs u → n.Occurs t) :
    C.Fits embed embed' u where
  paths n hn := h.paths n (hsub n hn)
  leaf n hn := h.leaf n (hsub n hn)
  embed name hn := h.embed name (hsub _ hn)

/-- Where only equal scopes are related, it is enough to look at each scope by itself. -/
theorem Fits.of_scopes_eq {embed embed' : Scope → String → Run (List Fragment)} {t : Tree}
    (hscopes : ∀ s s', C.scopes s s' → s' = s) (hpaths : ∀ path, C.paths path)
    (hleaf : ∀ n : Node, n.Occurs t → ∀ s fs ns, n.Yields s (.ok fs) ns → C.fragments fs fs)
    (hembed : ∀ name, Node.Occurs (.embed name) t → ∀ s,
      C.Related (embed s name) (embed' s name)) : C.Fits embed embed' t where
  paths _ _ path _ := hpaths path
  leaf n hn s _ _ := hleaf n hn s
  embed name hname s s' hs := by
    rw [hscopes s s' hs]
    exact hembed name hname s

end Comparison

/-- Renderings of a tree in related scopes are related if those of the templates embedded in it
are. -/
theorem Tree.render_related {C : Comparison} {embed embed' : Scope → String → Run (List Fragment)}
    {t : Tree} (h : C.Fits embed embed' t) {s s' : Scope} (hs : C.scopes s s') :
    C.Related (Tree.render embed s t) (Tree.render embed' s' t) := by
  -- the scopes vary with the loops around a node, so the induction is on all related scopes
  induction t using Tree.induct generalizing s s' with
  | nil => exact .pure C.nil
  | cons n rest ihn ih =>
    have hn : C.Fits embed embed' [n] := h.mono fun m hm => hm.mono (by simp)
    have hrest : C.Fits embed embed' rest := h.mono fun m hm => hm.mono (by simp_all)
    rw [Tree.render_cons, Tree.render_cons]
    have hfirst := ihn hn hs
    rw [Tree.render_singleton, Tree.render_singleton] at hfirst
    refine .bind hfirst ?_
    intro fs fs' hfs
    refine .bind (ih hrest hs) ?_
    intro gs gs' hgs
    exact .pure (C.append hfs hgs)
  | leaf n hn =>
    have hocc : n.Occurs [n] := .here (List.mem_singleton_self _)
    rw [Tree.render_singleton, Tree.render_singleton]
    exact Comparison.leaf_related hn hs (h.paths n hocc) (h.leaf n hocc s s' hs) embed embed'
  | embed name =>
    rw [Tree.render_singleton, Tree.render_singleton, Node.render, Node.render]
    exact h.embed name (.here (List.mem_singleton_self _)) s s' hs
  | cond condition test body ih =>
    have hbody : C.Fits embed embed' body :=
      h.mono fun m hm => .inBody (List.mem_singleton_self _) hm
    rw [Tree.render_singleton, Tree.render_singleton]
    exact Comparison.cond_related hs (h.paths _ (.here (List.mem_singleton_self _))) (ih hbody hs)
      (.pure C.nil)
  | condElse condition test body other ihbody ihother =>
    have hbody : C.Fits embed embed' body :=
      h.mono fun m hm => .inBody (List.mem_singleton_self _) hm
    have hother : C.Fits embed embed' other :=
      h.mono fun m hm => .inOther (List.mem_singleton_self _) hm
    rw [Tree.render_singleton, Tree.render_singleton]
    exact Comparison.cond_related hs (h.paths _ (.here (List.mem_singleton_self _)))
      (ihbody hbody hs) (ihother hother hs)
  | each collection item index body ih =>
    have hbody : C.Fits embed embed' body :=
      h.mono fun m hm => .inLoop (List.mem_singleton_self _) hm
    rw [Tree.render_singleton, Tree.render_singleton]
    refine Comparison.each_related hs (h.paths _ (.here (List.mem_singleton_self _)) _ rfl) ?_
    intro u u' hu
    exact ih hbody hu

end Curly
