import Curly.Rendering.Page

/-!
# Trees

What all statements about rendering share. A tree is taken apart by `Tree.induct`, which has one
case for each kind of block and one for all nodes without parts. `Node.Occurs` says that a node
stands somewhere in a tree. A node without parts neither embeds templates nor looks at the journal:
what it yields (`Node.Yields`) depends on the scope alone (`Node.exists_yields`), and on nothing in
it but the value of the node's path (`Node.render_congr_of_isLeaf`).
-/

namespace Curly

/-! ## Taking trees apart -/

/-- A node without parts that embeds no template. -/
def Node.IsLeaf : Node → Prop
  | .cond .. | .each .. | .embed _ => False
  | _ => True

section Induction

variable {P : Tree → Prop}

mutual

private theorem Node.induct_aux (nil : P []) (cons : ∀ n rest, P [n] → P rest → P (n :: rest))
    (leaf : ∀ n, Node.IsLeaf n → P [n]) (embed : ∀ name, P [.embed name])
    (cond : ∀ condition test body, P body → P [.cond condition test body none])
    (condElse : ∀ condition test body other, P body → P other →
      P [.cond condition test body (some other)])
    (each : ∀ collection item index body, P body → P [.each collection item index body]) :
    (n : Node) → P [n]
  | .text _ | .value _ | .json _ | .html _ | .bare => leaf _ trivial
  | .embed name => embed name
  | .cond condition test body none =>
      cond condition test body (Tree.induct_aux nil cons leaf embed cond condElse each body)
  | .cond condition test body (some other) =>
      condElse condition test body other
        (Tree.induct_aux nil cons leaf embed cond condElse each body)
        (Tree.induct_aux nil cons leaf embed cond condElse each other)
  | .each collection item index body =>
      each collection item index body (Tree.induct_aux nil cons leaf embed cond condElse each body)

private theorem Tree.induct_aux (nil : P []) (cons : ∀ n rest, P [n] → P rest → P (n :: rest))
    (leaf : ∀ n, Node.IsLeaf n → P [n]) (embed : ∀ name, P [.embed name])
    (cond : ∀ condition test body, P body → P [.cond condition test body none])
    (condElse : ∀ condition test body other, P body → P other →
      P [.cond condition test body (some other)])
    (each : ∀ collection item index body, P body → P [.each collection item index body]) :
    (t : List Node) → P t
  | [] => nil
  | n :: rest =>
      cons n rest (Node.induct_aux nil cons leaf embed cond condElse each n)
        (Tree.induct_aux nil cons leaf embed cond condElse each rest)

end

/-- Induction on a tree: what holds of no nodes, of each single node if it holds of its parts, and
of a node before others, holds of the tree. -/
@[elab_as_elim]
theorem Tree.induct (nil : P []) (cons : ∀ n rest, P [n] → P rest → P (n :: rest))
    (leaf : ∀ n, Node.IsLeaf n → P [n]) (embed : ∀ name, P [.embed name])
    (cond : ∀ condition test body, P body → P [.cond condition test body none])
    (condElse : ∀ condition test body other, P body → P other →
      P [.cond condition test body (some other)])
    (each : ∀ collection item index body, P body → P [.each collection item index body])
    (t : Tree) : P t :=
  Tree.induct_aux nil cons leaf embed cond condElse each t

end Induction

/-- A node stands in a tree: at its top, or in a branch or the body of a block that does. -/
inductive Node.Occurs (n : Node) : Tree → Prop where
  | here {t : Tree} : n ∈ t → Occurs n t
  | inBody {t : Tree} {condition : String} {test : Condition} {body : Tree} {other : Option Tree} :
      .cond condition test body other ∈ t → Occurs n body → Occurs n t
  | inOther {t : Tree} {condition : String} {test : Condition} {body other : Tree} :
      .cond condition test body (some other) ∈ t → Occurs n other → Occurs n t
  | inLoop {t : Tree} {collection item index : String} {body : Tree} :
      .each collection item index body ∈ t → Occurs n body → Occurs n t

/-- What stands in some of the nodes stands in all of them. -/
theorem Node.Occurs.mono {n : Node} {t u : Tree} (h : n.Occurs t) (hsub : ∀ m ∈ t, m ∈ u) :
    n.Occurs u := by
  cases h with
  | here hn => exact .here (hsub _ hn)
  | inBody hb hn => exact .inBody (hsub _ hb) hn
  | inOther hb hn => exact .inOther (hsub _ hb) hn
  | inLoop hb hn => exact .inLoop (hsub _ hb) hn

@[simp] theorem Node.not_occurs_nil (n : Node) : ¬ n.Occurs [] := by
  intro h
  cases h <;> contradiction

theorem Node.occurs_append {n : Node} {t u : Tree} :
    n.Occurs (t ++ u) ↔ n.Occurs t ∨ n.Occurs u := by
  constructor
  · intro h
    cases h with
    | here hn => exact (List.mem_append.mp hn).imp .here .here
    | inBody hb hn => exact (List.mem_append.mp hb).imp (.inBody · hn) (.inBody · hn)
    | inOther hb hn => exact (List.mem_append.mp hb).imp (.inOther · hn) (.inOther · hn)
    | inLoop hb hn => exact (List.mem_append.mp hb).imp (.inLoop · hn) (.inLoop · hn)
  · rintro (h | h)
    · exact h.mono fun m hm => List.mem_append_left u hm
    · exact h.mono fun m hm => List.mem_append_right t hm

theorem Node.occurs_cons {n m : Node} {rest : Tree} :
    n.Occurs (m :: rest) ↔ n.Occurs [m] ∨ n.Occurs rest :=
  Node.occurs_append (t := [m])

theorem Node.occurs_singleton_of_isLeaf {n m : Node} (hm : m.IsLeaf) : n.Occurs [m] ↔ n = m := by
  constructor
  · intro h
    cases h with
    | here hn => exact List.mem_singleton.mp hn
    | inBody hb _ => cases List.mem_singleton.mp hb; exact hm.elim
    | inOther hb _ => cases List.mem_singleton.mp hb; exact hm.elim
    | inLoop hb _ => cases List.mem_singleton.mp hb; exact hm.elim
  · rintro rfl
    exact .here (List.mem_singleton_self n)

theorem Node.occurs_embed {n : Node} {name : String} :
    n.Occurs [.embed name] ↔ n = .embed name := by
  constructor
  · intro h
    cases h with
    | here hn => exact List.mem_singleton.mp hn
    | inBody hb _ => cases List.mem_singleton.mp hb
    | inOther hb _ => cases List.mem_singleton.mp hb
    | inLoop hb _ => cases List.mem_singleton.mp hb
  · rintro rfl
    exact .here (List.mem_singleton_self _)

theorem Node.occurs_cond {n : Node} {condition : String} {test : Condition} {body : Tree}
    {other : Option Tree} :
    n.Occurs [.cond condition test body other] ↔
      n = .cond condition test body other ∨ n.Occurs body ∨ n.Occurs (other.getD []) := by
  constructor
  · intro h
    cases h with
    | here hn => exact .inl (List.mem_singleton.mp hn)
    | inBody hb hn => cases List.mem_singleton.mp hb; exact .inr (.inl hn)
    | inOther hb hn => cases List.mem_singleton.mp hb; exact .inr (.inr hn)
    | inLoop hb _ => cases List.mem_singleton.mp hb
  · rintro (rfl | h | h)
    · exact .here (List.mem_singleton_self _)
    · exact .inBody (List.mem_singleton_self _) h
    · cases other with
      | none => exact (n.not_occurs_nil h).elim
      | some _ => exact .inOther (List.mem_singleton_self _) h

theorem Node.occurs_each {n : Node} {collection item index : String} {body : Tree} :
    n.Occurs [.each collection item index body] ↔
      n = .each collection item index body ∨ n.Occurs body := by
  constructor
  · intro h
    cases h with
    | here hn => exact .inl (List.mem_singleton.mp hn)
    | inBody hb _ => cases List.mem_singleton.mp hb
    | inOther hb _ => cases List.mem_singleton.mp hb
    | inLoop hb hn => cases List.mem_singleton.mp hb; exact .inr hn
  · rintro (rfl | h)
    · exact .here (List.mem_singleton_self _)
    · exact .inLoop (List.mem_singleton_self _) h

/-- The path that a condition looks up. -/
def Condition.path? : Condition → Option String
  | path p | negated p => some p
  | invalid .. => none

/-- The path that a node looks up in its scope. -/
def Node.path? : Node → Option String
  | .value path | .json path | .html path | .each path _ _ _ => some path
  | .cond _ test _ _ => test.path?
  | .text _ | .embed _ | .bare => none

mutual

/-- The paths that a node and its parts look up. -/
def Node.paths : Node → List String
  | .value path | .json path | .html path => [path]
  | .cond _ test body none => test.path?.toList ++ Tree.paths body
  | .cond _ test body (some other) => test.path?.toList ++ (Tree.paths body ++ Tree.paths other)
  | .each collection _ _ body => collection :: Tree.paths body
  | .text _ | .embed _ | .bare => []

/-- The paths that the nodes of a tree look up, at any depth. -/
def Tree.paths : List Node → List String
  | [] => []
  | n :: rest => n.paths ++ Tree.paths rest

end

/-! ## Rendering parts of a tree -/

section Render

variable (embed : Scope → String → Run (List Fragment)) (s : Scope)

@[simp] theorem Tree.render_nil : Tree.render embed s [] = pure [] := by
  rw [Tree.render]

theorem Tree.render_cons (n : Node) (rest : Tree) :
    Tree.render embed s (n :: rest) = (do
      let first ← n.render embed s
      return first ++ (← Tree.render embed s rest)) := by
  rw [Tree.render]

@[simp] theorem Tree.render_singleton (n : Node) :
    Tree.render embed s [n] = n.render embed s := by
  simp [Tree.render_cons]

/-- Trees one after another put out what they do one after another. -/
theorem Tree.render_append (t u : Tree) :
    Tree.render embed s (t ++ u) = (do
      let first ← Tree.render embed s t
      return first ++ (← Tree.render embed s u)) := by
  induction t with
  | nil => simp
  | cons n rest ih =>
    rw [List.cons_append, Tree.render_cons, ih, Tree.render_cons]
    simp only [bind_assoc, pure_bind, List.append_assoc]

/-- A condition renders the branch that it chooses. -/
theorem Node.render_cond (condition : String) (test : Condition) (body : Tree)
    (other : Option Tree) :
    Node.render embed s (.cond condition test body other) = (do
      note test.notices
      if ← isMet s test then Tree.render embed s body
      else Tree.render embed s (other.getD [])) := by
  cases other <;> simp [Node.render]

/-- A loop renders its body once for each item, in the scope of the item. -/
theorem Node.render_each (collection item index : String) (body : Tree) :
    Node.render embed s (.each collection item index body) = (do
      let items ← loopItems s collection
      renderItems (fun k v => Tree.render embed (s.push (loopBindings item index k v)) body) 0
        items) := by
  rw [Node.render]

end Render

/-! ## What a node without parts puts out -/

/-- The journal with further notices. -/
def Journal.noting (j : Journal) (ns : List Notice) : Journal :=
  { j with notices := j.notices ++ ns }

@[simp] theorem Journal.noting_nil (j : Journal) : j.noting [] = j := by
  simp [Journal.noting]

@[simp] theorem mapError_ok {ε ε' α : Type} (f : ε → ε') (a : α) :
    (Except.ok a : Except ε α).mapError f = .ok a := rfl

@[simp] theorem mapError_error {ε ε' α : Type} (f : ε → ε') (error : ε) :
    (Except.error error : Except ε α).mapError f = .error (f error) := rfl

/-- Changing the result of a run changes nothing else. -/
@[simp] theorem Run.exec_map {α β : Type} (f : α → β) (work : Run α) (j : Journal) :
    Run.exec (f <$> work) j = ((work.exec j).1.map f, (work.exec j).2) := by
  rw [map_eq_pure_bind, Run.exec_bind]
  rcases work.exec j with ⟨_ | _, _⟩ <;> rfl

@[simp] theorem exec_valueOf (s : Scope) (path : String) (j : Journal) :
    Run.exec (valueOf s path) j = ((s.value path).mapError .badLookup, j) := by
  rw [valueOf, Run.exec_ofExcept]

theorem valueOf_eq_pure {s : Scope} {path : String} {found : Option Value}
    (h : s.value path = .ok found) : valueOf s path = pure found := by
  rw [valueOf, h]
  rfl

theorem isMet_eq_pure {s : Scope} {test : Condition} {met : Bool} (h : test.holds s = .ok met) :
    isMet s test = pure met := by
  rw [isMet, h]
  rfl

@[simp] theorem exec_isMet (s : Scope) (test : Condition) (j : Journal) :
    Run.exec (isMet s test) j = ((test.holds s).mapError .badLookup, j) := by
  rw [isMet, Run.exec_ofExcept]

/-- What is noted of what a loop is to go over, if it is no list. -/
def loopNotices (collection : String) : Option Value → List Notice
  | none => [.undefinedCollection collection]
  | some v => if v.items? = none then [.notACollection collection v.typeName] else []

/-- A loop goes over the items at its path, or notes that there are none. -/
theorem loopItems_eq {s : Scope} {collection : String} {found : Option Value}
    (h : s.value collection = .ok found) :
    loopItems s collection = (do
      note (loopNotices collection found)
      return (found.bind Value.items?).getD []) := by
  have hnil : note [] = pure () := funext fun j => congrArg (Except.ok (), ·) j.noting_nil
  rw [loopItems, valueOf_eq_pure h, pure_bind]
  rcases found with _ | v
  · rfl
  · dsimp only
    rcases hitems : v.items? with _ | items
    · simp [loopNotices, hitems]
    · simp [loopNotices, hitems, hnil]

@[simp] theorem exec_showValue (v : Value) (j : Journal) :
    Run.exec (showValue v) j = (v.shown.mapError .notShown, j) := by
  unfold showValue
  cases v.shown <;> rfl

/-- What a node without parts puts out or fails with in a scope, and the notices it makes. -/
inductive Node.Yields (s : Scope) : Node → Except Failure (List Fragment) → List Notice → Prop where
  | text {text : String} : Yields s (.text text) (.ok [.text text]) []
  | bare : Yields s .bare (.ok []) [.bareNode]
  | badLookup {n : Node} {path : String} {fault : LookupFault} : n.path? = some path →
      s.value path = .error fault → Yields s n (.error (.badLookup fault)) []
  | noValue {path : String} : s.value path = .ok none → Yields s (.value path) (.ok []) []
  | noHtml {path : String} : s.value path = .ok none → Yields s (.html path) (.ok []) []
  | noJson {path : String} : s.value path = .ok none →
      Yields s (.json path) (.ok [.json "null"]) []
  | value {path text : String} {v : Value} : s.value path = .ok (some v) → v.shown = .ok text →
      Yields s (.value path) (.ok [.value (Text.escape text)]) []
  | html {path text : String} {v : Value} : s.value path = .ok (some v) → v.shown = .ok text →
      Yields s (.html path) (.ok [.html text]) []
  | notShown {n : Node} {path : String} {v : Value} {fault : Json.Fault} : n.path? = some path →
      s.value path = .ok (some v) → v.shown = .error fault →
      Yields s n (.error (.notShown fault)) []
  | json {path text : String} {v : Value} : s.value path = .ok (some v) →
      Json.scriptSafe v = .ok text → Yields s (.json path) (.ok [.json text]) []
  | notJson {path : String} {v : Value} {fault : Json.Fault} : s.value path = .ok (some v) →
      Json.scriptSafe v = .error fault →
      Yields s (.json path) (.ok [.json "null"]) [.notJson path fault.message]

/-- A node without parts embeds nothing, and reads its scope at its path only. -/
theorem Node.render_congr_of_isLeaf {n : Node} (hn : n.IsLeaf) {s s' : Scope}
    (hs : ∀ path, n.path? = some path → s'.value path = s.value path)
    (embed embed' : Scope → String → Run (List Fragment)) :
    n.render embed' s' = n.render embed s := by
  have hv : ∀ path, n.path? = some path → valueOf s' path = valueOf s path := by
    intro path hp
    rw [valueOf, valueOf, hs path hp]
  cases n with
  | cond => exact hn.elim
  | each => exact hn.elim
  | embed => exact hn.elim
  | text => simp [Node.render]
  | bare => simp [Node.render]
  | value path => simp [Node.render, valueFragment, hv path rfl]
  | html path => simp [Node.render, htmlFragment, hv path rfl]
  | json path => simp [Node.render, jsonFragment, hv path rfl]

/-- Rendering a node without parts yields one result and makes certain notices, whatever the journal
is. -/
theorem Node.exists_yields {n : Node} (hn : n.IsLeaf) (s : Scope)
    (embed : Scope → String → Run (List Fragment)) :
    ∃ result ns, n.Yields s result ns ∧
      ∀ j, Run.exec (n.render embed s) j = (result, j.noting ns) := by
  cases n with
  | cond => exact hn.elim
  | each => exact hn.elim
  | embed => exact hn.elim
  | text text => exact ⟨_, _, .text, fun _ => by simp [Node.render]⟩
  | bare => exact ⟨_, _, .bare, fun _ => by
      simp [Node.render, bareFragment, Except.map, Journal.noting]⟩
  | value path =>
    rcases hv : s.value path with fault | (_ | v)
    · exact ⟨_, _, .badLookup rfl hv, fun _ => by
        simp [Node.render, valueFragment, Run.exec_bind, hv]⟩
    · exact ⟨_, _, .noValue hv, fun _ => by
        simp [Node.render, valueFragment, Run.exec_bind, hv]⟩
    · rcases ht : v.shown with fault | text
      · exact ⟨_, _, .notShown rfl hv ht, fun _ => by
          simp [Node.render, valueFragment, Run.exec_bind, hv, ht, Except.map]⟩
      · exact ⟨_, _, .value hv ht, fun _ => by
          simp [Node.render, valueFragment, Run.exec_bind, hv, ht, Except.map]⟩
  | html path =>
    rcases hv : s.value path with fault | (_ | v)
    · exact ⟨_, _, .badLookup rfl hv, fun _ => by
        simp [Node.render, htmlFragment, Run.exec_bind, hv]⟩
    · exact ⟨_, _, .noHtml hv, fun _ => by
        simp [Node.render, htmlFragment, Run.exec_bind, hv]⟩
    · rcases ht : v.shown with fault | text
      · exact ⟨_, _, .notShown rfl hv ht, fun _ => by
          simp [Node.render, htmlFragment, Run.exec_bind, hv, ht, Except.map]⟩
      · exact ⟨_, _, .html hv ht, fun _ => by
          simp [Node.render, htmlFragment, Run.exec_bind, hv, ht, Except.map]⟩
  | json path =>
    rcases hv : s.value path with fault | (_ | v)
    · exact ⟨_, _, .badLookup rfl hv, fun _ => by
        simp [Node.render, jsonFragment, Run.exec_bind, hv]⟩
    · exact ⟨_, _, .noJson hv, fun _ => by
        simp [Node.render, jsonFragment, Run.exec_bind, hv]⟩
    · rcases ht : Json.scriptSafe v with fault | text
      · exact ⟨_, _, .notJson hv ht, fun _ => by
          simp [Node.render, jsonFragment, Run.exec_bind, hv, ht, Except.map,
            Journal.noting]⟩
      · exact ⟨_, _, .json hv ht, fun _ => by
          simp [Node.render, jsonFragment, Run.exec_bind, hv, ht]⟩

end Curly
