import Curly.Proofs.Completion

/-!
# Layers are overwriting

A scope over a mapping renders as the one mapping that results from overwriting its data with its
layers, the earliest first (`Engine.render_flattened`). Rendering asks a scope for names only, and
the latest layer that binds a name tells what the last overwriting left under it
(`Scope.get_flattened`). Two scopes that answer alike for all names do so under any layer put on
both, so they are rendered alike at any depth of loops and embedded templates
(`Engine.render_eq_of_alike`).
-/

namespace Curly

/-! ## Keys -/

/-- Only the same text is one key with a text. -/
theorem Key.eq_str_of_equal {k : Key} {s : String} (h : k.equal (.str s)) : k = .str s := by
  cases k with
  | str t =>
    rw [equal, beq_iff_eq] at h
    rw [h]
  | _ => simp [equal, whole?] at h

theorem Key.str_equal_iff {k : Key} {s : String} : (Key.str s).equal k ↔ k = .str s := by
  cases k with
  | str t =>
    rw [equal, beq_iff_eq, Key.str.injEq]
    exact eq_comm
  | _ => simp [equal, whole?]

/-- No two keys of the pairs are one key, as in every mapping. -/
def DistinctKeys {α : Type} (pairs : List (Key × α)) : Prop :=
  pairs.Pairwise fun p q => p.1.equal q.1 = false

/-! ## Bindings -/

namespace Bindings

variable {name : String} {k : Key} {v : Option Value} {b : Bindings}

theorem get?_cons_self (name : String) (v : Option Value) (rest : Bindings) :
    get? name ((.str name, v) :: rest) = some v := by
  rw [get?, if_pos rfl]

theorem get?_cons_of_ne (h : k ≠ .str name) (v : Option Value) (rest : Bindings) :
    get? name ((k, v) :: rest) = get? name rest := by
  cases k with
  | str s =>
    have hs : s ≠ name := fun heq => h (congrArg Key.str heq)
    rw [get?, if_neg hs]
  | _ => rfl

theorem get?_insert_self (name : String) (v : Option Value) (b : Bindings) :
    get? name (b.insert (.str name) v) = some v := by
  induction b with
  | nil => exact get?_cons_self name v []
  | cons first rest ih =>
    rcases first with ⟨l, w⟩
    rw [insert]
    by_cases hl : l.equal (.str name)
    · rw [if_pos hl, Key.eq_str_of_equal hl, get?_cons_self]
    · have hne : l ≠ .str name := by
        rintro rfl
        exact hl (Key.str_equal_iff.mpr rfl)
      rw [if_neg hl, get?_cons_of_ne hne, ih]

/-- Setting a binding changes nothing for other names. -/
theorem get?_insert_of_ne (h : k ≠ .str name) (v : Option Value) (b : Bindings) :
    get? name (b.insert k v) = get? name b := by
  induction b with
  | nil => exact get?_cons_of_ne h v []
  | cons first rest ih =>
    rcases first with ⟨l, w⟩
    rw [insert]
    by_cases hl : l.equal k
    · -- a binding that is replaced is not for the name either
      have hne : l ≠ .str name := by
        rintro rfl
        exact h (Key.str_equal_iff.mp hl)
      rw [if_pos hl, get?_cons_of_ne hne, get?_cons_of_ne hne]
    · rw [if_neg hl]
      by_cases hname : l = .str name
      · rw [hname, get?_cons_self, get?_cons_self]
      · rw [get?_cons_of_ne hname, get?_cons_of_ne hname, ih]

theorem get?_insert (name : String) (k : Key) (v : Option Value) (b : Bindings) :
    get? name (b.insert k v) = (get? name [(k, v)]).or (get? name b) := by
  by_cases hk : k = .str name
  · rw [hk, get?_insert_self, get?_cons_self]
    rfl
  · rw [get?_insert_of_ne hk, get?_cons_of_ne hk]
    rfl

/-- A name that is bound first is not bound again. -/
theorem get?_eq_none_of_distinct (h : DistinctKeys ((Key.str name, v) :: b)) :
    get? name b = none := by
  induction b with
  | nil => rfl
  | cons first rest ih =>
    rcases first with ⟨l, w⟩
    obtain ⟨hfirst, hrest⟩ := List.pairwise_cons.mp h
    obtain ⟨hl, hmore⟩ := List.forall_mem_cons.mp hfirst
    have hne : l ≠ .str name := by
      rintro rfl
      rw [Key.str_equal_iff.mpr rfl] at hl
      cases hl
    rw [get?_cons_of_ne hne]
    exact ih (List.pairwise_cons.mpr ⟨hmore, (List.pairwise_cons.mp hrest).2⟩)

/-- Overwriting by a layer leaves the layer's binding under each name that the layer binds. -/
theorem get?_overwrite {later : Bindings} (h : DistinctKeys later) (name : String) (b : Bindings) :
    get? name (b.overwrite later) = (get? name later).or (get? name b) := by
  induction later generalizing b with
  | nil => rfl
  | cons first rest ih =>
    rcases first with ⟨k, v⟩
    have hrest : DistinctKeys rest := (List.pairwise_cons.mp h).2
    rw [overwrite, List.foldl_cons]
    refine (ih hrest (b.insert k v)).trans ?_
    by_cases hk : k = .str name
    · subst hk
      rw [get?_eq_none_of_distinct h, get?_insert_self, get?_cons_self]
      rfl
    · rw [get?_insert_of_ne hk, get?_cons_of_ne hk]

theorem get?_ofEntries (name : String) (entries : Entries) :
    get? name (ofEntries entries) = (entries.get? name).map some := by
  induction entries with
  | nil => rfl
  | cons first rest ih =>
    rcases first with ⟨k, v⟩
    rw [ofEntries, List.map_cons]
    cases k with
    | str s =>
      rw [get?, Entries.get?]
      by_cases hs : s = name
      · rw [if_pos hs, if_pos hs]
        rfl
      · rw [if_neg hs, if_neg hs]
        exact ih
    | _ => exact ih

theorem ofEntries_insert (entries : Entries) (k : Key) (v : Value) :
    ofEntries (entries.insert k v) = (ofEntries entries).insert k (some v) := by
  induction entries with
  | nil => rfl
  | cons first rest ih =>
    rcases first with ⟨l, w⟩
    rw [Entries.insert, ofEntries, ofEntries, List.map_cons, insert]
    by_cases hl : l.equal k
    · rw [if_pos hl, if_pos hl]
      rfl
    · rw [if_neg hl, if_neg hl, List.map_cons]
      exact congrArg _ ih

/-- What is bound after an insertion has the value put in, or was there before. -/
theorem mem_insert_cases {p : Key × Option Value} {k : Key} {v : Option Value}
    (h : p ∈ b.insert k v) : p.2 = v ∨ p ∈ b := by
  induction b with
  | nil =>
    rw [List.mem_singleton.mp h]
    exact .inl rfl
  | cons first rest ih =>
    rcases first with ⟨l, w⟩
    rw [insert] at h
    split at h
    · rcases List.mem_cons.mp h with rfl | h
      · exact .inl rfl
      · exact .inr (List.mem_cons_of_mem _ h)
    · rcases List.mem_cons.mp h with rfl | h
      · exact .inr List.mem_cons_self
      · exact (ih h).imp_right (List.mem_cons_of_mem _)

/-- What overwriting leaves is bound as in the layer or as before. -/
theorem mem_overwrite {later : Bindings} {p : Key × Option Value} (h : p ∈ b.overwrite later) :
    (∃ q ∈ later, p.2 = q.2) ∨ p ∈ b := by
  induction later generalizing b with
  | nil => exact .inr h
  | cons first rest ih =>
    rcases ih h with ⟨q, hq, hvalue⟩ | hp
    · exact .inl ⟨q, List.mem_cons_of_mem first hq, hvalue⟩
    · rcases mem_insert_cases hp with hvalue | hp
      · exact .inl ⟨first, List.mem_cons_self, hvalue⟩
      · exact .inr hp

/-! ### Distinct keys -/

theorem keys_insert (k : Key) (v : Option Value) (b : Bindings) :
    (∃ l ∈ b.map Prod.fst, l.equal k) ∧ (b.insert k v).map Prod.fst = b.map Prod.fst ∨
    (∀ l ∈ b.map Prod.fst, l.equal k = false) ∧ b.insert k v = b ++ [(k, v)] := by
  induction b with
  | nil => exact .inr ⟨List.forall_mem_nil _, rfl⟩
  | cons first rest ih =>
    rcases first with ⟨l, w⟩
    rw [insert, List.map_cons]
    by_cases hl : l.equal k
    · rw [if_pos hl]
      exact .inl ⟨⟨l, List.mem_cons_self, hl⟩, rfl⟩
    · rw [if_neg hl]
      rcases ih with ⟨⟨m, hm, hequal⟩, hkeys⟩ | ⟨hall, happend⟩
      · refine .inl ⟨⟨m, List.mem_cons_of_mem l hm, hequal⟩, ?_⟩
        rw [List.map_cons, hkeys]
      · refine .inr ⟨List.forall_mem_cons.mpr ⟨Bool.eq_false_iff.mpr hl, hall⟩, ?_⟩
        rw [happend]
        rfl

end Bindings

/-- Setting a binding keeps the keys distinct. -/
theorem DistinctKeys.insert {b : Bindings} (h : DistinctKeys b) (k : Key) (v : Option Value) :
    DistinctKeys (b.insert k v) := by
  rcases Bindings.keys_insert k v b with ⟨-, hkeys⟩ | ⟨hall, happend⟩
  · rw [DistinctKeys, ← List.pairwise_map (f := Prod.fst) (R := fun k l : Key => k.equal l = false),
      hkeys, List.pairwise_map]
    exact h
  · rw [happend]
    refine List.pairwise_append.mpr ⟨h, List.pairwise_singleton _ _, ?_⟩
    intro p hp q hq
    rw [List.mem_singleton.mp hq]
    exact hall p.1 (List.mem_map_of_mem hp)

theorem DistinctKeys.overwrite {b : Bindings} (h : DistinctKeys b) (later : Bindings) :
    DistinctKeys (b.overwrite later) := by
  induction later generalizing b with
  | nil => exact h
  | cons first rest ih => exact ih (h.insert first.1 first.2)

theorem DistinctKeys.ofEntries {entries : Entries} (h : DistinctKeys entries) :
    DistinctKeys (Bindings.ofEntries entries) :=
  List.pairwise_map.mpr h

theorem distinct_loopBindings (item index : String) (k : Nat) (x : Value) :
    DistinctKeys (loopBindings item index k x) := by
  have hitem : DistinctKeys ([(Key.str item, some x)] : Bindings) := List.pairwise_singleton _ _
  rw [loopBindings]
  split
  · exact hitem
  · exact hitem.insert (.str index) (some (.int k))

/-! ## The single mapping of a scope -/

namespace Bindings

/-- The entries that bindings to values make up. A name without a value is as good as not bound. -/
def bound (b : Bindings) : Entries := b.filterMap fun (k, v) => v.map (k, ·)

theorem get?_bound {b : Bindings} (h : DistinctKeys b) (name : String) :
    b.bound.get? name = (get? name b).join := by
  induction b with
  | nil => rfl
  | cons first rest ih =>
    rcases first with ⟨k, v⟩
    have hrest : (bound rest).get? name = (get? name rest).join := ih (List.pairwise_cons.mp h).2
    by_cases hk : k = .str name
    · subst hk
      rw [get?_cons_self]
      cases v with
      | none =>
        -- a name bound to nothing has no other binding that could show through
        rw [get?_eq_none_of_distinct h] at hrest
        exact hrest
      | some w =>
        change Entries.get? name ((Key.str name, w) :: bound rest) = some w
        rw [Entries.get?, if_pos rfl]
    · rw [get?_cons_of_ne hk, ← hrest]
      cases v with
      | none => rfl
      | some w =>
        change Entries.get? name ((k, w) :: bound rest) = _
        cases k with
        | str s =>
          have hs : s ≠ name := fun heq => hk (congrArg Key.str heq)
          rw [Entries.get?, if_neg hs]
        | _ => rfl

/-- Where every binding is to a value, nothing is left out. -/
theorem ofEntries_bound {b : Bindings} (h : ∀ p ∈ b, p.2.isSome) : ofEntries b.bound = b := by
  induction b with
  | nil => rfl
  | cons first rest ih =>
    rcases first with ⟨k, v⟩
    obtain ⟨hv, hrest⟩ := List.forall_mem_cons.mp h
    obtain ⟨w, rfl⟩ := Option.isSome_iff_exists.mp hv
    change (k, some w) :: ofEntries (bound rest) = _
    rw [ih hrest]

end Bindings

namespace Scope

/-- A scope over a mapping, as renderings have it: no two keys of the mapping or of one layer are one
key. -/
structure IsContext (s : Scope) : Prop where
  mapping : ∃ entries, s.data.entries? = some entries ∧ DistinctKeys entries
  layers : ∀ layer ∈ s.layers, DistinctKeys layer

/-- The entries that are left when the layers overwrite the data, the earliest layer first. -/
def entries (s : Scope) : Entries := s.flat.bound

/-- The scope over the single mapping that the scope amounts to. -/
def flattened (s : Scope) : Scope := ofData (.dict s.entries)

/-- The entries of the single mapping with the item of a loop set and then, if it has a name, the
index. -/
def iterationEntries (s : Scope) (item index : String) (k : Nat) (x : Value) : Entries :=
  let entries := s.entries.insert (.str item) x
  if index = "" then entries else entries.insert (.str index) (.int k)

/-- The scope of a pass through a loop as a single mapping. -/
def iteration (s : Scope) (item index : String) (k : Nat) (x : Value) : Scope :=
  ofData (.dict (s.iterationEntries item index k x))

/-- Two scopes over mappings that answer alike for every name. -/
structure Alike (s s' : Scope) : Prop where
  isMapping : ∃ entries, s.data.entries? = some entries
  isMapping' : ∃ entries, s'.data.entries? = some entries
  get : ∀ name, s'.get name = s.get name

variable {s s' : Scope}

/-- What overwriting leaves under a name is what the latest layer with the name binds it to. -/
theorem get?_flat {data : Entries} (hdata : s.data.entries? = some data)
    (hlayers : ∀ layer ∈ s.layers, DistinctKeys layer) (name : String) :
    Bindings.get? name s.flat =
      (s.layers.findSome? (Bindings.get? name)).or ((data.get? name).map some) := by
  rw [flat, hdata, Option.getD_some]
  generalize s.layers = layers at hlayers
  induction layers with
  | nil => exact Bindings.get?_ofEntries name data
  | cons layer earlier ih =>
    obtain ⟨hlayer, hearlier⟩ := List.forall_mem_cons.mp hlayers
    rw [List.foldr_cons, Bindings.get?_overwrite hlayer, ih hearlier, List.findSome?_cons]
    cases Bindings.get? name layer with
    | none => rfl
    | some binding => rfl

theorem distinct_flat (h : s.IsContext) : DistinctKeys s.flat := by
  obtain ⟨data, hdata, hdistinct⟩ := h.mapping
  rw [flat, hdata, Option.getD_some]
  induction s.layers with
  | nil => exact hdistinct.ofEntries
  | cons layer earlier ih => exact ih.overwrite layer

theorem isSome_of_mem_flat (h : ∀ layer ∈ s.layers, ∀ b ∈ layer, b.2.isSome) :
    ∀ p ∈ s.flat, p.2.isSome := by
  rw [flat]
  generalize s.layers = layers at h
  induction layers with
  | nil =>
    intro p hp
    obtain ⟨e, -, rfl⟩ := List.mem_map.mp hp
    rfl
  | cons layer earlier ih =>
    obtain ⟨hlayer, hearlier⟩ := List.forall_mem_cons.mp h
    intro p hp
    rcases Bindings.mem_overwrite hp with ⟨q, hq, hvalue⟩ | hp
    · rw [hvalue]
      exact hlayer q hq
    · exact ih hearlier p hp

/-- One more layer with distinct keys can be put on. -/
theorem IsContext.push (h : s.IsContext) {layer : Bindings} (hlayer : DistinctKeys layer) :
    (s.push layer).IsContext where
  mapping := h.mapping
  layers := List.forall_mem_cons.mpr ⟨hlayer, h.layers⟩

/-- The single mapping answers for every name as the scope does. -/
theorem get_flattened (h : s.IsContext) (name : String) : s.flattened.get name = s.get name := by
  obtain ⟨data, hdata, -⟩ := h.mapping
  have hentries : s.entries.get? name =
      (s.layers.findSome? (Bindings.get? name)).getD (data.get? name) := by
    rw [entries, Bindings.get?_bound (distinct_flat h), get?_flat hdata h.layers]
    cases s.layers.findSome? (Bindings.get? name) with
    | none => cases data.get? name <;> rfl
    | some binding => rfl
  rw [get_eq_ok hdata, ← hentries]
  exact get_eq_ok rfl name

theorem alike_flattened (h : s.IsContext) : Alike s s.flattened where
  isMapping := h.mapping.imp fun _ hdata => hdata.1
  isMapping' := ⟨s.entries, rfl⟩
  get := get_flattened h

/-- Two scopes over mappings that answer alike for a name do so under a further layer, whatever it
binds. -/
theorem get_push_congr (hs : ∃ entries, s.data.entries? = some entries)
    (hs' : ∃ entries, s'.data.entries? = some entries) {name : String}
    (h : s'.get name = s.get name) (layer : Bindings) :
    (s'.push layer).get name = (s.push layer).get name := by
  obtain ⟨data, hdata⟩ := hs
  obtain ⟨data', hdata'⟩ := hs'
  rw [get_push hdata, get_push hdata', h]

/-- Scopes that answer alike do so under a further layer. -/
theorem Alike.push (h : Alike s s') (layer : Bindings) : Alike (s.push layer) (s'.push layer) where
  isMapping := h.isMapping
  isMapping' := h.isMapping'
  get name := get_push_congr h.isMapping h.isMapping' (h.get name) layer

/-- Scopes that answer alike give the same values. -/
theorem Alike.value_eq (h : Alike s s') (path : String) : s'.value path = s.value path := by
  rw [value, value]
  simp only [h.get]

/-- Setting the names of a loop in the single mapping is putting its layer on. -/
theorem alike_iteration (h : s.IsContext) (item index : String) (k : Nat) (x : Value) :
    Alike (s.push (loopBindings item index k x)) (s.iteration item index k x) where
  isMapping := h.mapping.imp fun _ hdata => hdata.1
  isMapping' := ⟨_, rfl⟩
  get name := by
    obtain ⟨data, hdata, -⟩ := h.mapping
    -- the names of the loop are answered for first on both sides
    have hloop : Bindings.get? name (Bindings.ofEntries (s.iterationEntries item index k x)) =
        (Bindings.get? name (loopBindings item index k x)).or
          (Bindings.get? name (Bindings.ofEntries s.entries)) := by
      rw [iterationEntries, loopBindings]
      split
      · rw [Bindings.ofEntries_insert, Bindings.get?_insert]
      · rw [Bindings.ofEntries_insert, Bindings.ofEntries_insert, Bindings.get?_insert,
          Bindings.get?_insert, Bindings.get?_insert, Option.or_assoc]
    have hentries : (ofData (.dict (s.iterationEntries item index k x))).get name =
        .ok ((s.iterationEntries item index k x).get? name) := get_eq_ok rfl name
    have hflat : s.get name = .ok (s.entries.get? name) := by
      rw [← get_flattened h]
      exact get_eq_ok rfl name
    rw [Bindings.get?_ofEntries, Bindings.get?_ofEntries] at hloop
    rw [iteration, hentries, get_push hdata, hflat]
    cases hbound : Bindings.get? name (loopBindings item index k x) with
    | none =>
      rw [hbound, Option.none_or] at hloop
      exact congrArg Except.ok (Option.map_injective (fun _ _ => Option.some.inj) hloop)
    | some binding =>
      rw [hbound, Option.some_or, Option.map_eq_some_iff] at hloop
      obtain ⟨v, hv, hbinding⟩ := hloop
      rw [hv, ← hbinding]
      rfl

end Scope

/-! ## Rendering -/

theorem Run.related_refl {α : Type} (work : Run α) : Run.Related Eq Eq Eq work work := by
  rintro j _ rfl
  exact ⟨Run.agree_refl _, rfl⟩

/-- Runs that do the same to every journal are one run. -/
theorem Run.Related.eq {α : Type} {work work' : Run α} (h : Run.Related Eq Eq Eq work work') :
    work' = work := by
  funext j
  obtain ⟨hresult, hjournal⟩ := h j j rfl
  exact (Prod.ext hresult.eq hjournal).symm

theorem append_eq_append {fs gs fs' gs' : List Fragment} (hfs : fs = fs') (hgs : gs = gs') :
    fs ++ gs = fs' ++ gs' := by
  rw [hfs, hgs]

/-- The comparison of two renderings that do the same, in scopes that answer alike. -/
def alikeScopes : Comparison where
  journals := Eq
  failures := Eq
  fragments := Eq
  scopes := Scope.Alike
  paths _ := True
  noted := by
    rintro j _ ns rfl
    rfl
  nil := List.append_nil []
  append := @append_eq_append
  agreed hs _ := hs.value_eq _
  caused _ _ := rfl
  looped _ _ _ hs _ _ _ := hs.push _

namespace Engine

variable (e : Engine) (mode : Mode)

/-- A template is embedded alike in scopes that answer alike. -/
theorem embed_alike (remaining : Nat) (chain : Chain) (name : String) {s s' : Scope}
    (hs : s.Alike s') :
    Run.Related Eq Eq Eq (e.embed mode remaining chain s name)
      (e.embed mode remaining chain s' name) := by
  induction remaining generalizing chain name s s' with
  | zero =>
    rw [embed_zero, embed_zero]
    exact Run.related_refl _
  | succ remaining ih =>
    rw [embed_succ, embed_succ, recover, recover]
    refine .tryCatch (.bind (Run.related_refl _) ?_) ?_
    · -- the templates inside the template are embedded one level further down
      rintro tree _ rfl
      have hfits : alikeScopes.Fits (e.embed mode remaining (chain ++ [name]))
          (e.embed mode remaining (chain ++ [name])) tree :=
        ⟨fun _ _ _ _ => trivial, fun _ _ _ _ _ _ _ _ => rfl,
          fun inner _ _ _ hu => ih (chain ++ [name]) inner hu⟩
      exact Tree.render_related hfits hs
    · rintro failure _ rfl
      exact Run.related_refl _

/-- A tree is rendered alike in scopes that answer alike. -/
theorem tree_render_eq_of_alike (remaining : Nat) (chain : Chain) (t : Tree) {s s' : Scope}
    (hs : s.Alike s') :
    Tree.render (e.embed mode remaining chain) s' t =
      Tree.render (e.embed mode remaining chain) s t := by
  have hfits : alikeScopes.Fits (e.embed mode remaining chain) (e.embed mode remaining chain) t :=
    ⟨fun _ _ _ _ => trivial, fun _ _ _ _ _ _ _ _ => rfl,
      fun name _ _ _ hu => e.embed_alike mode remaining chain name hu⟩
  exact Run.Related.eq (Tree.render_related hfits hs)

/-- A template is rendered alike in scopes that answer alike. -/
theorem render_eq_of_alike (template : Compiled) {s s' : Scope} (hs : s.Alike s') :
    e.render mode template s' = e.render mode template s := by
  rw [render_eq, render_eq, fragments_eq, fragments_eq, e.tree_render_eq_of_alike mode _ _ _ hs]

end Engine

/-- The passes through a loop over the items of a value. -/
theorem Node.render_each_eq {s : Scope} {collection : String} {v : Value} {items : List Value}
    (hvalue : s.value collection = .ok (some v)) (hitems : v.items? = some items)
    (embed : Scope → String → Run (List Fragment)) (item index : String) (body : Tree) :
    Node.render embed s (.each collection item index body) =
      renderItems (fun k x => Tree.render embed (s.push (loopBindings item index k x)) body)
        0 items := by
  rw [Node.render_each, loopItems, valueOf_eq_pure hvalue, pure_bind]
  simp only [hitems, pure_bind]

/-- Layers are overwriting. A rendering in a scope gives what the rendering over the single mapping
gives that is left when the layers overwrite the data, the earliest first: the same page or failure,
and the same journal, for every engine, mode and template. A loop in such a scope, at any depth of
embedded templates, renders its body for each item over the single mapping in which the item is set
and then the index, and the scope of a pass through the loop is again such a scope. Nothing but names
that are bound to no value is left out of the single mapping. -/
theorem Engine.render_flattened {s : Scope} (hs : s.IsContext) :
    (∀ (e : Engine) (mode : Mode) (template : Compiled),
      e.render mode template s = e.render mode template s.flattened) ∧
    (∀ (e : Engine) (mode : Mode) (remaining : Nat) (chain : Chain)
        (collection item index : String) (body : Tree) (v : Value) (items : List Value),
      s.value collection = .ok (some v) → v.items? = some items →
        Node.render (e.embed mode remaining chain) s (.each collection item index body) =
          renderItems (fun k x => Tree.render (e.embed mode remaining chain)
            (s.iteration item index k x) body) 0 items) ∧
    (∀ (item index : String) (k : Nat) (x : Value),
      (s.push (loopBindings item index k x)).IsContext) ∧
    ((∀ layer ∈ s.layers, ∀ b ∈ layer, b.2.isSome) → Bindings.ofEntries s.entries = s.flat) := by
  refine ⟨?_, ?_, ?_, ?_⟩
  · intro e mode template
    exact (e.render_eq_of_alike mode template (Scope.alike_flattened hs)).symm
  · intro e mode remaining chain collection item index body v items hvalue hitems
    rw [Node.render_each_eq hvalue hitems]
    congr 1
    funext k x
    exact (e.tree_render_eq_of_alike mode remaining chain body
      (Scope.alike_iteration hs item index k x)).symm
  · intro item index k x
    exact hs.push (distinct_loopBindings item index k x)
  · intro hbound
    exact Bindings.ofEntries_bound (Scope.isSome_of_mem_flat hbound)

/-- Rows under a layer that binds a name to no value and another one to a text. -/
def Scope.layeredRows : Scope :=
  ⟨.dict [(.str "row", .str "x"), (.str "rows", .list [.int 7])],
    [[(.str "title", some (.str "Rows")), (.str "row", none)]]⟩

/-- The rows are rendered as over the mapping without the hidden name, and each row as over the
mapping with that row in the place of the name. -/
theorem Engine.render_flattened_rows :
    Scope.layeredRows.IsContext ∧
    Engine.render ⟨none, {}⟩ .blocking ⟨[.value "row", .value "title"], "t"⟩ Scope.layeredRows =
      Engine.render ⟨none, {}⟩ .blocking ⟨[.value "row", .value "title"], "t"⟩
        (.ofData (.dict [(.str "rows", .list [.int 7]), (.str "title", .str "Rows")])) ∧
    Scope.layeredRows.value "rows" = .ok (some (.list [.int 7])) ∧
    Node.render (Engine.embed ⟨none, {}⟩ .blocking 3 ["t"]) Scope.layeredRows
        (.each "rows" "row" "i" [.value "row"]) =
      renderItems (fun k x => Tree.render (Engine.embed ⟨none, {}⟩ .blocking 3 ["t"])
        (Scope.layeredRows.iteration "row" "i" k x) [.value "row"]) 0 [.int 7] := by
  have hcontext : Scope.layeredRows.IsContext := by
    refine ⟨⟨_, rfl, ?_⟩, ?_⟩
    · show List.Pairwise _ _
      decide
    · show ∀ layer ∈ [_], List.Pairwise _ layer
      decide
  have hentries : Scope.layeredRows.flattened =
      .ofData (.dict [(.str "rows", .list [.int 7]), (.str "title", .str "Rows")]) := rfl
  have hvalue : Scope.layeredRows.value "rows" = .ok (some (.list [.int 7])) := rfl
  obtain ⟨hrender, hloop, -⟩ := Engine.render_flattened hcontext
  refine ⟨hcontext, ?_, hvalue, hloop _ _ _ _ _ _ _ _ _ _ hvalue rfl⟩
  rw [hrender, hentries]

end Curly
