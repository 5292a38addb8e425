import Curly.Proofs.Completion

/-!
# Plain data

Data is plain if every key in it, at any depth, is a scalar, and nothing in it is too large to be
written or counted. A plain value can be shown (`Value.isShowable_of_isPlain`), and so can what paths
lead to in it whose numerals can be read (`Scope.Plain.exists_value_eq`). So a tree with such paths
completes in a scope over a plain mapping (`Scope.Plain.completes`): a loop puts plain values over it.
-/

namespace Curly

/-! ## Plain values -/

mutual

/-- Whether every key of every mapping in the value is a scalar, every whole number in it can be
written, and the items of every sequence in it can be counted. -/
def Value.isPlain : Value → Bool
  | .list items | .tuple items => decide (items.length ≤ countLimit) && Value.allPlain items
  | .dict entries | .view entries => Value.allEntriesPlain entries
  | .int n => Numeral.fits n
  | .range start stop =>
    Numeral.fits start && Numeral.fits stop && decide (rangeLength start stop ≤ countLimit)
  | _ => true

/-- Whether the items are plain. -/
def Value.allPlain : List Value → Bool
  | [] => true
  | v :: rest => v.isPlain && Value.allPlain rest

/-- Whether the keys of the entries can be written and their values are plain. -/
def Value.allEntriesPlain : List (Key × Value) → Bool
  | [] => true
  | (k, v) :: rest => k.isWritable && v.isPlain && Value.allEntriesPlain rest

end

theorem Value.allPlain_iff {items : List Value} :
    Value.allPlain items ↔ ∀ v ∈ items, v.isPlain := by
  induction items with
  | nil => simp [Value.allPlain]
  | cons v rest ih => simp [Value.allPlain, ih]

/-- What stands under a name is the value of an entry. -/
theorem Entries.exists_mem_of_get? {entries : Entries} {name : String} {v : Value}
    (hget : entries.get? name = some v) : ∃ k, (k, v) ∈ entries := by
  induction entries with
  | nil => cases hget
  | cons e rest ih =>
    have hrest : (Entries.get? name rest = some v) → ∃ k, (k, v) ∈ e :: rest :=
      fun h => (ih h).imp fun _ => List.mem_cons_of_mem e
    unfold Entries.get? at hget
    split at hget
    · next => cases hget
    · next heq =>
      cases heq
      split at hget
      · cases hget
        exact ⟨_, List.mem_cons_self⟩
      · exact hrest hget
    · next heq =>
      cases heq
      exact hrest hget

theorem Value.allEntriesPlain_iff {entries : Entries} :
    Value.allEntriesPlain entries ↔ ∀ k v, (k, v) ∈ entries → k.isWritable ∧ v.isPlain := by
  induction entries with
  | nil => simp [Value.allEntriesPlain]
  | cons e rest ih =>
    rcases e with ⟨k, v⟩
    simp only [Value.allEntriesPlain, Bool.and_eq_true, ih, List.mem_cons, Prod.mk.injEq]
    constructor
    · rintro ⟨hfirst, hrest⟩ k' v' (⟨rfl, rfl⟩ | hmem)
      · exact hfirst
      · exact hrest k' v' hmem
    · intro h
      exact ⟨h k v (.inl ⟨rfl, rfl⟩), fun k' v' hmem => h k' v' (.inr hmem)⟩

/-- What stands under a name in a plain mapping is plain. -/
theorem Entries.isPlain_of_get? {entries : Entries} {name : String} {v : Value}
    (h : Value.allEntriesPlain entries) (hget : entries.get? name = some v) : v.isPlain := by
  rcases Entries.exists_mem_of_get? hget with ⟨k, hmem⟩
  exact (Value.allEntriesPlain_iff.mp h k v hmem).2

/-- The numbers between two that can be written can be written. -/
theorem Numeral.fits_of_between {n a b : Int} (ha : Numeral.fits a) (hb : Numeral.fits b)
    (hlow : a ≤ n) (hhigh : n ≤ b) : Numeral.fits n := by
  rw [Numeral.fits_iff] at ha hb ⊢
  omega

/-- What can be counted can be written. -/
theorem Numeral.fits_of_le_countLimit {k : Nat} (h : k ≤ countLimit) : Numeral.fits k := by
  have hlimit : countLimit < Numeral.bound 19 := by decide
  have hbound : Numeral.bound 19 ≤ Numeral.bound digitLimit := Numeral.bound_mono (by decide)
  rw [Numeral.fits_iff, Int.natAbs_natCast]
  omega

namespace Value

theorem items_plain {v : Value} {items : List Value} (h : v.isPlain) (hitems : v.items? = some items) :
    items.length ≤ countLimit ∧ ∀ x ∈ items, x.isPlain := by
  cases v <;> cases hitems <;>
    simpa only [isPlain, Bool.and_eq_true, decide_eq_true_eq, allPlain_iff] using h

theorem entries_plain {v : Value} {entries : Entries} (h : v.isPlain)
    (hentries : v.entries? = some entries) : allEntriesPlain entries := by
  cases v <;> cases hentries <;> simpa only [isPlain] using h

/-- The items of plain values can be counted, and are plain. -/
theorem exists_item_eq {v : Value} (h : v.isPlain) (index : Nat) :
    ∃ found, v.item index = .ok found ∧ ∀ w, found = some w → w.isPlain := by
  cases v with
  | list items =>
    exact ⟨_, rfl, fun w hw => (items_plain h rfl).2 w (List.mem_of_getElem? hw)⟩
  | tuple items =>
    exact ⟨_, rfl, fun w hw => (items_plain h rfl).2 w (List.mem_of_getElem? hw)⟩
  | range start stop =>
    simp only [isPlain, Bool.and_eq_true, decide_eq_true_eq] at h
    obtain ⟨⟨hstart, hstop⟩, hcount⟩ := h
    refine ⟨(range start stop).at? index, if_pos hcount, fun w hw => ?_⟩
    rw [at?] at hw
    split at hw
    · next hindex =>
      cases hw
      rw [rangeLength] at hindex
      rw [isPlain]
      exact Numeral.fits_of_between hstart hstop (by omega) (by omega)
    · cases hw
  | _ => exact ⟨none, rfl, fun w hw => nomatch hw⟩

/-- One step into a plain value leads to a plain value, if the segment can be read. -/
theorem exists_child?_eq {v : Value} {segment : String} (h : v.isPlain)
    (hsegment : (Path.index? segment).all Except.toBool) :
    ∃ found, v.child? segment = .ok found ∧ ∀ w, found = some w → w.isPlain := by
  -- a mapping gives the value of a key, a sequence the item of an index
  rw [child?]
  rcases hentries : v.entries? with _ | entries
  · dsimp only
    split
    · rcases hindex : Path.index? segment with _ | fault | index
      · exact ⟨none, rfl, fun w hw => by cases hw⟩
      · rw [hindex] at hsegment
        cases hsegment
      · exact exists_item_eq h index
    · exact ⟨none, rfl, fun w hw => by cases hw⟩
  · exact ⟨_, rfl, fun w hw => Entries.isPlain_of_get? (entries_plain h hentries) hw⟩

/-- Several steps into a plain value lead to a plain value. -/
theorem exists_descend?_eq {v : Value} {segments : List String} (h : v.isPlain)
    (hsegments : ∀ segment ∈ segments, (Path.index? segment).all Except.toBool) :
    ∃ found, v.descend? segments = .ok found ∧ ∀ w, found = some w → w.isPlain := by
  induction segments generalizing v with
  | nil =>
    refine ⟨some v, rfl, ?_⟩
    rintro _ ⟨⟩
    exact h
  | cons segment rest ih =>
    obtain ⟨hsegment, hrest⟩ := List.forall_mem_cons.mp hsegments
    obtain ⟨found, hchild, hplain⟩ := exists_child?_eq h hsegment
    rw [descend?_cons, hchild]
    cases found with
    | none => exact ⟨none, rfl, fun w hw => nomatch hw⟩
    | some u => exact ih (hplain u rfl) hrest

end Value

/-! ## Paths that can be read -/

/-- Whether the numerals in a path can be read: the path itself, if it is one, and the segments that
name places. -/
def Path.isReadable (path : String) : Bool :=
  let cs := Text.trim path.toList
  (literal? cs).all Except.toBool &&
    (Text.split '.' cs).2.all fun segment => (index? (String.ofList segment)).all Except.toBool

/-- Whether the numerals in all paths of a tree can be read. -/
def Tree.isReadable (t : Tree) : Bool := (Tree.paths t).all Path.isReadable

theorem Tree.isReadable_cons {n : Node} {rest : Tree} :
    Tree.isReadable (n :: rest) ↔ Tree.isReadable [n] ∧ Tree.isReadable rest := by
  simp [Tree.isReadable, Tree.paths]

/-- In a condition its own path, if it has one, can be read, and those in both branches. -/
theorem Tree.isReadable_cond {condition : String} {test : Condition} {body : Tree}
    {other : Option Tree} :
    Tree.isReadable [.cond condition test body other] ↔
      (∀ path, test.path? = some path → Path.isReadable path) ∧ Tree.isReadable body ∧
        Tree.isReadable (other.getD []) := by
  cases other <;> simp [Tree.isReadable, Tree.paths, Node.paths]

theorem Tree.isReadable_each {collection item index : String} {body : Tree} :
    Tree.isReadable [.each collection item index body] ↔
      Path.isReadable collection ∧ Tree.isReadable body := by
  simp [Tree.isReadable, Tree.paths, Node.paths]

/-- A literal that can be read stands for a plain value. -/
theorem Path.isPlain_of_literal? {cs : List Char} {v : Value} (h : Path.literal? cs = some (.ok v)) :
    v.isPlain := by
  rcases Path.literal?_cases h with hread | ⟨b, hb⟩
  · cases hread with
    | whole hfits => exact hfits
    | float x => rfl
  · cases hb
    rfl

/-! ## Showing plain values -/

mutual

/-- Plain values have lenient JSON. -/
theorem Value.isWritable_of_isPlain : {v : Value} → v.isPlain → v.isWritable
  | .list items, h | .tuple items, h => by
    rw [Value.isPlain, Bool.and_eq_true] at h
    rw [Value.isWritable]
    exact Value.allWritable_of_allPlain h.2
  | .int n, h => by
    rw [Value.isPlain] at h
    rwa [Value.isWritable]
  | .range start stop, h => by
    rw [Value.isPlain, Bool.and_eq_true] at h
    rw [Value.isWritable]
    exact h.1
  | .dict entries, h => by
    rw [Value.isPlain] at h
    rw [Value.isWritable]
    exact Value.allEntriesWritable_of_allEntriesPlain h
  | .null, _ | .bool _, _ | .float _, _ | .str _, _ | .view _, _ | .bytes _, _ | .object _, _ => rfl

theorem Value.allWritable_of_allPlain : {items : List Value} → Value.allPlain items →
    Value.allWritable items
  | [], _ => rfl
  | v :: rest, h => by
    simp only [Value.allPlain, Bool.and_eq_true] at h
    rw [Value.allWritable, Value.isWritable_of_isPlain h.1, Value.allWritable_of_allPlain h.2]
    rfl

theorem Value.allEntriesWritable_of_allEntriesPlain : {entries : List (Key × Value)} →
    Value.allEntriesPlain entries → Value.allEntriesWritable entries
  | [], _ => rfl
  | (k, v) :: rest, h => by
    simp only [Value.allEntriesPlain, Bool.and_eq_true] at h
    rw [Value.allEntriesWritable, h.1.1, Value.isWritable_of_isPlain h.1.2,
      Value.allEntriesWritable_of_allEntriesPlain h.2]
    rfl

end

mutual

/-- A plain value can be shown. -/
theorem Value.isShowable_of_isPlain : {v : Value} → v.isPlain → v.isShowable
  | .list items, h | .tuple items, h => by
    rw [Value.isPlain, Bool.and_eq_true] at h
    rw [Value.isShowable]
    exact Value.allShowable_of_allPlain h.2
  | .int n, h => by
    rw [Value.isPlain] at h
    rwa [Value.isShowable]
  | .range start stop, h => by
    rw [Value.isPlain, Bool.and_eq_true] at h
    rw [Value.isShowable]
    exact h.1
  | .dict entries, h | .view entries, h => by
    rw [Value.isPlain] at h
    rw [Value.isShowable]
    exact Value.allEntriesWritable_of_allEntriesPlain h
  | .null, _ | .bool _, _ | .float _, _ | .str _, _ | .bytes _, _ | .object _, _ => rfl

theorem Value.allShowable_of_allPlain : {items : List Value} → Value.allPlain items →
    Value.allShowable items
  | [], _ => rfl
  | v :: rest, h => by
    simp only [Value.allPlain, Bool.and_eq_true] at h
    rw [Value.allShowable, Value.isShowable_of_isPlain h.1, Value.allShowable_of_allPlain h.2]
    rfl

end

/-! ## Plain scopes -/

/-- All values that a layer binds names to are plain. -/
def Bindings.Plain (bindings : Bindings) : Prop :=
  ∀ k v, (k, some v) ∈ bindings → v.isPlain

/-- The data is a mapping of plain values, whatever its own keys are, and the layers on it bind names
to plain values. -/
structure Scope.Plain (s : Scope) : Prop where
  data : ∃ entries, s.data.entries? = some entries ∧ ∀ k v, (k, v) ∈ entries → v.isPlain
  layers : ∀ layer ∈ s.layers, layer.Plain

theorem Bindings.Plain.get? {bindings : Bindings} {name : String} {v : Value}
    (h : bindings.Plain) (hget : bindings.get? name = some (some v)) : v.isPlain := by
  induction bindings with
  | nil => cases hget
  | cons b rest ih =>
    have hrest : Bindings.Plain rest := fun k w hw => h k w (List.mem_cons_of_mem _ hw)
    unfold Bindings.get? at hget
    split at hget
    · next => cases hget
    · next heq =>
      cases heq
      split at hget
      · cases hget
        exact h _ _ List.mem_cons_self
      · exact ih hrest hget
    · next heq =>
      cases heq
      exact ih hrest hget

/-- A loop binds its names to an item and to the place of the item. -/
theorem Bindings.plain_loopBindings (item index : String) {k : Nat} {x : Value}
    (hk : k ≤ countLimit) (hx : x.isPlain) : (loopBindings item index k x).Plain := by
  have hplace : (Value.int k).isPlain := Numeral.fits_of_le_countLimit hk
  intro key v hmem
  rw [loopBindings] at hmem
  split at hmem
  · cases List.mem_singleton.mp hmem
    exact hx
  · rw [Bindings.insert] at hmem
    split at hmem
    · cases List.mem_singleton.mp hmem
      exact hplace
    · rcases List.mem_cons.mp hmem with heq | hmem
      · cases heq
        exact hx
      · cases List.mem_singleton.mp hmem
        exact hplace

namespace Scope.Plain

variable {s : Scope}

theorem push (h : s.Plain) {bindings : Bindings} (hbindings : bindings.Plain) :
    (s.push bindings).Plain where
  data := h.data
  layers := List.forall_mem_cons.mpr ⟨hbindings, h.layers⟩

/-- Every name can be looked up, and stands for a plain value if for any. -/
theorem exists_get_eq (h : s.Plain) (name : String) :
    ∃ found, s.get name = .ok found ∧ ∀ v, found = some v → v.isPlain := by
  rcases h.data with ⟨entries, hentries, hplain⟩
  refine ⟨_, Scope.get_eq_ok hentries name, ?_⟩
  intro v hv
  -- a layer that binds the name wins over the data
  rcases hlayers : s.layers.findSome? (Bindings.get? name) with _ | binding
  · rw [hlayers, Option.getD_none] at hv
    rcases Entries.exists_mem_of_get? hv with ⟨k, hmem⟩
    exact hplain k v hmem
  · rw [hlayers, Option.getD_some] at hv
    rcases List.exists_of_findSome?_eq_some hlayers with ⟨layer, hmem, hget⟩
    exact (h.layers layer hmem).get? (hget.trans (congrArg some hv))

/-- Every path that can be read can be looked up, and leads to a plain value if to any. -/
theorem exists_value_eq (h : s.Plain) {path : String} (hpath : Path.isReadable path) :
    ∃ found, s.value path = .ok found ∧ ∀ v, found = some v → v.isPlain := by
  rw [Path.isReadable, Bool.and_eq_true] at hpath
  rcases hliteral : Path.literal? (Text.trim path.toList) with _ | read
  · by_cases hne : Text.trim path.toList = []
    · exact ⟨none, s.value_of_trim_eq_nil hne, fun v hv => nomatch hv⟩
    · obtain ⟨found, hfound, hplain⟩ :=
        h.exists_get_eq (String.ofList (Text.split '.' (Text.trim path.toList)).1)
      rw [s.value_eq_bind_get rfl hne hliteral, hfound]
      cases found with
      | none => exact ⟨none, rfl, fun v hv => nomatch hv⟩
      | some u =>
        refine Value.exists_descend?_eq (hplain u rfl) ?_
        rw [List.forall_mem_map]
        exact List.all_eq_true.mp hpath.2
  · rw [s.value_of_literal? hliteral]
    rcases read with fault | v
    · rw [hliteral] at hpath
      cases hpath.1
    · refine ⟨some v, rfl, ?_⟩
      rintro _ ⟨⟩
      exact Path.isPlain_of_literal? hliteral

/-- What a path that can be read leads to can be shown. -/
theorem shows (h : s.Plain) {path : String} (hpath : Path.isReadable path) : s.Shows path := by
  obtain ⟨found, hfound, hplain⟩ := h.exists_value_eq hpath
  exact ⟨found, hfound, fun v hv => Value.isShowable_of_isPlain (hplain v hv)⟩

/-- Conditions on paths that can be read can be decided. -/
theorem exists_holds_eq (h : s.Plain) {test : Condition}
    (htest : ∀ path, test.path? = some path → Path.isReadable path) :
    ∃ met, test.holds s = .ok met := by
  cases test with
  | path p =>
    obtain ⟨found, hfound, -⟩ := h.exists_value_eq (htest p rfl)
    exact ⟨_, by rw [Condition.holds, hfound]; rfl⟩
  | negated p =>
    obtain ⟨found, hfound, -⟩ := h.exists_value_eq (htest p rfl)
    exact ⟨_, by rw [Condition.holds, hfound]; rfl⟩
  | invalid => exact ⟨false, rfl⟩

/-- A pass of a loop over plain data has plain data. -/
theorem loop (h : s.Plain) {v : Value} {items : List Value} (item index : String) {k : Nat}
    {x : Value} (hv : v.isPlain) (hitems : v.items? = some items) (hx : items[k]? = some x) :
    (s.push (loopBindings item index k x)).Plain := by
  obtain ⟨hcount, hplain⟩ := Value.items_plain hv hitems
  have hk : k < items.length := (List.getElem?_eq_some_iff.mp hx).1
  exact h.push (Bindings.plain_loopBindings item index (by omega)
    (hplain x (List.mem_of_getElem? hx)))

/-- Over plain data a tree completes if its paths can be read. -/
theorem completes {t : Tree} (h : s.Plain) (ht : Tree.isReadable t) :
    Tree.Completes anyEmbedded s t := by
  induction t using Tree.induct generalizing s with
  | nil => exact Tree.completes_nil
  | cons n rest ihn ih =>
    obtain ⟨hn, hrest⟩ := Tree.isReadable_cons.mp ht
    rw [Tree.completes_cons]
    exact ⟨Tree.completes_singleton.mp (ihn h hn), ih h hrest⟩
  | leaf n hn =>
    have hpath : ∀ path ∈ n.paths, Path.isReadable path := by
      simpa [Tree.isReadable, Tree.paths] using ht
    rw [Tree.completes_singleton]
    cases n with
    | cond | each | embed => exact hn.elim
    | text | bare => exact trivial
    | value path => exact h.shows (hpath path List.mem_cons_self)
    | html path => exact h.shows (hpath path List.mem_cons_self)
    | json path =>
      exact (h.exists_value_eq (hpath path List.mem_cons_self)).imp fun _ hfound => hfound.1
  | embed name =>
    rw [Tree.completes_singleton]
    exact trivial
  | cond condition test body ih =>
    obtain ⟨htest, hbody, -⟩ := Tree.isReadable_cond.mp ht
    obtain ⟨met, hmet⟩ := h.exists_holds_eq htest
    rw [Tree.completes_singleton, Node.completes_cond]
    refine ⟨met, hmet, ?_⟩
    cases met with
    | true => exact ih h hbody
    | false => exact Tree.completes_nil
  | condElse condition test body other ihbody ihother =>
    obtain ⟨htest, hbody, hother⟩ := Tree.isReadable_cond.mp ht
    obtain ⟨met, hmet⟩ := h.exists_holds_eq htest
    rw [Tree.completes_singleton, Node.completes_cond]
    refine ⟨met, hmet, ?_⟩
    cases met with
    | true => exact ihbody h hbody
    | false => exact ihother h hother
  -- each pass has plain data again, so the induction is over all plain scopes
  | each collection item index body ih =>
    obtain ⟨hcollection, hbody⟩ := Tree.isReadable_each.mp ht
    obtain ⟨found, hfound, hplain⟩ := h.exists_value_eq hcollection
    rw [Tree.completes_singleton, Node.completes_each]
    refine ⟨found, hfound, fun k x hx => ?_⟩
    rcases found with _ | v
    · simp at hx
    · rw [Option.bind_some] at hx
      rcases hitems : v.items? with _ | items
      · simp [hitems] at hx
      · rw [hitems, Option.getD_some] at hx
        exact ih (h.loop item index (hplain v rfl) hitems hx) hbody

end Scope.Plain

end Curly
