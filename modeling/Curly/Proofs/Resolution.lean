import Curly.Proofs.LoopNames

/-!
# Paths one after another

A path is looked up segment by segment, so what a path leads to decides what the longer paths that
begin with it lead to (`Scope.value_append`), whatever the segments step through: mappings, lists,
tuples and ranges, or the layers of a scope at the first segment. From that it follows that a path
after a path is looked up in what the first one leads to, and that the name of a loop's item stands
for the path of the item (`Scope.value_compositional`). Literals are apart: they are told by the
whole path, and a path that is none does not become one by more segments.
-/

namespace Curly

open Text

namespace Scope

/-- More segments go behind a path, whatever blanks are before it. -/
theorem trim_append_point {p q : String} (hend : EndsUnblank p.toList)
    (hne : trim p.toList ≠ []) (hq : EndsUnblank q.toList) :
    trim (p ++ "." ++ q).toList = trim p.toList ++ '.' :: q.toList := by
  rcases hend.exists_blanks_before with ⟨before, hbefore, hp⟩
  have hpoint : EndsUnblank ['.'] := by
    rintro _ ⟨⟩
    decide
  have hlast : EndsUnblank ('.' :: q.toList) := by
    rw [← List.singleton_append]
    exact hq.append fun _ => hpoint
  have htext : (p ++ "." ++ q).toList = before ++ (trim p.toList ++ '.' :: q.toList ++ []) := by
    rw [String.toList_append, String.toList_append, List.append_nil, ← List.append_assoc, ← hp,
      List.append_assoc]
    rfl
  rw [htext, trim_append hbefore (List.append_ne_nil_of_left_ne_nil hne _)
    ((beginsUnblank_trim p.toList).append hne _)
    (hlast.append fun hnil => (List.cons_ne_nil _ _ hnil).elim) (List.forall_mem_nil _)]

/-- What a path leads to decides where it leads with more segments. -/
theorem value_append (s : Scope) {p q : String} (hend : EndsUnblank p.toList)
    (hne : trim p.toList ≠ []) (hliteral : Path.literal? (trim p.toList) = none)
    (hq : EndsUnblank q.toList) :
    s.value (p ++ "." ++ q) =
      (s.value p).bind (Value.descendFrom? · ((splitList '.' q.toList).map String.ofList)) := by
  rw [s.value_eq_bind_get (trim_append_point hend hne hq) (List.append_ne_nil_of_left_ne_nil hne _)
    (Path.literal?_append_eq_none hliteral _), s.value_eq_bind_get rfl hne hliteral,
    split_append_cons]
  rcases s.get (String.ofList (split '.' (trim p.toList)).1) with fault | found
  · rfl
  · change Value.descendFrom? found (List.map String.ofList (_ ++ _)) = _
    rw [List.map_append, Value.descendFrom?_append]
    rfl

/-- For a path without blanks the text itself tells whether it is a literal. -/
theorem value_append_of_isRun (s : Scope) {good : Char → Bool} {p q : String}
    (hp : IsRun good p) (hblank : ∀ c, good c → isBlank c = false)
    (hliteral : Path.literal? p.toList = none) (hq : EndsUnblank q.toList) :
    s.value (p ++ "." ++ q) =
      (s.value p).bind (Value.descendFrom? · ((splitList '.' q.toList).map String.ofList)) := by
  have htrim : trim p.toList = p.toList := hp.trim_eq_self hblank
  refine s.value_append (hp.endsUnblank hblank) ?_ ?_ hq
  · rw [htrim]
    exact hp.toList_ne_nil
  · rw [htrim]
    exact hliteral

/-- From a value a path that is no literal is nothing but steps. -/
theorem value_ofData (v : Value) {q : String} (hq : IsRun Path.isPathChar q)
    (hliteral : Path.literal? q.toList = none) :
    (ofData v).value q = v.descend? ((splitList '.' q.toList).map String.ofList) := by
  have htrim : trim q.toList = q.toList := hq.trim_eq_self fun _ => Path.isBlank_of_isPathChar
  rw [value_eq_bind_get _ htrim hq.toList_ne_nil hliteral, splitList, List.map_cons,
    Value.descend?_cons]
  rfl

/-- A path after a path is looked up in what the first one leads to. -/
theorem value_append_eq_bind (s : Scope) {p q : String} (hp : IsRun Path.isPathChar p)
    (hq : IsRun Path.isPathChar q) (hpliteral : Path.literal? p.toList = none)
    (hqliteral : Path.literal? q.toList = none) :
    s.value (p ++ "." ++ q) = (s.value p).bind fun found =>
      match found with
      | none => .ok none
      | some u => (ofData u).value q := by
  rw [s.value_append_of_isRun hp (fun _ => Path.isBlank_of_isPathChar) hpliteral
    (hq.endsUnblank fun _ => Path.isBlank_of_isPathChar)]
  rcases s.value p with fault | _ | u
  · rfl
  · rfl
  · exact (value_ofData u hq hqliteral).symm

/-! ## The name of an item -/

section Items

variable {s : Scope} {path item index : String} {v x : Value} {items : List Value} {k : Nat}

theorem endsUnblank_repr (k : Nat) : EndsUnblank (toString k).toList := by
  have hdigits : (toString k).toList = Decimal.digitsOf k := Nat.toList_repr
  intro c hc
  rw [hdigits] at hc
  exact Path.isBlank_of_isDigit (Path.isDigit_of_mem_digitsOf (List.mem_of_getLast? hc))

/-- A path to a collection is no literal. -/
theorem literal?_eq_none_of_items? (hvalue : s.value path = .ok (some v))
    (hitems : v.items? = some items) :
    trim path.toList ≠ [] ∧ Path.literal? (trim path.toList) = none := by
  rcases (value_eq_some_iff rfl).mp hvalue with hliteral | ⟨hliteral, hne, -⟩
  · rw [Path.items?_of_literal? hliteral] at hitems
    cases hitems
  · exact ⟨hne, hliteral⟩

/-- The path of a collection with a place that can be read leads to the item at that place. -/
theorem value_place (hvalue : s.value path = .ok (some v)) (hend : EndsUnblank path.toList)
    (hitems : v.items? = some items) (hfits : Numeral.fits k) (hx : items[k]? = some x) :
    s.value (path ++ "." ++ toString k) = .ok (some x) := by
  rcases literal?_eq_none_of_items? hvalue hitems with ⟨hne, hliteral⟩
  have hdigits : (toString k).toList = Decimal.digitsOf k := Nat.toList_repr
  have hpoint : '.' ∉ Decimal.digitsOf k :=
    fun hmem => Bool.false_ne_true (Path.isDigit_of_mem_digitsOf hmem)
  rw [s.value_append hend hne hliteral (endsUnblank_repr k), hvalue, hdigits, splitList,
    split_of_not_mem hpoint]
  change v.descend? [String.ofList (Decimal.digitsOf k)] = _
  rw [Value.descend?_cons, Value.child?_digitsOf hitems hfits, hx]
  rfl

/-- With more segments it leads to what they lead to in the item. -/
theorem value_place_append (hvalue : s.value path = .ok (some v)) (hend : EndsUnblank path.toList)
    (hitems : v.items? = some items) (hfits : Numeral.fits k) (hx : items[k]? = some x) {q : String}
    (hq : EndsUnblank q.toList) :
    s.value (path ++ "." ++ toString k ++ "." ++ q) =
      x.descend? ((splitList '.' q.toList).map String.ofList) := by
  rcases literal?_eq_none_of_items? hvalue hitems with ⟨hne, hliteral⟩
  have htrim := trim_append_point hend hne (endsUnblank_repr k)
  have hdigits : (toString k).toList ≠ [] := by
    rw [show (toString k).toList = Decimal.digitsOf k from Nat.toList_repr]
    exact Nat.toDigits_ne_nil
  have hplaceEnd : EndsUnblank (path ++ "." ++ toString k).toList := by
    rw [String.toList_append]
    exact (endsUnblank_repr k).append fun hnil => (hdigits hnil).elim
  rw [s.value_append hplaceEnd (htrim.symm ▸ List.append_ne_nil_of_left_ne_nil hne _)
    (htrim.symm ▸ Path.literal?_append_eq_none hliteral _) hq, value_place hvalue hend hitems hfits hx]
  rfl

/-- In the body of a loop the name of the item leads to the item, unless it is a literal. -/
theorem value_item (s : Scope) (hitem : IsRun isWord item)
    (hliteral : Path.literal? item.toList = none) (hne : item ≠ index) (k : Nat) (x : Value) :
    (s.push (loopBindings item index k x)).value item = .ok (some x) := by
  rw [value_of_word hitem, hliteral]
  refine get_push_of_bound ?_ s
  rw [loopBindings]
  split
  · exact Bindings.get?_cons_self ..
  · rw [Bindings.get?_insert_of_ne (fun heq => hne (Key.str.inj heq).symm),
      Bindings.get?_cons_self]

/-- With more segments the name leads to what they lead to in the item. -/
theorem value_item_append (s : Scope) (hitem : IsRun isWord item)
    (hliteral : Path.literal? item.toList = none) (hne : item ≠ index) (k : Nat) (x : Value)
    {q : String} (hq : EndsUnblank q.toList) :
    (s.push (loopBindings item index k x)).value (item ++ "." ++ q) =
      x.descend? ((splitList '.' q.toList).map String.ofList) := by
  rw [value_append_of_isRun _ hitem (fun _ => isBlank_of_isWord) hliteral hq,
    s.value_item hitem hliteral hne k x]
  rfl

end Items

/-- Paths one after another, and the names of items. A path after a path, neither of them a literal,
is looked up in what the first one leads to, and leads nowhere if that one does. In each pass
through a loop over the items of a list or a tuple the name of the item, and each path that begins
with it, lead to what the path of the collection leads to outside, with the place of the item, if it can
be read, and the rest of the path after it. -/
theorem value_compositional (s : Scope) :
    (∀ p q : String, IsRun Path.isPathChar p → IsRun Path.isPathChar q →
      Path.literal? p.toList = none → Path.literal? q.toList = none →
      s.value (p ++ "." ++ q) = (s.value p).bind fun found =>
        match found with
        | none => .ok none
        | some u => (ofData u).value q) ∧
    ∀ (path item index : String) (v : Value) (items : List Value) (k : Nat) (x : Value),
      s.value path = .ok (some v) → EndsUnblank path.toList → v.items? = some items →
      IsRun isWord item → Path.literal? item.toList = none → item ≠ index → Numeral.fits k →
      items[k]? = some x →
      (s.push (loopBindings item index k x)).value item = .ok (some x) ∧
      s.value (path ++ "." ++ toString k) = .ok (some x) ∧
      ∀ q : String, IsRun Path.isPathChar q →
        (s.push (loopBindings item index k x)).value (item ++ "." ++ q) =
          s.value (path ++ "." ++ toString k ++ "." ++ q) := by
  refine ⟨?_, ?_⟩
  · intro p q hp hq hpliteral hqliteral
    exact s.value_append_eq_bind hp hq hpliteral hqliteral
  · intro path item index v items k x hvalue hend hitems hitem hliteral hne hfits hx
    refine ⟨s.value_item hitem hliteral hne k x, value_place hvalue hend hitems hfits hx, ?_⟩
    intro q hq
    have hqend : EndsUnblank q.toList := hq.endsUnblank fun _ => Path.isBlank_of_isPathChar
    rw [s.value_item_append hitem hliteral hne k x hqend,
      value_place_append hvalue hend hitems hfits hx hqend]

/-- A scope with a table of one row. -/
def table : Scope := ofData (.dict [(.str "rows", .list [.tuple [.str "a", .str "b"]])])

/-- A word of the table under its path, and under the name of its row. -/
theorem value_compositional_table :
    table.value ("rows" ++ "." ++ "x.1") =
      (ofData (.list [.tuple [.str "a", .str "b"]])).value "x.1" ∧
    (table.push (loopBindings "row" "" 0 (.tuple [.str "a", .str "b"]))).value "row" =
      .ok (some (.tuple [.str "a", .str "b"])) ∧
    (table.push (loopBindings "row" "" 0 (.tuple [.str "a", .str "b"]))).value
        ("row" ++ "." ++ "1") =
      table.value ("rows" ++ "." ++ toString 0 ++ "." ++ "1") := by
  have hrows : IsRun Path.isPathChar "rows" := isRun_of_all (by decide) (by decide)
  have hx : IsRun Path.isPathChar "x.1" := isRun_of_all (by decide) (by decide)
  have hone : IsRun Path.isPathChar "1" := isRun_of_all (by decide) (by decide)
  have hrow : IsRun isWord "row" := isRun_of_all (by decide) (by decide)
  have hvalue : table.value "rows" = .ok (some (.list [.tuple [.str "a", .str "b"]])) := rfl
  obtain ⟨happend, hloop⟩ := table.value_compositional
  have hrowsLiteral : Path.literal? "rows".toList = none := by decide
  have hxLiteral : Path.literal? "x.1".toList = none := by decide
  obtain ⟨hself, -, hlonger⟩ := hloop "rows" "row" "" _ _ 0 (.tuple [.str "a", .str "b"]) hvalue
    (hrows.endsUnblank fun _ => Path.isBlank_of_isPathChar) rfl hrow (by decide) (by decide) (by decide) rfl
  refine ⟨?_, hself, hlonger "1" hone⟩
  rw [happend "rows" "x.1" hrows hx hrowsLiteral hxLiteral, hvalue]
  rfl

end Scope

end Curly
