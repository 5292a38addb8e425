import Curly.Proofs.Cutting

/-!
# Printing trees

`Tree.print` writes a tree as a template, each node with its usual tags. A tree is normal if all that
stands in its nodes can be written and no two texts stand side by side (`Tree.IsNormal`). Compiling
with all text undoes printing on the normal trees, and they are all that any text compiles to
(`compile_print_iff`).

The symbols of a tree connect the two sides. A tree is normal exactly if it is as read and its symbols
can be told apart in their text (`Tree.isNormal_iff_lexical`), and what is printed is the text of its
symbols (`Tree.toList_print`).
-/

namespace Curly

/-! ## Trees that can be written -/

/-- A node that is a text. -/
def Node.IsText : Node → Prop
  | .text _ => True
  | _ => False

mutual

/-- A node that can be written: its arguments fit into its tag, its text is not empty and holds no
tag, and a condition is the one that its text reads as. -/
def Node.IsNormal : Node → Prop
  | .text content => content ≠ "" ∧ Tag.Absent content.toList
  | .value path | .json path | .html path => (Tag.value path).IsNormal
  | .embed name => (Tag.embed name).IsNormal
  | .cond condition test body none =>
    (Tag.ifOpen condition).IsNormal ∧ test = Condition.ofText condition ∧ Tree.IsNormal body
  | .cond condition test body (some other) =>
    (Tag.ifOpen condition).IsNormal ∧ test = Condition.ofText condition ∧ Tree.IsNormal body ∧
      Tree.IsNormal other
  | .each collection item index body =>
    (Tag.eachOpen collection item index).IsNormal ∧ Tree.IsNormal body
  | .bare => False

/-- All nodes can be written, and none of them is a text with a text after it. -/
def Tree.IsNormal : List Node → Prop
  | [] => True
  | n :: rest =>
    n.IsNormal ∧ (∀ m ∈ rest.head?, n.IsText → ¬ m.IsText) ∧ Tree.IsNormal rest

end

mutual

/-- The text of a node. -/
def Node.print : Node → String
  | .text content => content
  | .value path => (Tag.value path).print
  | .json path => (Tag.json path).print
  | .html path => (Tag.html path).print
  | .embed name => (Tag.embed name).print
  | .cond condition _ body none =>
    (Tag.ifOpen condition).print ++ Tree.print body ++ (Tag.close .cond).print
  | .cond condition _ body (some other) =>
    (Tag.ifOpen condition).print ++ Tree.print body ++ Tag.elseMark.print ++ Tree.print other ++
      (Tag.close .cond).print
  | .each collection item index body =>
    (Tag.eachOpen collection item index).print ++ Tree.print body ++ (Tag.close .each).print
  | .bare => ""

/-- The text of a tree. -/
def Tree.print : List Node → String
  | [] => ""
  | n :: rest => n.print ++ Tree.print rest

end

theorem Tree.isNormal_cons {n : Node} {rest : Tree} :
    Tree.IsNormal (n :: rest) ↔
      n.IsNormal ∧ (∀ m ∈ rest.head?, n.IsText → ¬ m.IsText) ∧ Tree.IsNormal rest := by
  rw [Tree.IsNormal]

theorem Tree.isNormal_nil : Tree.IsNormal [] := by
  rw [Tree.IsNormal]
  trivial

theorem Tree.isNormal_singleton {n : Node} : Tree.IsNormal [n] ↔ n.IsNormal := by
  rw [Tree.isNormal_cons]
  exact and_iff_left ⟨nofun, Tree.isNormal_nil⟩

theorem Tree.print_cons (n : Node) (rest : Tree) :
    Tree.print (n :: rest) = n.print ++ Tree.print rest := by
  rw [Tree.print]

theorem Tree.print_singleton (n : Node) : Tree.print [n] = n.print := by
  rw [Tree.print_cons, Tree.print, String.append_empty]

/-! ## The symbols of a tree and its text -/

theorem Tag.toList_print (tag : Tag) : tag.print.toList = Symbol.source (.tag tag) :=
  String.toList_ofList

/-- What is printed for a tree is what is written for its symbols. -/
theorem Tree.toList_print (t : Tree) :
    (Tree.print t).toList = (Tree.symbols t).flatMap Symbol.source := by
  induction t using Tree.induct with
  | nil => rfl
  | cons n rest ihn ih =>
    rw [Tree.print_singleton, Tree.symbols_singleton] at ihn
    rw [Tree.print_cons, Tree.symbols_cons, String.toList_append, List.flatMap_append, ihn, ih]
  | leaf n hn =>
    rw [Tree.print_singleton, Tree.symbols_singleton]
    cases n with
    | text content => exact (List.append_nil _).symm
    | value path | json path | html path => simp [Node.print, Node.symbols, Tag.toList_print]
    | bare => rfl
    | embed => exact hn.elim
    | cond => exact hn.elim
    | each => exact hn.elim
  | embed name =>
    rw [Tree.print_singleton, Tree.symbols_singleton]
    simp [Node.print, Node.symbols, Tag.toList_print]
  | cond condition test body ih =>
    rw [Tree.print_singleton, Tree.symbols_singleton]
    simp [Node.print, Node.symbols, Tag.toList_print, ih]
  | condElse condition test body other ihbody ihother =>
    rw [Tree.print_singleton, Tree.symbols_singleton]
    simp [Node.print, Node.symbols, Tag.toList_print, ihbody, ihother]
  | each collection item index body ih =>
    rw [Tree.print_singleton, Tree.symbols_singleton]
    simp [Node.print, Node.symbols, Tag.toList_print, ih]

example : Tree.print [.text "Hi ", .each "rows" "row" "i" [.value "row.name"], .embed "end"] =
    "Hi \x7b#each rows as row, i\x7d\x7b row.name \x7d\x7b/each\x7d\x7b#include \"end\"\x7d" := by
  decide

/-- The symbols of a node that is read begin and end with a text only if the node is one. -/
theorem Node.border_symbols {n : Node} (hn : n.IsRead) :
    (∃ x, n.symbols.head? = some x ∧ (x.IsText ↔ n.IsText)) ∧
      ∃ x, n.symbols.getLast? = some x ∧ (x.IsText ↔ n.IsText) := by
  cases n with
  | text | value | json | html | embed => exact ⟨⟨_, rfl, Iff.rfl⟩, _, rfl, Iff.rfl⟩
  | cond condition test body other =>
    have hlast : (Node.cond condition test body other).symbols.getLast? =
        some (.tag (.close .cond)) := by
      cases other <;> simp [Node.symbols, List.getLast?_cons]
    refine ⟨?_, _, hlast, Iff.rfl⟩
    cases other with
    | none => exact ⟨_, rfl, Iff.rfl⟩
    | some other => exact ⟨_, rfl, Iff.rfl⟩
  | each collection item index body =>
    have hlast : (Node.each collection item index body).symbols.getLast? =
        some (.tag (.close .each)) := by
      simp [Node.symbols, List.getLast?_cons]
    exact ⟨⟨_, rfl, Iff.rfl⟩, _, hlast, Iff.rfl⟩
  | bare => exact hn.elim

/-- Where a node meets the nodes after it, no two texts meet exactly if no two symbols that are
texts do. -/
theorem Tree.border_iff {n : Node} {rest : Tree} (hn : n.IsRead) (hrest : Tree.IsRead rest) :
    (∀ x ∈ n.symbols.getLast?, ∀ y ∈ (Tree.symbols rest).head?, x.IsText → ¬ y.IsText) ↔
      ∀ m ∈ rest.head?, n.IsText → ¬ m.IsText := by
  rcases (Node.border_symbols hn).2 with ⟨last, hlast, htext⟩
  rw [hlast]
  cases rest with
  | nil => simp
  | cons m more =>
    have hm : m.IsRead := hrest m (.here List.mem_cons_self)
    rcases (Node.border_symbols hm).1 with ⟨first, hfirst, hother⟩
    rw [Tree.symbols_cons, List.head?_append, hfirst]
    simp [htext, hother]

/-- A tree is normal exactly if it is as read and its symbols can be told apart. -/
theorem Tree.isNormal_iff_lexical (t : Tree) :
    Tree.IsNormal t ↔ Tree.IsRead t ∧ Lexical (Tree.symbols t) := by
  induction t using Tree.induct with
  | nil => exact iff_of_true Tree.isNormal_nil ⟨Tree.isRead_nil, lexical_nil⟩
  | cons n rest ihn ih =>
    rw [Tree.isNormal_singleton, Tree.symbols_singleton] at ihn
    -- where two nodes meet, their borders are those of their symbols
    rw [Tree.isNormal_cons, ihn, ih, @Tree.isRead_cons n rest, Tree.symbols_cons, lexical_append]
    constructor
    · rintro ⟨⟨hn, hsymbols⟩, hborder, hrest, hmore⟩
      exact ⟨⟨hn, hrest⟩, hsymbols, hmore,
        (Tree.border_iff (hn n (.here List.mem_cons_self)) hrest).mpr hborder⟩
    · rintro ⟨⟨hn, hrest⟩, hsymbols, hmore, hborder⟩
      exact ⟨⟨hn, hsymbols⟩,
        (Tree.border_iff (hn n (.here List.mem_cons_self)) hrest).mp hborder, hrest, hmore⟩
  | leaf n hn =>
    rw [Tree.isNormal_singleton, Tree.isRead_leaf hn, Tree.symbols_singleton]
    cases n with
    | text | value | json | html =>
      rw [Node.IsNormal, Node.symbols, lexical_singleton]
      exact (and_iff_right trivial).symm
    | bare => exact iff_of_false id fun h => h.1
    | embed => exact hn.elim
    | cond => exact hn.elim
    | each => exact hn.elim
  | embed name =>
    rw [Tree.isNormal_singleton, Tree.symbols_singleton, Node.IsNormal, Node.symbols,
      lexical_singleton]
    exact (and_iff_right (Tree.isRead_embed name)).symm
  | cond condition test body ih =>
    rw [Tree.isNormal_singleton, Tree.isRead_cond, Tree.symbols_singleton, Node.IsNormal,
      Node.symbols, lexical_tag_cons, lexical_append_tag, ih]
    constructor
    · rintro ⟨hcondition, htest, hbody, hsymbols⟩
      exact ⟨⟨htest, hbody, Tree.isRead_nil⟩, hcondition, hsymbols, trivial, lexical_nil⟩
    · rintro ⟨⟨htest, hbody, -⟩, hcondition, hsymbols, -⟩
      exact ⟨hcondition, htest, hbody, hsymbols⟩
  | condElse condition test body other ihbody ihother =>
    rw [Tree.isNormal_singleton, Tree.isRead_cond, Tree.symbols_singleton, Node.IsNormal,
      Node.symbols, lexical_tag_cons, lexical_append_tag, lexical_append_tag, ihbody, ihother]
    constructor
    · rintro ⟨hcondition, htest, ⟨hbody, hsymbols⟩, hother, hmore⟩
      exact ⟨⟨htest, hbody, hother⟩, hcondition, hsymbols, trivial, hmore, trivial, lexical_nil⟩
    · rintro ⟨⟨htest, hbody, hother⟩, hcondition, hsymbols, -, hmore, -⟩
      exact ⟨hcondition, htest, ⟨hbody, hsymbols⟩, hother, hmore⟩
  | each collection item index body ih =>
    rw [Tree.isNormal_singleton, Tree.isRead_each, Tree.symbols_singleton, Node.IsNormal,
      Node.symbols, lexical_tag_cons, lexical_append_tag, ih]
    constructor
    · rintro ⟨hnames, hbody, hsymbols⟩
      exact ⟨hbody, hnames, hsymbols, trivial, lexical_nil⟩
    · rintro ⟨hbody, hnames, hsymbols, -⟩
      exact ⟨hnames, hbody, hsymbols⟩

/-! ## Compiling what is printed -/

/-- The symbols of a normal tree are cut from what is printed for it. -/
theorem Tree.symbolsOf_print {t : Tree} (h : Tree.IsNormal t) :
    symbolsOf (Tree.print t) = Tree.symbols t := by
  have hlexical := ((Tree.isNormal_iff_lexical t).mp h).2
  rw [symbolsOf_eq_map, Tree.toList_print, hlexical.map_symbol_pieces]

/-- What is printed for a normal tree compiles to the tree. -/
theorem Tree.compile_print {t : Tree} (h : Tree.IsNormal t) (name : String) :
    compile (Tree.print t) name false = .ok t :=
  compile_eq_ok.mpr ⟨((Tree.isNormal_iff_lexical t).mp h).1, (Tree.symbolsOf_print h).symm⟩

/-- Compiling with all text undoes printing on the normal trees, and these are the trees that a text
compiles to. -/
theorem compile_print_iff (t : Tree) (name : String) :
    (compile (Tree.print t) name false = .ok t ↔ Tree.IsNormal t) ∧
      ((∃ text, compile text name false = .ok t) ↔ Tree.IsNormal t) := by
  have hback : Tree.IsNormal t → compile (Tree.print t) name false = .ok t :=
    fun h => Tree.compile_print h name
  have hnormal : (∃ text, compile text name false = .ok t) → Tree.IsNormal t := by
    rintro ⟨text, hcompile⟩
    rcases compile_eq_ok.mp hcompile with ⟨hread, hsymbols⟩
    refine (Tree.isNormal_iff_lexical t).mpr ⟨hread, ?_⟩
    rw [hsymbols, symbolsOf_eq_map]
    exact lexical_pieces text.toList
  exact ⟨⟨fun h => hnormal ⟨_, h⟩, hback⟩, hnormal, fun h => ⟨_, hback h⟩⟩

end Curly
