/-!
# Patterns

A pattern stands for texts, and its groups capture parts of them. `Pattern.Matches` says which texts
a pattern stands for, as a whole, and what is captured. `Pattern.ways` lists the ways in which it
stands at the start of a longer text, in the order in which a search that tracks back finds them:
what comes first is preferred. The two tell of the same matches (`Pattern.mem_ways`), so a search
finds a match exactly where there is one; which one it finds is `Pattern.first`.
-/

namespace Curly

/-- What groups have captured, in the order of the text. -/
abbrev Captures (γ : Type) := List (γ × List Char)

/-- A pattern whose groups have names in `γ`. -/
inductive Pattern (γ : Type) where
  /-- One character of a class. -/
  | one (p : Char → Bool)
  /-- Characters of a class, preferably many. -/
  | many (p : Char → Bool)
  /-- Characters of a class, preferably few. -/
  | few (p : Char → Bool)
  | nothing
  | seq (front back : Pattern γ)
  /-- Either of two patterns, preferably the first. -/
  | alt (first second : Pattern γ)
  | group (name : γ) (inner : Pattern γ)

/-- A way in which a pattern stands at the start of a text: the part that it takes, what its groups
capture, and what follows. -/
structure Pattern.Way (γ : Type) where
  matched : List Char
  captures : Captures γ
  rest : List Char
deriving DecidableEq

namespace Pattern

variable {γ : Type}

/-! ## Ways to match -/

/-- A way on from where another ends. -/
def Way.andThen (w v : Way γ) : Way γ := ⟨w.matched ++ v.matched, w.captures ++ v.captures, v.rest⟩

/-- A way whose matched part is captured by a group too. -/
def Way.capture (name : γ) (w : Way γ) : Way γ :=
  { w with captures := (name, w.matched) :: w.captures }

/-- The runs of characters of a class at the start of a text, each with what follows it. Shorter
runs come first. -/
def runs (p : Char → Bool) : List Char → List (List Char × List Char)
  | [] => [([], [])]
  | c :: cs =>
    ([], c :: cs) :: if p c then (runs p cs).map fun (run, rest) => (c :: run, rest) else []

/-- The ways in which a pattern stands at the start of a text, the preferred ones first. -/
def ways : Pattern γ → List Char → List (Way γ)
  | one p, c :: cs => if p c then [⟨[c], [], cs⟩] else []
  | one _, [] => []
  | many p, cs => (runs p cs).reverse.map fun (run, rest) => ⟨run, [], rest⟩
  | few p, cs => (runs p cs).map fun (run, rest) => ⟨run, [], rest⟩
  | nothing, cs => [⟨[], [], cs⟩]
  | seq front back, cs => (front.ways cs).flatMap fun w => (back.ways w.rest).map w.andThen
  | alt first second, cs => first.ways cs ++ second.ways cs
  | group name inner, cs => (inner.ways cs).map (Way.capture name)

/-- The way that is found first. -/
def first (p : Pattern γ) (cs : List Char) : Option (Way γ) := (p.ways cs).head?

/-! ## Matches -/

/-- A pattern stands for a text, and its groups capture parts of it. -/
def Matches : Pattern γ → List Char → Captures γ → Prop
  | one p, m, gs => (∃ c, p c ∧ m = [c]) ∧ gs = []
  | many p, m, gs | few p, m, gs => (∀ c ∈ m, p c) ∧ gs = []
  | nothing, m, gs => m = [] ∧ gs = []
  | seq front back, m, gs => ∃ m₁ gs₁ m₂ gs₂, front.Matches m₁ gs₁ ∧ back.Matches m₂ gs₂ ∧
      m = m₁ ++ m₂ ∧ gs = gs₁ ++ gs₂
  | alt first second, m, gs => first.Matches m gs ∨ second.Matches m gs
  | group name inner, m, gs => ∃ gs', inner.Matches m gs' ∧ gs = (name, m) :: gs'

theorem mem_runs {p : Char → Bool} {cs run rest : List Char} :
    (run, rest) ∈ runs p cs ↔ cs = run ++ rest ∧ ∀ c ∈ run, p c := by
  induction cs generalizing run with
  | nil => cases run <;> simp [runs]
  | cons c cs ih =>
    cases run with
    | nil =>
      rw [List.nil_append, eq_comm]
      cases hc : p c with
      | true => simp [runs, hc]
      | false => simp [runs, hc]
    | cons d run =>
      simp only [List.cons_append, List.cons.injEq, List.forall_mem_cons]
      cases hc : p c with
      | true =>
        simp only [runs, hc, if_true, List.mem_cons, Prod.mk.injEq, reduceCtorEq, false_and,
          false_or, List.mem_map, Prod.exists, List.cons.injEq]
        constructor
        · rintro ⟨_, _, hmem, ⟨rfl, rfl⟩, rfl⟩
          rcases ih.mp hmem with ⟨hcs, hrun⟩
          exact ⟨⟨rfl, hcs⟩, hc, hrun⟩
        · rintro ⟨⟨rfl, hcs⟩, -, hrun⟩
          exact ⟨run, rest, ih.mpr ⟨hcs, hrun⟩, ⟨rfl, rfl⟩, rfl⟩
      | false =>
        simp only [runs, hc, Bool.false_eq_true, if_false, List.mem_singleton, Prod.mk.injEq,
          reduceCtorEq, false_and, false_iff]
        rintro ⟨⟨rfl, -⟩, hd, -⟩
        rw [hc] at hd
        cases hd

/-- The ways at the start of a text are the matches of the parts that it begins with. -/
theorem mem_ways {p : Pattern γ} {cs : List Char} {w : Way γ} :
    w ∈ p.ways cs ↔ cs = w.matched ++ w.rest ∧ p.Matches w.matched w.captures := by
  rcases w with ⟨m, gs, rest⟩
  induction p generalizing cs m gs rest with
  | one p =>
    cases cs with
    | nil =>
      simp only [ways, Matches, List.not_mem_nil, false_iff]
      rintro ⟨hnil, ⟨c, -, rfl⟩, -⟩
      cases hnil
    | cons c cs =>
      cases hc : p c with
      | true =>
        simp only [ways, hc, if_true, Matches, List.mem_singleton, Way.mk.injEq]
        constructor
        · rintro ⟨rfl, rfl, rfl⟩
          exact ⟨rfl, ⟨c, hc, rfl⟩, rfl⟩
        · rintro ⟨heq, ⟨d, -, rfl⟩, rfl⟩
          cases heq
          exact ⟨rfl, rfl, rfl⟩
      | false =>
        simp only [ways, hc, Bool.false_eq_true, if_false, Matches, List.not_mem_nil, false_iff]
        rintro ⟨heq, ⟨d, hd, rfl⟩, -⟩
        cases heq
        rw [hc] at hd
        cases hd
  | many p =>
    simp only [ways, Matches, List.mem_map, List.mem_reverse, Prod.exists, mem_runs, Way.mk.injEq]
    constructor
    · rintro ⟨_, _, ⟨hcs, hrun⟩, rfl, rfl, rfl⟩
      exact ⟨hcs, hrun, rfl⟩
    · rintro ⟨hcs, hrun, rfl⟩
      exact ⟨m, rest, ⟨hcs, hrun⟩, rfl, rfl, rfl⟩
  | few p =>
    simp only [ways, Matches, List.mem_map, Prod.exists, mem_runs, Way.mk.injEq]
    constructor
    · rintro ⟨_, _, ⟨hcs, hrun⟩, rfl, rfl, rfl⟩
      exact ⟨hcs, hrun, rfl⟩
    · rintro ⟨hcs, hrun, rfl⟩
      exact ⟨m, rest, ⟨hcs, hrun⟩, rfl, rfl, rfl⟩
  | nothing =>
    simp only [ways, Matches, List.mem_singleton, Way.mk.injEq]
    constructor
    · rintro ⟨rfl, rfl, rfl⟩
      exact ⟨rfl, rfl, rfl⟩
    · rintro ⟨hcs, rfl, rfl⟩
      exact ⟨rfl, rfl, hcs.symm⟩
  -- the back matches where the front has left off, so the rests are those of the back
  | seq front back ihfront ihback =>
    simp only [ways, Matches, List.mem_flatMap, List.mem_map]
    constructor
    · rintro ⟨⟨m₁, gs₁, rest₁⟩, hfront, ⟨m₂, gs₂, rest₂⟩, hback, heq⟩
      cases heq
      rcases (ihfront m₁ gs₁ rest₁).mp hfront with ⟨hcs, hmatch₁⟩
      rcases (ihback m₂ gs₂ rest₂).mp hback with ⟨hrest, hmatch₂⟩
      refine ⟨?_, m₁, gs₁, m₂, gs₂, hmatch₁, hmatch₂, rfl, rfl⟩
      dsimp only at hcs hrest
      rw [hcs, hrest, List.append_assoc]
    · rintro ⟨hcs, m₁, gs₁, m₂, gs₂, hmatch₁, hmatch₂, rfl, rfl⟩
      rw [List.append_assoc] at hcs
      exact ⟨⟨m₁, gs₁, m₂ ++ rest⟩, (ihfront _ _ _).mpr ⟨hcs, hmatch₁⟩, ⟨m₂, gs₂, rest⟩,
        (ihback _ _ _).mpr ⟨rfl, hmatch₂⟩, rfl⟩
  | alt first second ihfirst ihsecond =>
    simp only [ways, Matches, List.mem_append, ihfirst, ihsecond]
    exact and_or_left.symm
  | group name inner ih =>
    simp only [ways, Matches, List.mem_map]
    constructor
    · rintro ⟨⟨m', gs', rest'⟩, hinner, heq⟩
      cases heq
      rcases (ih m' gs' rest').mp hinner with ⟨hcs, hmatch⟩
      exact ⟨hcs, gs', hmatch, rfl⟩
    · rintro ⟨hcs, gs', hmatch, rfl⟩
      exact ⟨⟨m, gs', rest⟩, (ih _ _ _).mpr ⟨hcs, hmatch⟩, rfl⟩

/-- What is found first is a match. -/
theorem matches_of_first {p : Pattern γ} {cs : List Char} {w : Way γ} (h : p.first cs = some w) :
    cs = w.matched ++ w.rest ∧ p.Matches w.matched w.captures :=
  mem_ways.mp (List.mem_of_head? h)

/-- Where a part of a text matches, something is found. -/
theorem first_isSome {p : Pattern γ} {m : List Char} {gs : Captures γ} (h : p.Matches m gs)
    (rest : List Char) : ∃ w, p.first (m ++ rest) = some w := by
  have hmem : (⟨m, gs, rest⟩ : Way γ) ∈ p.ways (m ++ rest) := mem_ways.mpr ⟨rfl, h⟩
  rcases hways : p.ways (m ++ rest) with _ | ⟨w, more⟩
  · rw [hways] at hmem
    cases hmem
  · exact ⟨w, by rw [first, hways]; rfl⟩

/-! ## Patterns made of others -/

/-- Patterns one after another. -/
def seqs : List (Pattern γ) → Pattern γ
  | [] => nothing
  | p :: ps => seq p (seqs ps)

/-- Any of several patterns, preferably an earlier one. -/
def alts : List (Pattern γ) → Pattern γ
  | [] => one fun _ => false
  | p :: ps => alt p (alts ps)

/-- A given text. -/
def literal (text : String) : Pattern γ := seqs (text.toList.map fun c => one (· == c))

/-- Characters of a class, at least one and preferably many. -/
def run (p : Char → Bool) : Pattern γ := seq (one p) (many p)

/-- A pattern or nothing, preferably the pattern. -/
def maybe (p : Pattern γ) : Pattern γ := alt p nothing

theorem matches_seqs_append {ps qs : List (Pattern γ)} {m : List Char} {gs : Captures γ} :
    (seqs (ps ++ qs)).Matches m gs ↔ ∃ m₁ gs₁ m₂ gs₂, (seqs ps).Matches m₁ gs₁ ∧
      (seqs qs).Matches m₂ gs₂ ∧ m = m₁ ++ m₂ ∧ gs = gs₁ ++ gs₂ := by
  induction ps generalizing m gs with
  | nil =>
    constructor
    · intro h
      exact ⟨[], [], m, gs, ⟨rfl, rfl⟩, h, rfl, rfl⟩
    · rintro ⟨_, _, m₂, gs₂, ⟨rfl, rfl⟩, h, rfl, rfl⟩
      exact h
  | cons p ps ih =>
    constructor
    · rintro ⟨m₁, gs₁, _, _, hp, hmore, rfl, rfl⟩
      rcases ih.mp hmore with ⟨m₂, gs₂, m₃, gs₃, hps, hqs, rfl, rfl⟩
      exact ⟨m₁ ++ m₂, gs₁ ++ gs₂, m₃, gs₃, ⟨m₁, gs₁, m₂, gs₂, hp, hps, rfl, rfl⟩, hqs,
        (List.append_assoc ..).symm, (List.append_assoc ..).symm⟩
    · rintro ⟨_, _, m₃, gs₃, ⟨m₁, gs₁, m₂, gs₂, hp, hps, rfl, rfl⟩, hqs, rfl, rfl⟩
      exact ⟨m₁, gs₁, m₂ ++ m₃, gs₂ ++ gs₃, hp, ih.mpr ⟨m₂, gs₂, m₃, gs₃, hps, hqs, rfl, rfl⟩,
        List.append_assoc .., List.append_assoc ..⟩

theorem matches_alts {ps : List (Pattern γ)} {m : List Char} {gs : Captures γ} :
    (alts ps).Matches m gs ↔ ∃ p ∈ ps, p.Matches m gs := by
  induction ps with
  | nil =>
    simp only [alts, Matches, List.not_mem_nil, false_and, exists_false, iff_false]
    rintro ⟨⟨c, hc, -⟩, -⟩
    cases hc
  | cons p ps ih => simp only [alts, Matches, ih, List.mem_cons, exists_eq_or_imp]

theorem matches_literal {text : String} {m : List Char} {gs : Captures γ} :
    (literal text).Matches m gs ↔ m = text.toList ∧ gs = [] := by
  rw [literal]
  induction text.toList generalizing m gs with
  | nil => exact Iff.rfl
  | cons c cs ih =>
    constructor
    · rintro ⟨_, _, m', gs', ⟨⟨d, hd, rfl⟩, rfl⟩, hmore, rfl, rfl⟩
      rcases ih.mp hmore with ⟨rfl, rfl⟩
      rw [beq_iff_eq.mp hd]
      exact ⟨rfl, rfl⟩
    · rintro ⟨rfl, rfl⟩
      exact ⟨[c], [], cs, [], ⟨⟨c, beq_self_eq_true c, rfl⟩, rfl⟩, ih.mpr ⟨rfl, rfl⟩, rfl, rfl⟩

theorem matches_run {p : Char → Bool} {m : List Char} {gs : Captures γ} :
    (run p).Matches m gs ↔ (m ≠ [] ∧ ∀ c ∈ m, p c) ∧ gs = [] := by
  constructor
  · rintro ⟨_, _, m', gs', ⟨⟨c, hc, rfl⟩, rfl⟩, ⟨hmore, rfl⟩, rfl, rfl⟩
    exact ⟨⟨by simp, List.forall_mem_cons.mpr ⟨hc, hmore⟩⟩, rfl⟩
  · rintro ⟨⟨hne, hall⟩, rfl⟩
    rcases List.exists_cons_of_ne_nil hne with ⟨c, m', rfl⟩
    rcases List.forall_mem_cons.mp hall with ⟨hc, hmore⟩
    exact ⟨[c], [], m', [], ⟨⟨c, hc, rfl⟩, rfl⟩, ⟨hmore, rfl⟩, rfl, rfl⟩

/-! ## Matches of patterns one after another -/

section Sequences

variable {p : Char → Bool} {q : Pattern γ} {ps qs : List (Pattern γ)} {m : List Char}
variable {gs : Captures γ}

theorem matches_seqs_cons_seqs :
    (seqs (seqs qs :: ps)).Matches m gs ↔ (seqs (qs ++ ps)).Matches m gs := by
  rw [matches_seqs_append]
  exact Iff.rfl

theorem matches_literal_cons {text : String} :
    (seqs (literal text :: ps)).Matches m gs ↔
      ∃ rest, m = text.toList ++ rest ∧ (seqs ps).Matches rest gs := by
  constructor
  · rintro ⟨_, _, rest, gs', hliteral, hrest, rfl, rfl⟩
    rcases matches_literal.mp hliteral with ⟨rfl, rfl⟩
    exact ⟨rest, rfl, hrest⟩
  · rintro ⟨rest, rfl, hrest⟩
    exact ⟨text.toList, [], rest, gs, matches_literal.mpr ⟨rfl, rfl⟩, hrest, rfl, rfl⟩

theorem matches_many_cons :
    (seqs (many p :: ps)).Matches m gs ↔
      ∃ run rest, (∀ c ∈ run, p c) ∧ m = run ++ rest ∧ (seqs ps).Matches rest gs := by
  constructor
  · rintro ⟨run, _, rest, gs', ⟨hrun, rfl⟩, hrest, rfl, rfl⟩
    exact ⟨run, rest, hrun, rfl, hrest⟩
  · rintro ⟨run, rest, hrun, rfl, hrest⟩
    exact ⟨run, [], rest, gs, ⟨hrun, rfl⟩, hrest, rfl, rfl⟩

theorem matches_run_cons :
    (seqs (run p :: ps)).Matches m gs ↔
      ∃ word rest, (word ≠ [] ∧ ∀ c ∈ word, p c) ∧ m = word ++ rest ∧
        (seqs ps).Matches rest gs := by
  constructor
  · rintro ⟨word, _, rest, gs', hrun, hrest, rfl, rfl⟩
    rcases matches_run.mp hrun with ⟨hword, rfl⟩
    exact ⟨word, rest, hword, rfl, hrest⟩
  · rintro ⟨word, rest, hword, rfl, hrest⟩
    exact ⟨word, [], rest, gs, matches_run.mpr ⟨hword, rfl⟩, hrest, rfl, rfl⟩

/-- A group that has no others in it captures what it matches. -/
theorem matches_group_cons {name : γ} (hq : ∀ m gs, q.Matches m gs → gs = []) :
    (seqs (group name q :: ps)).Matches m gs ↔
      ∃ word rest gs', q.Matches word [] ∧ m = word ++ rest ∧ (seqs ps).Matches rest gs' ∧
        gs = (name, word) :: gs' := by
  constructor
  · rintro ⟨word, _, rest, gs', ⟨inner, hword, rfl⟩, hrest, rfl, rfl⟩
    cases hq _ _ hword
    exact ⟨word, rest, gs', hword, rfl, hrest, rfl⟩
  · rintro ⟨word, rest, gs', hword, rfl, hrest, rfl⟩
    exact ⟨word, [(name, word)], rest, gs', ⟨[], hword, rfl⟩, hrest, rfl, rfl⟩

theorem matches_maybe_cons :
    (seqs (maybe q :: ps)).Matches m gs ↔
      (seqs (q :: ps)).Matches m gs ∨ (seqs ps).Matches m gs := by
  constructor
  · rintro ⟨m₁, gs₁, m₂, gs₂, hq | ⟨rfl, rfl⟩, hrest, rfl, rfl⟩
    · exact .inl ⟨m₁, gs₁, m₂, gs₂, hq, hrest, rfl, rfl⟩
    · exact .inr hrest
  · rintro (⟨m₁, gs₁, m₂, gs₂, hq, hrest, rfl, rfl⟩ | hrest)
    · exact ⟨m₁, gs₁, m₂, gs₂, .inl hq, hrest, rfl, rfl⟩
    · exact ⟨[], [], m, gs, .inr ⟨rfl, rfl⟩, hrest, rfl, rfl⟩

theorem matches_many_last : (seqs [many p]).Matches m gs ↔ (∀ c ∈ m, p c) ∧ gs = [] := by
  rw [matches_many_cons]
  constructor
  · rintro ⟨run, _, hrun, rfl, rfl, rfl⟩
    rw [List.append_nil]
    exact ⟨hrun, rfl⟩
  · rintro ⟨hall, rfl⟩
    exact ⟨m, [], hall, (List.append_nil m).symm, rfl, rfl⟩

end Sequences

/-! ## The characters of a match -/

/-- All characters that a pattern has a class for are in `q`. -/
def Over (q : Char → Prop) : Pattern γ → Prop
  | one p | many p | few p => ∀ c, p c → q c
  | nothing => True
  | seq front back => front.Over q ∧ back.Over q
  | alt first second => first.Over q ∧ second.Over q
  | group _ inner => inner.Over q

theorem Matches.over {q : Char → Prop} {p : Pattern γ} {m : List Char} {gs : Captures γ}
    (h : p.Matches m gs) (hp : p.Over q) : ∀ c ∈ m, q c := by
  induction p generalizing m gs with
  | one p =>
    rcases h with ⟨⟨c, hc, rfl⟩, -⟩
    simpa using hp c hc
  | many p => exact fun c hc => hp c (h.1 c hc)
  | few p => exact fun c hc => hp c (h.1 c hc)
  | nothing =>
    rw [h.1]
    exact List.forall_mem_nil q
  | seq front back ihfront ihback =>
    rcases h with ⟨m₁, gs₁, m₂, gs₂, hfront, hback, rfl, -⟩
    exact List.forall_mem_append.mpr ⟨ihfront hfront hp.1, ihback hback hp.2⟩
  | alt first second ihfirst ihsecond =>
    rcases h with h | h
    · exact ihfirst h hp.1
    · exact ihsecond h hp.2
  | group name inner ih =>
    rcases h with ⟨gs', hinner, -⟩
    exact ih hinner hp

theorem over_seqs {q : Char → Prop} {ps : List (Pattern γ)} :
    (seqs ps).Over q ↔ ∀ p ∈ ps, p.Over q := by
  induction ps with
  | nil => simp [seqs, Over]
  | cons p ps ih => simp [seqs, Over, ih]

theorem over_literal {q : Char → Prop} {text : String} :
    (literal text : Pattern γ).Over q ↔ ∀ c ∈ text.toList, q c := by
  simp [literal, over_seqs, Over]

/-! ## What is found first -/

theorem first_alt (p q : Pattern γ) (cs : List Char) :
    (alt p q).first cs = (p.first cs).or (q.first cs) :=
  List.head?_append

theorem first_seq (front back : Pattern γ) (cs : List Char) :
    (seq front back).first cs =
      (front.ways cs).findSome? fun w => (back.first w.rest).map w.andThen := by
  simp only [first, ways, List.head?_flatMap, List.head?_map]

theorem ways_literal (text : String) (rest : List Char) :
    (literal text : Pattern γ).ways (text.toList ++ rest) = [⟨text.toList, [], rest⟩] := by
  rw [literal]
  induction text.toList with
  | nil => rfl
  | cons c cs ih =>
    simp [seqs, ways, ih, Way.andThen]

theorem first_seq_literal {text : String} {back : Pattern γ} {rest : List Char} {v : Way γ}
    (h : back.first rest = some v) :
    (seq (literal text) back).first (text.toList ++ rest) =
      some (Way.andThen ⟨text.toList, [], rest⟩ v) := by
  rw [first_seq, ways_literal, List.findSome?_cons]
  simp only [h, Option.map_some]

theorem getLast?_runs (p : Char → Bool) (cs : List Char) :
    (runs p cs).getLast? = some (cs.takeWhile p, cs.dropWhile p) := by
  induction cs with
  | nil => rfl
  | cons c cs ih =>
    cases hc : p c with
    | true => simp [runs, hc, List.getLast?_cons, ih]
    | false => simp [runs, hc]

/-- Of many characters the most are taken if the rest can follow them. -/
theorem first_seq_many {p : Char → Bool} {back : Pattern γ} {cs : List Char} {v : Way γ}
    (h : back.first (cs.dropWhile p) = some v) :
    (seq (many p) back).first cs =
      some (Way.andThen ⟨cs.takeWhile p, [], cs.dropWhile p⟩ v) := by
  have hlast := getLast?_runs p cs
  rw [← List.head?_reverse] at hlast
  rcases List.head?_eq_some_iff.mp hlast with ⟨more, hruns⟩
  rw [first_seq, ways, hruns, List.map_cons, List.findSome?_cons]
  simp only [h, Option.map_some]

theorem first_many (p : Char → Bool) (cs : List Char) :
    (many p : Pattern γ).first cs = some ⟨cs.takeWhile p, [], cs.dropWhile p⟩ := by
  rw [first, ways, List.head?_map, List.head?_reverse, getLast?_runs]
  rfl

theorem first_run {p : Char → Bool} {c : Char} (hc : p c) (cs : List Char) :
    (run p : Pattern γ).first (c :: cs) = some ⟨c :: cs.takeWhile p, [], cs.dropWhile p⟩ := by
  rw [run, first_seq, ways, if_pos hc, List.findSome?_cons, first_many]
  rfl

theorem first_run_eq_none {p : Char → Bool} {cs : List Char} (h : ∀ c ∈ cs.head?, p c = false) :
    (run p : Pattern γ).first cs = none := by
  cases cs with
  | nil => rfl
  | cons c cs =>
    rw [run, first_seq, ways, if_neg (Bool.eq_false_iff.mp (h c rfl))]
    rfl

theorem first_literal (text : String) (rest : List Char) :
    (literal text : Pattern γ).first (text.toList ++ rest) = some ⟨text.toList, [], rest⟩ := by
  rw [first, ways_literal]
  rfl

theorem ways_literal_eq_nil {text : String} {cs : List Char} (h : ¬ text.toList <+: cs) :
    (literal text : Pattern γ).ways cs = [] := by
  refine List.eq_nil_iff_forall_not_mem.mpr fun w hw => h ?_
  rcases mem_ways.mp hw with ⟨hcs, hmatch⟩
  rw [hcs, (matches_literal.mp hmatch).1]
  exact List.prefix_append _ _

/-- A pattern that may be left out is tried first, with what follows, and then left out. -/
theorem first_seq_maybe (p back : Pattern γ) (cs : List Char) :
    (seq (maybe p) back).first cs = ((seq p back).first cs).or (back.first cs) := by
  have hnone : Way.andThen (⟨[], [], cs⟩ : Way γ) = id := rfl
  rw [first_seq, first_seq, maybe, ways, ways, List.findSome?_append, List.findSome?_singleton,
    hnone, Option.map_id, id]

theorem ways_seq_assoc (p q r : Pattern γ) (cs : List Char) :
    (seq (seq p q) r).ways cs = (seq p (seq q r)).ways cs := by
  have hassoc : ∀ u v w : Way γ, (u.andThen v).andThen w = u.andThen (v.andThen w) := by
    intro u v w
    simp only [Way.andThen, List.append_assoc]
  have hrest : ∀ u v : Way γ, (u.andThen v).rest = v.rest := fun _ _ => rfl
  simp only [ways, List.flatMap_assoc, List.map_flatMap, List.flatMap_map, List.map_map,
    Function.comp_def, hrest, ← hassoc]

/-- Of at least one character the most are taken if the rest can follow them. -/
theorem first_seq_run {p : Char → Bool} {back : Pattern γ} {c : Char} {cs : List Char} {v : Way γ}
    (hc : p c) (h : back.first (cs.dropWhile p) = some v) :
    (seq (run p) back).first (c :: cs) =
      some (Way.andThen ⟨c :: cs.takeWhile p, [], cs.dropWhile p⟩ v) := by
  have hassoc : (seq (run p) back).first (c :: cs) =
      (seq (one p) (seq (many p) back)).first (c :: cs) :=
    congrArg List.head? (ways_seq_assoc _ _ _ _)
  rw [hassoc, first_seq, ways, if_pos hc, List.findSome?_cons, first_seq_many h]
  rfl

/-- Of few characters so many are taken that the rest can follow them. -/
theorem first_seq_few {p : Char → Bool} {back : Pattern γ} (name : γ) {front rest : List Char}
    {v : Way γ} (hfront : ∀ c ∈ front, p c)
    (hbefore : ∀ earlier later, front = earlier ++ later → later ≠ [] →
      back.first (later ++ rest) = none) (h : back.first rest = some v) :
    (seq (group name (few p)) back).first (front ++ rest) =
      some (Way.andThen ⟨front, [(name, front)], rest⟩ v) := by
  have hfind : ∀ taken : List Char, (runs p (front ++ rest)).findSome? (fun x =>
      (back.first x.2).map (Way.andThen ⟨taken ++ x.1, [(name, taken ++ x.1)], x.2⟩)) =
        some (Way.andThen ⟨taken ++ front, [(name, taken ++ front)], rest⟩ v) := by
    -- the characters of the front are taken one by one, as the rest cannot follow before its end
    induction front with
    | nil =>
      intro taken
      rw [List.nil_append]
      cases rest with
      | nil => simp [runs, h]
      | cons c rest => simp [runs, h]
    | cons c front ih =>
      intro taken
      rcases List.forall_mem_cons.mp hfront with ⟨hc, hmore⟩
      have hnone := hbefore [] (c :: front) rfl (by simp)
      have hlater : ∀ earlier later, front = earlier ++ later → later ≠ [] →
          back.first (later ++ rest) = none :=
        fun earlier later heq => hbefore (c :: earlier) later (congrArg (c :: ·) heq)
      have hrest := ih hmore hlater (taken ++ [c])
      rw [List.cons_append] at hnone ⊢
      rw [runs, if_pos hc, List.findSome?_cons, hnone, List.findSome?_map]
      simpa [Function.comp_def] using hrest
  rw [first_seq, ways, ways, List.map_map, List.findSome?_map]
  exact hfind []

end Pattern

end Curly
