import Curly.Proofs.Composition
import Curly.Proofs.Conditions
import Curly.Proofs.LoopNames
import Curly.Proofs.Waiting

/-!
# Conditions in templates

A condition that stands in a template is cut out by the tag of its block, which takes what is there
up to its brace and leaves the blanks at both ends out, and is read then. By itself it is read with
its blanks. The two readings agree (`Condition.written_trim`): blanks around a condition change
nothing but the places in a refusal. So the block takes the branch that the condition by itself
asks for, and complains exactly if the condition is refused (`Engine.render_condition`).
-/

namespace Curly

open Text

/-! ## Trimming a condition -/

namespace Condition

theorem IsPath.beginsUnblank {word : List Char} (h : IsPath word) : BeginsUnblank word := by
  rcases h.exists_cons with ⟨c, run, rfl, -⟩
  rintro _ ⟨⟩
  exact h.head.1

theorem IsPath.endsUnblank {word : List Char} (h : IsPath word) : EndsUnblank word := by
  have hrun : ∀ {run : List Char}, (∀ c ∈ run, Path.isPathChar c) → EndsUnblank run := by
    intro run hall c hc
    exact Path.isBlank_of_isPathChar (hall c (List.mem_of_getLast? hc))
  cases h with
  | plain _ hall => exact hrun hall
  | @minus run hne hall =>
    have hminus : EndsUnblank (['-'] ++ run) := (hrun hall).append fun hnil => (hne hnil).elim
    exact hminus

/-- The blanks around a condition do not count. -/
theorem written_trim {test : Condition} {cs : List Char} :
    Written test (trim cs) ↔ Written test cs := by
  constructor
  · intro h
    rcases exists_blanks_around cs with ⟨before, after, hbefore, hafter, heq⟩
    rw [heq]
    -- blanks more around a condition are blanks of the grammar
    generalize trim cs = core at h
    cases h with
    | path hbefore' hp hafter' =>
      have hwritten := Written.path (List.forall_mem_append.mpr ⟨hbefore, hbefore'⟩) hp
        (List.forall_mem_append.mpr ⟨hafter', hafter⟩)
      simpa only [List.append_assoc] using hwritten
    | negated hbefore' hmiddle hp hafter' =>
      have hwritten := Written.negated (List.forall_mem_append.mpr ⟨hbefore, hbefore'⟩) hmiddle hp
        (List.forall_mem_append.mpr ⟨hafter', hafter⟩)
      simpa only [List.append_assoc, List.cons_append] using hwritten
  · intro h
    -- and all of its outer blanks can be left out, since its core begins and ends without one
    have hnil : ∀ c ∈ ([] : List Char), isBlank c := List.forall_mem_nil _
    cases h with
    | @path p before after hbefore hp hafter =>
      rw [trim_append hbefore hp.ne_nil hp.beginsUnblank hp.endsUnblank hafter,
        ← List.append_nil p.toList]
      exact .path hnil hp hnil
    | @negated p before middle after hbefore hmiddle hp hafter =>
      have hcore : before ++ '!' :: (middle ++ (p.toList ++ after)) =
          before ++ ('!' :: (middle ++ p.toList) ++ after) := by
        simp only [List.append_assoc, List.cons_append]
      have hbang : BeginsUnblank ('!' :: (middle ++ p.toList)) := by
        rintro _ ⟨⟩
        decide
      have hend : EndsUnblank ('!' :: middle ++ p.toList) :=
        hp.endsUnblank.append fun hnil => (hp.ne_nil hnil).elim
      rw [hcore, trim_append hbefore (List.cons_ne_nil _ _) hbang hend hafter,
        ← List.append_nil p.toList]
      exact .negated hnil hmiddle hp hnil

/-- A condition in the grammar has nothing to complain of. -/
theorem Written.notices {test : Condition} {cs : List Char} (h : Written test cs) :
    test.notices = [] := by
  cases h with
  | path => rfl
  | negated => rfl

/-- A text is read as the same condition without the blanks around it. -/
theorem read_trimmed_eq_ok_iff {text : String} {test : Condition} :
    read (trimmed text) = .ok test ↔ read text = .ok test := by
  rw [read_eq_ok_iff, read_eq_ok_iff, trimmed, String.toList_ofList, written_trim]

/-- What a text is as a condition, with the blanks around it or without them: the condition it is
read as, or else an invalid one. -/
theorem ofText_trimmed (text : String) :
    (∃ test, read text = .ok test ∧ test.notices = [] ∧ ofText text = test ∧
      ofText (trimmed text) = test) ∨
    ∃ refusal reason reason', read text = .error refusal ∧ ofText text = .invalid text reason ∧
      ofText (trimmed text) = .invalid (trimmed text) reason' := by
  rcases hread : read text with refusal | test
  · rcases htrimmed : read (trimmed text) with refusal' | test'
    · refine .inr ⟨refusal, refusal.message, refusal'.message, rfl, ?_, ?_⟩
      · rw [ofText, hread]
      · rw [ofText, htrimmed]
    · rw [read_trimmed_eq_ok_iff, hread] at htrimmed
      cases htrimmed
  · refine .inl ⟨test, rfl, ?_, ?_, ?_⟩
    · exact (read_eq_ok_iff.mp hread).notices
    · rw [ofText, hread]
    · rw [ofText, read_trimmed_eq_ok_iff.mpr hread]

/-! ## A condition by itself and in a block -/

/-- Tries the text of a condition by itself. -/
def evaluate (text : String) (s : Scope) : Run Bool := do
  note (ofText text).notices
  isMet s (ofText text)

theorem exec_evaluate (text : String) (s : Scope) (j : Journal) :
    Run.exec (evaluate text s) j =
      (((ofText text).holds s).mapError .badLookup, j.noting (ofText text).notices) := by
  rw [evaluate, Run.exec_bind, exec_note]
  exact exec_isMet s _ _

/-- Over a mapping sizes only keep a condition from being decided. -/
theorem holds_eq_error {test : Condition} {s : Scope} {entries : Entries} {fault : LookupFault}
    (h : s.data.entries? = some entries) (hholds : test.holds s = .error fault) : fault.IsSize := by
  have hvalue : ∀ (path : String) (f : Option Value → Bool),
      (s.value path).map f = .error fault → fault.IsSize := by
    intro path f hmap
    rcases hpath : s.value path with fault' | found
    · rw [hpath] at hmap
      cases hmap
      exact s.value_eq_error h hpath
    · rw [hpath] at hmap
      cases hmap
  cases test with
  | path p => exact hvalue p _ hholds
  | negated p => exact hvalue p _ hholds
  | invalid => cases hholds

end Condition

/-- The text of a block that shows whether its condition holds. -/
def branchText (condition : String) : String :=
  "\x7b#if " ++ condition ++ "\x7d" ++ "1" ++ "\x7b:else\x7d" ++ "0" ++ "\x7b/if\x7d"

/-- A text without braces compiles to itself. -/
theorem compile_of_not_mem_brace {content : String} (hne : content ≠ "")
    (h : '\x7b' ∉ content.toList) (name : String) :
    compile content name false = .ok [.text content] :=
  compile_eq_ok.mpr ⟨Tree.isRead_text content, (symbolsOf_of_not_mem_brace h hne).symm⟩

/-- What the text of a block compiles to. -/
theorem compile_branchText {condition : String} (h : Braceless condition.toList) (name : String)
    (trim : Bool) :
    compile (branchText condition) name trim =
      .ok [.cond (trimmed condition) (Condition.ofText (trimmed condition)) [.text "1"]
        (some [.text "0"])] := by
  have hone : compile "1" name false = .ok [.text "1"] :=
    compile_of_not_mem_brace (by decide) (by decide) name
  have hzero : compile "0" name false = .ok [.text "0"] :=
    compile_of_not_mem_brace (by decide) (by decide) name
  have hplain := compile_cond hone hzero h
  cases trim with
  | false => exact hplain
  | true =>
    rw [compile_trim_eq_map, branchText, hplain]
    rfl

namespace Engine

/-- A condition means the same in a template as by itself. A block with any text without braces as its
condition puts out its first branch if the text by itself holds and its second branch if it does not,
and fails as the text by itself does if it cannot be looked up, which over a mapping is a matter of
sizes alone. It complains of the condition, once, exactly if the text is refused. -/
theorem render_condition (e : Engine) (mode : Mode) (name : String) {text : String}
    (h : Braceless text.toList) (s : Scope) (j : Journal) :
    (∀ k, (Run.exec (e.renderText mode (branchText text) name s) j).1 =
      (Run.exec (Condition.evaluate text s) k).1.map fun holds => if holds then "1" else "0") ∧
    (∃ reason, (Run.exec (e.renderText mode (branchText text) name s) j).2.warnings = j.warnings ++
      match Condition.read text with
      | .ok _ => []
      | .error _ => [.invalidCondition (trimmed text) reason]) ∧
    ∀ entries, s.data.entries? = some entries → ∀ k failure,
      (Run.exec (Condition.evaluate text s) k).1 = .error failure →
        ∃ fault, failure = .badLookup fault ∧ fault.IsSize := by
  -- the tree of the block is known, so its rendering comes down to the one condition
  have hrender : Run.exec (e.renderText mode (branchText text) name s) j =
      ((((Condition.ofText (trimmed text)).holds s).mapError .badLookup).map fun holds =>
        if holds then "1" else "0", (j.noting [.compiled name 1]).noting
          (Condition.ofText (trimmed text)).notices) := by
    rw [exec_renderText_of_compile (compile_branchText h name _), exec_render, fragments_eq,
      Tree.render_singleton, Node.render_cond, Run.exec_bind, exec_note]
    dsimp only
    rw [Run.exec_bind, exec_isMet]
    rcases (Condition.ofText (trimmed text)).holds s with fault | _ | _
    · rfl
    · rfl
    · rfl
  have hcompiled : (j.noting [.compiled name 1]).warnings = j.warnings :=
    (j.warnings_noting _).trans (List.append_nil _)
  have hfailure : ∀ entries, s.data.entries? = some entries → ∀ k failure,
      (Run.exec (Condition.evaluate text s) k).1 = .error failure →
        ∃ fault, failure = .badLookup fault ∧ fault.IsSize := by
    intro entries hentries k failure hfailed
    rw [Condition.exec_evaluate] at hfailed
    rcases hholds : (Condition.ofText text).holds s with fault | met
    · rw [hholds] at hfailed
      cases hfailed
      exact ⟨fault, rfl, Condition.holds_eq_error hentries hholds⟩
    · rw [hholds] at hfailed
      cases hfailed
  rcases Condition.ofText_trimmed text with
    ⟨test, hread, hnotices, hself, htrimmed⟩ | ⟨refusal, reason, reason', hread, hself, htrimmed⟩
  · refine ⟨fun k => ?_, ⟨"", ?_⟩, hfailure⟩
    · rw [hrender, Condition.exec_evaluate, hself, htrimmed]
    · rw [hrender, htrimmed, hnotices, Journal.noting_nil, hcompiled, hread, List.append_nil]
  · refine ⟨fun k => ?_, ⟨reason', ?_⟩, hfailure⟩
    · rw [hrender, Condition.exec_evaluate, hself, htrimmed]
      rfl
    · rw [hrender, htrimmed, Journal.warnings_noting, hcompiled, hread]
      rfl

/-- Data with a word. -/
def wordData : Value := .dict [(.str "a", .bool true)]

/-- Two words are no condition, whatever the data has under them. -/
theorem render_condition_two_words :
    Braceless " a b ".toList ∧
    (Run.exec (Condition.evaluate " a b " (.ofData wordData)) (.start none)).1 = .ok false ∧
    (Run.exec (Engine.renderText ⟨none, {}⟩ .blocking (branchText " a b ") "" (.ofData wordData))
      (.start none)).1 = .ok "0" ∧
    ∃ reason, (Run.exec (Engine.renderText ⟨none, {}⟩ .blocking (branchText " a b ") ""
      (.ofData wordData)) (.start none)).2.warnings = [.invalidCondition "a b" reason] := by
  have hbraceless : Braceless " a b ".toList := by
    show ∀ c ∈ " a b ".toList, Tag.isBrace c = false
    simp [Tag.isBrace]
  have hread : Condition.read " a b " = .error ⟨.unexpected "b", 3⟩ := by decide +kernel
  have htrimmed : trimmed " a b " = "a b" := by decide
  have heval : (Run.exec (Condition.evaluate " a b " (.ofData wordData)) (.start none)).1 =
      .ok false := by
    rw [Condition.exec_evaluate, Condition.ofText, hread]
    rfl
  obtain ⟨hpage, ⟨reason, hwarnings⟩, -⟩ := render_condition ⟨none, {}⟩ .blocking "" hbraceless
    (.ofData wordData) (.start none)
  have hzero := hpage (.start none)
  rw [heval] at hzero
  rw [hread, htrimmed] at hwarnings
  exact ⟨hbraceless, heval, hzero, reason, hwarnings⟩

end Engine

end Curly
