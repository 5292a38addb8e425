import Curly.Proofs.Chains
import Curly.Proofs.Injection
import Mathlib.Data.List.SplitBy

/-!
# Comments that a name cannot end

In the place of a template that cannot be embedded stands a comment with the name of the template.
Two dashes could end the comment, so dashes are taken out of the name in pairs. Each run of dashes
loses only pairs of its own (`Text.dropDashes_eq_flatMap`), and what stands between two runs keeps
them apart, so no two dashes come together that were not (`Text.not_infix_dropDashes`). Blanks keep
the name from the dashes of the comment, which therefore ends where the marker ends
(`Engine.embed_marker_closed`).
-/

namespace Curly

namespace Text

/-- Two dashes, with which a comment begins and ends. -/
def dashPair : List Char := ['-', '-']

variable {cs xs ys : List Char}

/-! ## Pairs of dashes -/

theorem dashPair_prefix_cons {c : Char} {rest : List Char} :
    dashPair <+: c :: rest ↔ c = '-' ∧ rest.head? = some '-' := by
  cases rest with
  | nil => simp [dashPair]
  | cons d rest => simp [dashPair, List.cons_prefix_cons, eq_comm]

theorem dropDashes_pair (rest : List Char) : dropDashes ('-' :: '-' :: rest) = dropDashes rest := by
  rw [dropDashes]

/-- A character that does not begin a pair of dashes stays. -/
theorem dropDashes_cons {c : Char} {rest : List Char} (h : ¬ dashPair <+: c :: rest) :
    dropDashes (c :: rest) = c :: dropDashes rest := by
  rw [dropDashes]
  rintro after rfl rfl
  exact h (List.prefix_append dashPair after)

/-- Induction on a text by the pairs of dashes that are taken out of it. -/
@[elab_as_elim]
theorem dashPair_induct {P : List Char → Prop} (nil : P [])
    (pair : ∀ rest, P rest → P ('-' :: '-' :: rest))
    (kept : ∀ c rest, ¬ dashPair <+: c :: rest → P rest → P (c :: rest)) (cs : List Char) :
    P cs := by
  induction cs using dropDashes.induct with
  | case1 rest ih => exact pair rest ih
  | case2 c rest hpair ih =>
    refine kept c rest ?_ ih
    rintro ⟨after, hafter⟩
    cases hafter
    exact hpair after rfl rfl
  | case3 => exact nil

/-- What begins with a dash after pairs were taken out began with a dash before. -/
theorem head?_of_head?_dropDashes (h : (dropDashes cs).head? = some '-') :
    cs.head? = some '-' := by
  induction cs using dashPair_induct with
  | nil => exact h
  | pair rest _ => rfl
  | kept c rest hpair _ =>
    rw [dropDashes_cons hpair] at h
    exact h

/-- No two dashes are left next to each other. -/
theorem not_infix_dropDashes (cs : List Char) : ¬ dashPair <:+: dropDashes cs := by
  induction cs using dashPair_induct with
  | nil => decide
  | pair rest ih => rwa [dropDashes_pair]
  | kept c rest hpair ih =>
    rw [dropDashes_cons hpair, List.infix_cons_iff]
    rintro (hfirst | hlater)
    -- a dash that stays stood before no dash, and none has come up to it since
    · obtain ⟨hc, hhead⟩ := dashPair_prefix_cons.mp hfirst
      exact hpair (dashPair_prefix_cons.mpr ⟨hc, head?_of_head?_dropDashes hhead⟩)
    · exact ih hlater

/-- A text stays as it is exactly if no two dashes stand next to each other in it. -/
theorem dropDashes_eq_self_iff : dropDashes cs = cs ↔ ¬ dashPair <:+: cs := by
  constructor
  · intro h
    rw [← h]
    exact not_infix_dropDashes cs
  · intro h
    induction cs using dashPair_induct with
    | nil => rfl
    | pair rest _ => exact (h (List.prefix_append dashPair rest).isInfix).elim
    | kept c rest hpair ih =>
      rw [dropDashes_cons hpair, ih fun hrest => h (List.infix_cons hrest)]

/-! ## Runs of dashes -/

/-- Whether two characters are both dashes, or both none. -/
def dashAlike (c d : Char) : Bool := (c == '-') == (d == '-')

/-- The runs of a text: dashes next to each other, as many as there are, and what is between. -/
def dashRuns (cs : List Char) : List (List Char) := cs.splitBy dashAlike

/-- What is left of a run: of dashes the one without a partner, if there is one. -/
def unpaired (run : List Char) : List Char :=
  if '-' ∈ run then List.replicate (run.length % 2) '-' else run

/-- Texts that do not meet in dashes lose their pairs each by itself. -/
theorem dropDashes_append (h : xs.getLast? = some '-' → ys.head? ≠ some '-') :
    dropDashes (xs ++ ys) = dropDashes xs ++ dropDashes ys := by
  induction xs using dashPair_induct with
  | nil => rfl
  | pair rest ih =>
    rw [List.cons_append, List.cons_append, dropDashes_pair, dropDashes_pair]
    refine ih fun hlast => h ?_
    rw [List.getLast?_cons, List.getLast?_cons, hlast]
    rfl
  | kept c rest hpair ih =>
    have hjoined : ¬ dashPair <+: c :: (rest ++ ys) := by
      rw [dashPair_prefix_cons] at hpair ⊢
      rintro ⟨rfl, hhead⟩
      rcases rest with _ | ⟨d, rest⟩
      · exact h rfl hhead
      · exact hpair ⟨rfl, hhead⟩
    rw [List.cons_append, dropDashes_cons hjoined, dropDashes_cons hpair, List.cons_append, ih]
    intro hlast
    refine h ?_
    rw [List.getLast?_cons, hlast]
    rfl

theorem dropDashes_replicate (n : Nat) :
    dropDashes (List.replicate n '-') = List.replicate (n % 2) '-' := by
  induction n using Nat.twoStepInduction with
  | zero => rfl
  | one => rfl
  | more n ih _ =>
    rw [List.replicate_succ, List.replicate_succ, dropDashes_pair, ih, Nat.add_mod_right]

/-- A run with a dash in it is dashes only. -/
theorem eq_replicate_of_run {run : List Char} (h : run.IsChain fun c d => dashAlike c d)
    (hmem : '-' ∈ run) : run = List.replicate run.length '-' := by
  have hsame : (run.map (· == '-')).Pairwise (· = ·) := by
    refine List.isChain_iff_pairwise.mp ((List.isChain_map _).mpr (h.imp ?_))
    intro c d hcd
    simpa [dashAlike] using hcd
  refine List.eq_replicate_of_mem fun c hc => ?_
  have hdash : (c == '-') = ('-' == '-') :=
    hsame.forall_of_forall (fun _ _ => rfl) (List.mem_map_of_mem hc) (List.mem_map_of_mem hmem)
  simpa using hdash

theorem dropDashes_run {run : List Char} (h : run.IsChain fun c d => dashAlike c d) :
    dropDashes run = unpaired run := by
  by_cases hmem : '-' ∈ run
  · rw [unpaired, if_pos hmem, eq_replicate_of_run h hmem, dropDashes_replicate,
      List.length_replicate]
  · rw [unpaired, if_neg hmem, dropDashes_eq_self_iff]
    intro hpair
    exact hmem (hpair.subset List.mem_cons_self)

/-- Runs in which no two that follow each other are alike lose their pairs each by itself. -/
theorem dropDashes_flatten {runs : List (List Char)}
    (hruns : ∀ run ∈ runs, run.IsChain fun c d => dashAlike c d)
    (hmeet : runs.IsChain fun run next =>
      ∃ hrun hnext, dashAlike (run.getLast hrun) (next.head hnext) = false) :
    dropDashes runs.flatten = runs.flatMap unpaired := by
  induction runs with
  | nil => rfl
  | cons run rest ih =>
    obtain ⟨hfirst, hrest⟩ := List.forall_mem_cons.mp hruns
    have happart : run.getLast? = some '-' → rest.flatten.head? ≠ some '-' := by
      rcases rest with _ | ⟨next, more⟩
      · intro _ hhead
        cases hhead
      · obtain ⟨⟨hrun, hnext, hdiffer⟩, -⟩ := List.isChain_cons_cons.mp hmeet
        rw [List.getLast?_eq_some_getLast hrun, List.flatten_cons,
          List.head?_append_of_ne_nil _ hnext, List.head?_eq_some_head hnext]
        intro hlast hhead
        rw [Option.some.inj hlast, Option.some.inj hhead] at hdiffer
        cases hdiffer
    rw [List.flatten_cons, dropDashes_append happart, dropDashes_run hfirst,
      ih hrest hmeet.tail, List.flatMap_cons]

/-- Dashes are taken out of each run by itself: one is left of an odd number, none of an even. -/
theorem dropDashes_eq_flatMap (cs : List Char) :
    dropDashes cs = (dashRuns cs).flatMap unpaired := by
  rw [dashRuns, ← dropDashes_flatten (fun _ => List.isChain_of_mem_splitBy)
    (List.isChain_getLast_head_splitBy dashAlike cs), List.flatten_splitBy]

example : dropDashes "a----b---c-".toList = "ab-c-".toList := rfl

/-! ## Where dashes stand -/

/-- The places at which a pattern stands in a text, also where its occurrences overlap. -/
def placesOf (pattern cs : List Char) : List Nat :=
  (List.range cs.length).filter fun k => pattern.isPrefixOf (cs.drop k)

theorem placesOf_of_not_infix {pattern : List Char} (h : ¬ pattern <:+: cs) :
    placesOf pattern cs = [] := by
  refine List.filter_eq_nil_iff.mpr fun k _ hpre => h ?_
  exact (List.isPrefixOf_iff_prefix.mp hpre).isInfix.trans (List.drop_suffix k cs).isInfix

/-- Where two texts do not meet in dashes, two dashes that begin in the first end in it. -/
theorem dashPair_isPrefixOf_append (hne : xs ≠ [])
    (h : xs.getLast? = some '-' → ys.head? ≠ some '-') :
    dashPair.isPrefixOf (xs ++ ys) = dashPair.isPrefixOf xs := by
  rw [Bool.eq_iff_iff, List.isPrefixOf_iff_prefix, List.isPrefixOf_iff_prefix]
  rcases xs with _ | ⟨c, _ | ⟨d, more⟩⟩
  · exact (hne rfl).elim
  · rw [List.singleton_append, dashPair_prefix_cons, dashPair_prefix_cons]
    constructor
    · rintro ⟨rfl, hhead⟩
      exact (h rfl hhead).elim
    · rintro ⟨-, hhead⟩
      cases hhead
  · rw [List.cons_append, dashPair_prefix_cons, dashPair_prefix_cons]
    rfl

/-- Where two texts do not meet in dashes, two dashes stand in the one or in the other. -/
theorem placesOf_dashPair_append (h : xs.getLast? = some '-' → ys.head? ≠ some '-') :
    placesOf dashPair (xs ++ ys) =
      placesOf dashPair xs ++ (placesOf dashPair ys).map (xs.length + ·) := by
  have hfirst : ∀ k ∈ List.range xs.length,
      dashPair.isPrefixOf ((xs ++ ys).drop k) = dashPair.isPrefixOf (xs.drop k) := by
    intro k hk
    have hlt : k < xs.length := List.mem_range.mp hk
    rw [List.drop_append_of_le_length hlt.le]
    refine dashPair_isPrefixOf_append (mt List.drop_eq_nil_iff.mp (Nat.not_le.mpr hlt)) ?_
    rwa [List.getLast?_drop, if_neg (Nat.not_le.mpr hlt)]
  have hsecond : ∀ k ∈ List.range ys.length,
      ((fun k => dashPair.isPrefixOf ((xs ++ ys).drop k)) ∘ (xs.length + ·)) k =
        dashPair.isPrefixOf (ys.drop k) := by
    intro k _
    rw [Function.comp_apply, List.drop_length_add_append]
  rw [placesOf, List.length_append, List.range_add, List.filter_append, List.filter_map,
    List.filter_congr hfirst, List.filter_congr hsecond]
  rfl

/-! ## Reading comments -/

/-- What stands before the end of a comment that has begun, and what follows the comment. The end is
two dashes and an angle bracket, with or without an exclamation mark between. -/
def commentEnd? : List Char → Option (List Char × List Char)
  | '-' :: '-' :: '>' :: rest => some ([], rest)
  | '-' :: '-' :: '!' :: '>' :: rest => some ([], rest)
  | c :: rest => (commentEnd? rest).map fun (content, after) => (c :: content, after)
  | [] => none

/-- What is in the comment that a text begins with, as readers of markup take it, and what follows
the comment. One that has only just begun is ended by an angle bracket too, also after a dash. -/
def comment? : List Char → Option (List Char × List Char)
  | '<' :: '!' :: '-' :: '-' :: '>' :: rest => some ([], rest)
  | '<' :: '!' :: '-' :: '-' :: '-' :: '>' :: rest => some ([], rest)
  | '<' :: '!' :: '-' :: '-' :: rest => commentEnd? rest
  | _ => none

/-- A comment that has begun goes on up to the first two dashes. -/
theorem commentEnd?_append {content : List Char} (h : ¬ dashPair <:+: content)
    (rest : List Char) :
    commentEnd? (content ++ ("-->".toList ++ rest)) = some (content, rest) := by
  induction content with
  | nil => rfl
  | cons c more ih =>
    have hpair : ¬ dashPair <+: c :: more := fun hpre => h hpre.isInfix
    rw [dashPair_prefix_cons] at hpair
    -- a dash at the very end of the content stands before two more, so no end begins with it
    have hopen : c = '-' → ∀ d after, more ++ ("-->".toList ++ rest) = '-' :: d :: after →
        d = '-' := by
      rintro rfl d after heq
      rcases more with _ | ⟨b, more⟩
      · cases heq
        rfl
      · exact (hpair ⟨rfl, congrArg List.head? heq⟩).elim
    rw [List.cons_append, commentEnd?, ih fun hmore => h (List.infix_cons hmore)]
    · rfl
    · intro after hc heq
      cases hopen hc _ _ heq
    · intro after hc heq
      cases hopen hc _ _ heq

/-- A text without two dashes next to each other is all of a comment, unless it begins with what
ends a comment that has only just begun. -/
theorem comment?_append {content : List Char} (h : ¬ dashPair <:+: content)
    (hfirst : ∀ c ∈ content.head?, c ≠ '-' ∧ c ≠ '>') (rest : List Char) :
    comment? ("<!--".toList ++ content ++ "-->".toList ++ rest) = some (content, rest) := by
  have hend := commentEnd?_append h rest
  rcases content with _ | ⟨c, more⟩
  · rfl
  · obtain ⟨hdash, hangle⟩ := hfirst c rfl
    rw [List.append_assoc, List.append_assoc, ← hend]
    change comment? ('<' :: '!' :: '-' :: '-' :: c :: (more ++ ("-->".toList ++ rest))) = _
    rw [comment?]
    · rfl
    · intro after heq
      exact hangle (List.cons.inj heq).1
    · intro after heq
      exact hdash (List.cons.inj heq).1

end Text

/-! ## Markers -/

/-- What is in the comment that stands in the place of a template: between blanks the name, of each
run of dashes in it only the one without a partner. -/
def markerContent (name : String) : List Char :=
  " Error loading component: ".toList ++ (Text.dashRuns name.toList).flatMap Text.unpaired ++ [' ']

theorem toList_failureMarker_eq_append (name : String) :
    (failureMarker name).toList = "<!-- Error loading component: ".toList ++
      Text.dropDashes name.toList ++ " -->".toList := by
  have hname : (String.ofList (Text.dropDashes name.toList)).toList =
      Text.dropDashes name.toList := String.toList_ofList
  unfold failureMarker
  rw [String.toList_append, String.toList_append, hname]

/-- A marker is its content between the delimiters of a comment. -/
theorem toList_failureMarker (name : String) :
    (failureMarker name).toList = "<!--".toList ++ markerContent name ++ "-->".toList := by
  have hopening : "<!-- Error loading component: ".toList =
      "<!--".toList ++ " Error loading component: ".toList := rfl
  have hclosing : " -->".toList = [' '] ++ "-->".toList := rfl
  rw [toList_failureMarker_eq_append, hopening, hclosing, Text.dropDashes_eq_flatMap]
  unfold markerContent
  simp only [List.append_assoc]

/-- A name is unchanged in its marker exactly if no two dashes stand next to each other in it. -/
theorem failureMarker_eq_iff (name : String) :
    failureMarker name = "<!-- Error loading component: " ++ name ++ " -->" ↔
      ¬ Text.dashPair <:+: name.toList := by
  rw [← String.toList_inj, toList_failureMarker_eq_append, String.toList_append,
    String.toList_append, List.append_cancel_right_eq, List.append_cancel_left_eq,
    Text.dropDashes_eq_self_iff]

/-- No two dashes stand next to each other in the content of a marker. It is what is left of a text,
for the words and blanks around the name have no dashes. -/
theorem not_infix_markerContent (name : String) : ¬ Text.dashPair <:+: markerContent name := by
  have hcontent : markerContent name =
      Text.dropDashes (" Error loading component: ".toList ++ name.toList ++ [' ']) := by
    have hwords : Text.dropDashes " Error loading component: ".toList =
        " Error loading component: ".toList := rfl
    rw [Text.dropDashes_append, Text.dropDashes_append, hwords, Text.dropDashes_eq_flatMap]
    · rfl
    · intro hlast
      cases hlast
    · intro _ hhead
      cases hhead
  rw [hcontent]
  exact Text.not_infix_dropDashes _

/-- Two dashes stand in the two delimiters of a marker and nowhere else. -/
theorem placesOf_failureMarker (name : String) :
    Text.placesOf Text.dashPair (failureMarker name).toList =
      [2, (failureMarker name).length - 3] := by
  have hopening : "<!--".toList.getLast? = some '-' →
      (markerContent name ++ "-->".toList).head? ≠ some '-' := by
    intro _ hhead
    cases hhead
  have hclosing : (markerContent name).getLast? = some '-' → "-->".toList.head? ≠ some '-' := by
    unfold markerContent
    rw [List.getLast?_concat]
    intro hlast
    cases hlast
  have hlength : (failureMarker name).length = 4 + (markerContent name).length + 3 := by
    rw [← String.length_toList, toList_failureMarker, List.length_append, List.length_append]
    rfl
  rw [hlength, toList_failureMarker, List.append_assoc, Text.placesOf_dashPair_append hopening,
    Text.placesOf_dashPair_append hclosing,
    Text.placesOf_of_not_infix (not_infix_markerContent name)]
  rfl

/-! ## Failed embeddings -/

namespace Engine

/-- What comes of embedding the template of a name if nothing fails: its tree, rendered one level
further down. -/
def attempt (e : Engine) (mode : Mode) (remaining : Nat) (chain : Chain) (s : Scope)
    (name : String) : Run (List Fragment) := do
  let tree ← e.embedded mode remaining chain name
  match remaining with
  | 0 => return []
  | below + 1 => Tree.render (e.embed mode below (chain ++ [name])) s tree

variable {e : Engine} {mode : Mode} {remaining : Nat} {chain : Chain} {s : Scope} {name : String}
variable {failure : Failure} {j k : Journal}

/-- Where embedding fails, whatever the failure, there is the marker of the name, and a notice. -/
theorem exec_render_embed_of_error
    (h : Run.exec (e.attempt mode remaining chain s name) j = (.error failure, k)) :
    Run.exec (Node.render (e.embed mode remaining chain) s (.embed name)) j =
      (.ok [.marker name], k.noting [.embedFailed name failure.message]) := by
  have hembed : e.embed mode remaining chain s name =
      recover name (e.attempt mode remaining chain s name) := embed_eq ..
  rw [Node.render, hembed, exec_recover, h]
  rfl

/-- A name cannot break out of the comment that stands in the place of its template. Where embedding
fails, at any depth and for any reason, the marker of the name is put out. It is a comment: two
dashes stand in its two delimiters and nowhere else, and between them is the name, which has lost
the pairs of each run of dashes and nothing besides, so one without two dashes next to each other is
unchanged. Whatever page the marker is part of, who reads the comment from its beginning comes to
its end where the marker ends. -/
theorem embed_marker_closed
    (h : Run.exec (e.attempt mode remaining chain s name) j = (.error failure, k)) :
    Run.exec (Node.render (e.embed mode remaining chain) s (.embed name)) j =
        (.ok [.marker name], k.noting [.embedFailed name failure.message]) ∧
      (failureMarker name).toList = "<!--".toList ++ markerContent name ++ "-->".toList ∧
      Text.placesOf Text.dashPair (failureMarker name).toList =
        [2, (failureMarker name).length - 3] ∧
      (failureMarker name = "<!-- Error loading component: " ++ name ++ " -->" ↔
        ¬ Text.dashPair <:+: name.toList) ∧
      ∀ earlier later, (printPage (earlier ++ .marker name :: later)).toList =
          (printPage earlier).toList ++ ((failureMarker name).toList ++ (printPage later).toList) ∧
        Text.comment? ((failureMarker name).toList ++ (printPage later).toList) =
          some (markerContent name, (printPage later).toList) := by
  refine ⟨exec_render_embed_of_error h, toList_failureMarker name, placesOf_failureMarker name,
    failureMarker_eq_iff name, fun earlier later => ⟨?_, ?_⟩⟩
  · rw [printPage_append, String.toList_append, toList_printPage_cons]
    rfl
  · rw [toList_failureMarker]
    refine Text.comment?_append (not_infix_markerContent name) ?_ _
    rintro c ⟨⟩
    decide

/-- A name that begins with the end of a comment, goes on with a longer run before an angle bracket,
and ends in a dash. -/
def hostileName : String := "-->\n--->x-"

/-- No template has that name, and what is left of it in the marker is no end of a comment. -/
theorem embed_marker_closed_hostileName :
    Run.exec (Engine.attempt ⟨some (.ofTable []), {}⟩ .blocking 16 ["page"] (.ofData (.dict []))
        hostileName) (.start none) =
      (.error (.notFound hostileName none), ⟨[], [⟨["page"], hostileName⟩], none⟩) ∧
    Run.exec (Node.render (Engine.embed ⟨some (.ofTable []), {}⟩ .blocking 16 ["page"])
        (.ofData (.dict [])) (.embed hostileName)) (.start none) =
      (.ok [.marker hostileName], ⟨[.embedFailed hostileName
        "Template not found: -->\n--->x-"], [⟨["page"], hostileName⟩], none⟩) ∧
    printPage [.text "a", .marker hostileName, .text "-->"] =
      "a<!-- Error loading component: >\n->x- -->-->" ∧
    Text.placesOf Text.dashPair (failureMarker hostileName).toList = [2, 37] ∧
    Text.comment? ((failureMarker hostileName).toList ++ "-->".toList) =
      some (" Error loading component: >\n->x- ".toList, "-->".toList) := by
  have hfails : Run.exec (Engine.attempt ⟨some (.ofTable []), {}⟩ .blocking 16 ["page"]
      (.ofData (.dict [])) hostileName) (.start none) =
        (.error (.notFound hostileName none), ⟨[], [⟨["page"], hostileName⟩], none⟩) := rfl
  obtain ⟨hmarker, -, hplaces, -, hcomment⟩ := embed_marker_closed hfails
  refine ⟨hfails, hmarker, ?_, hplaces, (hcomment [] [.text "-->"]).2⟩
  decide +kernel

end Engine

end Curly
