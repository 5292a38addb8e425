import Curly.Proofs.Forms

/-!
# The search for a tag

Of the matches at a place of a text the search takes the one that it finds first, by the order in
which the forms are listed and by what each of their parts prefers. That is the tag which is read
there (`Tag.first_eq_read?`). For most forms all matches capture the same; of a condition the search
leaves out the blanks at both ends, as the reader does (`Tag.first_ifForm`).
-/

namespace Curly.Tag

open Text Pattern

/-- What is found first is what is read. -/
def ReadsFirst (p : Pattern Group) : Prop :=
  ∀ cs w, p.first cs = some w → ∃ body tag, w.matched = wrap body ∧
    read? cs = some (body, tag, w.rest) ∧ ofCaptures w.captures = some tag

theorem ReadsFirst.alts {ps : List (Pattern Group)} (h : ∀ p ∈ ps, ReadsFirst p) :
    ReadsFirst (alts ps) := by
  induction ps with
  | nil =>
    intro cs w hw
    rcases (matches_of_first hw).2 with ⟨⟨c, hc, -⟩, -⟩
    cases hc
  | cons p ps ih =>
    rcases List.forall_mem_cons.mp h with ⟨hp, hps⟩
    intro cs w hw
    rw [Pattern.alts, first_alt, Option.or_eq_some_iff] at hw
    rcases hw with hw | ⟨-, hw⟩
    · exact hp cs w hw
    · exact ih hps cs w hw

/-- Where all matches of a form have the same captures, it does not matter which is found first. -/
theorem IsSound.readsFirst {form : List (Pattern Group)} (hsound : IsSound form)
    (hform : form ∈ forms) : ReadsFirst (braced form) := by
  intro cs w hw
  rcases matches_of_first hw with ⟨hcs, hmatch⟩
  rcases matches_braced.mp hmatch with ⟨body, hmatched, hbody⟩
  rcases hsound body w.captures hbody with ⟨tag, htag, hcaptures⟩
  refine ⟨body, tag, hmatched, ?_, hcaptures⟩
  rw [hcs, hmatched]
  exact read?_wrap_append (braceless_of_matches hform hbody) htag w.rest

/-- The blanks after a condition do not reach back over its last character. -/
theorem first_blanks_eq_none {earlier later blanks : List Char} (hlater : Braceless later)
    (hne : later ≠ []) (hends : EndsUnblank (earlier ++ later)) (hblanks : ∀ c ∈ blanks, isBlank c)
    (more : List Char) :
    (seqs [many isBlank, literal "\x7d"] : Pattern Group).first
      (later ++ (blanks ++ '\x7d' :: more)) = none := by
  rcases hw : (seqs [many isBlank, literal "\x7d"] : Pattern Group).first
    (later ++ (blanks ++ '\x7d' :: more)) with _ | w
  · rfl
  rcases matches_of_first hw with ⟨heq, hmatch⟩
  rcases matches_many_cons.mp hmatch with ⟨run, _, hrun, hmatched, hclose⟩
  rcases matches_literal_cons.mp hclose with ⟨_, rfl, rfl, -⟩
  -- what is matched before the brace is all that stands before it, with the last character
  have hnot : ∀ c, isBrace c = false → (!isBrace c) = true := by
    intro c hc
    rw [hc]
    rfl
  have hbrace : ∀ tail : List Char, ∀ c ∈ ('\x7d' :: tail).head?, (!isBrace c) = false := by
    rintro _ _ ⟨⟩
    rfl
  have hleft : (later ++ blanks ++ '\x7d' :: more).takeWhile (!isBrace ·) = later ++ blanks := by
    refine (run_append (fun c hc => ?_) (hbrace more)).1
    rcases List.mem_append.mp hc with hc | hc
    · exact hnot c (hlater c hc)
    · exact hnot c (isBrace_of_isBlank (hblanks c hc))
  have hright : (run ++ '\x7d' :: w.rest).takeWhile (!isBrace ·) = run :=
    (run_append (fun c hc => hnot c (isBrace_of_isBlank (hrun c hc))) (hbrace w.rest)).1
  have hsame : later ++ blanks ++ '\x7d' :: more = run ++ '\x7d' :: w.rest := by
    rw [List.append_assoc, heq, hmatched]
    simp
  rw [hsame, hright] at hleft
  have hlast := List.getLast_mem hne
  have hblank := hrun _ (hleft ▸ List.mem_append_left blanks hlast)
  rw [hends.of_append _ (List.getLast_mem_getLast? hne)] at hblank
  cases hblank

/-- Of a condition that is found first the blanks at both ends are left out. -/
theorem first_ifForm {body cs : List Char} (hbody : Braceless body)
    (h : after? "#if" body = some cs) (more : List Char) :
    (braced ifForm).first (wrap body ++ more) =
      some ⟨wrap body, [(.condition, trimEnd cs)], more⟩ := by
  have hbegin := (after?_eq_some h).1
  have hcs : Braceless cs := hbody.mono (after?_eq_some h).2
  rcases after?_eq_some_iff.mp h with ⟨_, rfl, hblanks⟩
  rcases exists_blanks_of_afterBlanks? hblanks with ⟨blanks, hall, rfl⟩
  rcases exists_blanks_after_trimEnd cs with ⟨tail, htail, hsplit⟩
  have hends := endsUnblank_trimEnd cs
  generalize trimEnd cs = condition at hsplit hends
  subst hsplit
  have hcondition : Braceless condition := hcs.mono fun _ hc => List.mem_append_left tail hc
  -- from the end of the pattern to its front: the blanks behind the condition and the brace,
  have hmany : (seqs [many isBlank, literal "\x7d"] : Pattern Group).first
      (tail ++ '\x7d' :: more) = some ⟨tail ++ ['\x7d'], [], more⟩ := by
    have hbrace : ∀ c ∈ ('\x7d' :: more).head?, isBlank c = false := by
      rintro _ ⟨⟩
      decide
    rcases run_append htail hbrace with ⟨htake, hdrop⟩
    have hclose : (seqs [literal "\x7d"] : Pattern Group).first
        ((tail ++ '\x7d' :: more).dropWhile isBlank) = some ⟨['\x7d'], [], more⟩ := by
      rw [hdrop]
      rfl
    rw [seqs, first_seq_many hclose, htake]
    rfl
  -- then the condition, as short as can be: no shorter one has only blanks behind it,
  have hfew : (seqs [group .condition (few (!isBrace ·)), many isBlank, literal "\x7d"]).first
      (condition ++ (tail ++ '\x7d' :: more)) = some
        ⟨condition ++ (tail ++ ['\x7d']), [(Group.condition, condition)], more⟩ := by
    refine first_seq_few Group.condition (fun c hc => ?_) ?_ hmany
    · rw [hcondition c hc]
      rfl
    · rintro earlier later rfl hne
      have hlater : Braceless later := hcondition.mono fun _ hc => List.mem_append_right earlier hc
      exact first_blanks_eq_none hlater hne hends htail more
  -- then the blanks in front, which end where the condition or the brace begins
  have hunblank : ∀ c ∈ (condition ++ (tail ++ '\x7d' :: more)).head?, isBlank c = false := by
    rw [← List.append_assoc]
    intro c hc
    rcases hnil : condition ++ tail with _ | ⟨d, rest⟩
    · rw [hnil] at hc
      cases hc
      decide
    · exact (hbegin.append (by simp [hnil]) _) c hc
  have hrun : (seqs [run isBlank, group .condition (few (!isBrace ·)), many isBlank,
      literal "\x7d"]).first (blanks ++ (condition ++ (tail ++ '\x7d' :: more))) = some
        ⟨blanks ++ (condition ++ (tail ++ ['\x7d'])), [(Group.condition, condition)], more⟩ := by
    rcases List.exists_cons_of_ne_nil hall.1 with ⟨c, others, rfl⟩
    rcases List.forall_mem_cons.mp hall.2 with ⟨hc, hothers⟩
    rcases run_append hothers hunblank with ⟨htake, hdrop⟩
    rw [List.cons_append, seqs, first_seq_run hc (by rw [hdrop]; exact hfew), htake]
    rfl
  have hwrap : wrap ("#if".toList ++ (blanks ++ (condition ++ tail))) ++ more = "\x7b".toList ++
      ("#if".toList ++ (blanks ++ (condition ++ (tail ++ '\x7d' :: more)))) := by
    simp [wrap]
  rw [hwrap]
  refine (first_seq_literal (first_seq_literal hrun)).trans ?_
  simp [Way.andThen, wrap]

theorem readsFirst_ifForm : ReadsFirst (braced ifForm) := by
  intro cs w hw
  rcases matches_of_first hw with ⟨hcs, hmatch⟩
  rcases matches_braced.mp hmatch with ⟨body, hmatched, hform⟩
  have hbody : Braceless body := braceless_of_matches (by simp [forms]) hform
  rcases matches_literal_cons.mp hform with ⟨_, rfl, hrest⟩
  rcases matches_run_cons.mp hrest with ⟨blanks, rest, hblanks, rfl, -⟩
  have hafter : after? "#if" ("#if".toList ++ (blanks ++ rest)) = some (rest.dropWhile isBlank) :=
    after?_eq_some_iff.mpr ⟨_, rfl, afterBlanks?_append hblanks⟩
  have htag : ofBody? ("#if".toList ++ (blanks ++ rest)) =
      some (ifOpen (String.ofList (trimEnd (rest.dropWhile isBlank)))) := by
    rw [ofBody?_if, afterBlanks?_append hblanks]
    rfl
  have hfirst := first_ifForm hbody hafter w.rest
  rw [← hmatched, ← hcs, hw] at hfirst
  refine ⟨_, ifOpen (String.ofList (trimEnd (rest.dropWhile isBlank))), hmatched, ?_, ?_⟩
  · rw [hcs, hmatched]
    exact read?_wrap_append hbody htag w.rest
  · rw [congrArg Way.captures (Option.some.inj hfirst)]
    rfl

/-- The reader gives the tag that is found first: where there is one, with what it has captured and
with what follows it. -/
theorem first_eq_read? (cs : List Char) :
    ((pattern.first cs).bind fun w =>
        (ofCaptures w.captures).map fun tag => (w.matched, tag, w.rest)) =
      (read? cs).map fun (body, tag, rest) => (wrap body, tag, rest) := by
  have hfirst : ReadsFirst pattern := by
    refine .alts fun p hp => ?_
    rcases List.mem_map.mp hp with ⟨form, hform, rfl⟩
    have hmem := hform
    simp only [forms, List.mem_cons, List.not_mem_nil, or_false] at hform
    rcases hform with rfl | rfl | rfl | rfl | rfl | rfl | rfl
    · exact isSound_valueForm.readsFirst hmem
    · exact isSound_rawForm.readsFirst hmem
    · exact readsFirst_ifForm
    · exact isSound_eachForm.readsFirst hmem
    · exact isSound_embedForm.readsFirst hmem
    · exact isSound_elseForm.readsFirst hmem
    · exact isSound_closeForm.readsFirst hmem
  rcases hw : pattern.first cs with _ | w
  · -- where nothing is found there is no match, and nothing to read
    rcases hread : read? cs with _ | ⟨body, tag, rest⟩
    · rfl
    · rcases braceless_of_read? hread with ⟨hbody, htag⟩
      rcases matches_pattern_iff.mpr ⟨body, tag, rfl, hbody, htag⟩ with ⟨gs, hmatch⟩
      rcases first_isSome hmatch rest with ⟨w, hfound⟩
      rw [← eq_of_read? hread, hw] at hfound
      cases hfound
  · rcases hfirst cs w hw with ⟨body, tag, hmatched, hread, hcaptures⟩
    rw [hread, Option.bind_some, hcaptures, hmatched]
    rfl

example : (pattern.first "\x7b#if  a b \x7d!".toList).map Way.captures =
    some [(.condition, "a b".toList)] := by
  decide

end Curly.Tag
