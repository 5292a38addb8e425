import Curly.Files.Directory
import Mathlib.Logic.Relation

/-!
# Confinement to a directory

What a directory of templates finds lies below its root. The place that a text names is its normal
form, seen from the root (`FilePath.NormalForm`): what is left when segments that say nothing are
dropped and each double dot is taken together with the segment before it, in whatever order. There
is one normal form (`FilePath.normalForm_iff`), and it is where `FilePath.normalize` leads.

A name is found at a place exactly if a file stands there, below the root, and the name without the
slashes before it has that place, or has a place inside the root without a file and the place is
that of the name with the suffix. A name with the character NUL in it has no place at all, wherever it
leads, and at a place that the system does not let one ask about nothing is found: then the search
itself fails (`Directory.locate_eq_ok_iff`).
-/

namespace Curly

/-! ## Normal forms of paths -/

namespace FilePath

/-- A segment that leads from a directory to something in it. -/
def IsProper (segment : String) : Prop := segment ≠ "" ∧ segment ≠ "." ∧ segment ≠ ".."

instance : DecidablePred IsProper := fun _ => inferInstanceAs (Decidable (_ ∧ _ ∧ _))

/-- One simplification of segments that are counted from the root. -/
inductive Simplifies : List String → List String → Prop where
  /-- A segment without a meaning is dropped. -/
  | skip {segment : String} (before after : List String) :
      segment = "" ∨ segment = "." → Simplifies (before ++ segment :: after) (before ++ after)
  /-- A double dot takes back the segment before it. -/
  | back {segment : String} (before after : List String) :
      IsProper segment → Simplifies (before ++ segment :: ".." :: after) (before ++ after)
  /-- Nothing is above the root. -/
  | top (after : List String) : Simplifies (".." :: after) after

/-- A place is the normal form of segments if they can be simplified to it, and it cannot be
simplified any further. -/
structure NormalForm (segments place : List String) : Prop where
  simplified : Relation.ReflTransGen Simplifies segments place
  proper : ∀ segment ∈ place, IsProper segment

/-- Whether a segment counts in a path. -/
def counts (segment : String) : Bool := segment ≠ "" ∧ segment ≠ "."

/-- The segments of a text between its slashes, with those that do not count. -/
def parts (text : String) : List String := (Text.splitList '/' text.toList).map String.ofList

theorem segments_ofText (text : String) : (ofText text).segments = (parts text).filter counts := rfl

theorem IsProper.counts {segment : String} (h : IsProper segment) : FilePath.counts segment := by
  simp [FilePath.counts, h.1, h.2.1]

theorem normalize_append (place segments others : List String) :
    normalize place (segments ++ others) = normalize (normalize place segments) others :=
  List.foldl_append

theorem enter_of_isProper {segment : String} (h : IsProper segment) (place : List String) :
    enter place segment = place ++ [segment] :=
  if_neg h.2.2

/-- Segments lead nowhere but along themselves. -/
theorem mem_normalize {place segments : List String} {segment : String}
    (h : segment ∈ normalize place segments) : segment ∈ place ∨ segment ∈ segments := by
  induction segments generalizing place with
  | nil => exact .inl h
  | cons first rest ih =>
    rcases ih h with hentered | hrest
    · rw [enter] at hentered
      split at hentered
      · exact .inl (List.dropLast_subset _ hentered)
      · rcases List.mem_append.mp hentered with hplace | hfirst
        · exact .inl hplace
        · exact .inr (List.mem_singleton.mp hfirst ▸ List.mem_cons_self)
    · exact .inr (List.mem_cons_of_mem first hrest)

/-- Proper segments lead further on. -/
theorem normalize_of_isProper {segments : List String} (h : ∀ segment ∈ segments, IsProper segment)
    (place : List String) : normalize place segments = place ++ segments := by
  induction segments generalizing place with
  | nil => exact (List.append_nil place).symm
  | cons segment rest ih =>
    rcases List.forall_mem_cons.mp h with ⟨hsegment, hrest⟩
    change normalize (enter place segment) rest = _
    rw [ih hrest, enter_of_isProper hsegment, List.append_assoc, List.singleton_append]

/-- Segments lead to the same place from the root before and after a simplification. -/
theorem Simplifies.normalize_eq {segments simpler : List String} (h : Simplifies segments simpler) :
    normalize [] (segments.filter counts) = normalize [] (simpler.filter counts) := by
  cases h with
  | skip before after hsegment =>
    have hnot : ∀ segment, segment = "" ∨ segment = "." → counts segment = false := by
      rintro segment (rfl | rfl)
      · rfl
      · rfl
    rw [List.filter_append, List.filter_append, List.filter_cons, hnot _ hsegment]
    rfl
  | @back segment before after hsegment =>
    have hpair : (segment :: ".." :: after).filter counts =
        segment :: ".." :: after.filter counts := by
      rw [List.filter_cons, if_pos hsegment.counts, List.filter_cons]
      rfl
    rw [List.filter_append, List.filter_append, hpair, normalize_append, normalize_append]
    -- the segment leads one step down, and the double dot back
    change normalize (enter (enter _ segment) "..") _ = _
    rw [enter_of_isProper hsegment, enter, if_pos rfl, List.dropLast_concat]
  | top after => rfl

/-- Segments seen from a place can be simplified to where they lead from it. -/
theorem simplified_normalize {place : List String} (hplace : ∀ segment ∈ place, IsProper segment)
    (segments : List String) :
    NormalForm (place ++ segments) (normalize place (segments.filter counts)) := by
  induction segments generalizing place with
  | nil => exact ⟨by rw [List.append_nil]; exact .refl, hplace⟩
  | cons segment rest ih =>
    -- a segment is skipped, leads back, or leads one step down
    by_cases hskip : segment = "" ∨ segment = "."
    · rcases ih hplace with ⟨hsimplified, hproper⟩
      have hfilter : (segment :: rest).filter counts = rest.filter counts := by
        rcases hskip with rfl | rfl
        · rfl
        · rfl
      rw [hfilter]
      exact ⟨.head (.skip place rest hskip) hsimplified, hproper⟩
    · have hcounts : counts segment = true := by simpa [counts] using not_or.mp hskip
      rw [List.filter_cons, if_pos hcounts]
      change NormalForm _ (normalize (enter place segment) _)
      by_cases hback : segment = ".."
      · subst hback
        rw [enter, if_pos rfl]
        rcases List.eq_nil_or_concat place with rfl | ⟨front, last, rfl⟩
        · rcases ih hplace with ⟨hsimplified, hproper⟩
          exact ⟨.head (.top rest) hsimplified, hproper⟩
        · rw [List.concat_eq_append] at hplace ⊢
          have hfront : ∀ segment ∈ front, IsProper segment :=
            fun segment hmem => hplace segment (List.mem_append_left _ hmem)
          have hlast : IsProper last := hplace last (List.mem_append_right _ List.mem_cons_self)
          rcases ih hfront with ⟨hsimplified, hproper⟩
          rw [List.dropLast_concat, List.append_assoc]
          exact ⟨.head (.back front rest hlast) hsimplified, hproper⟩
      · have hsegment : IsProper segment :=
          ⟨fun h => hskip (.inl h), fun h => hskip (.inr h), hback⟩
        have hlonger : ∀ s ∈ place ++ [segment], IsProper s := by
          intro s hs
          rcases List.mem_append.mp hs with hs | hs
          · exact hplace s hs
          · rw [List.mem_singleton.mp hs]
            exact hsegment
        rw [enter_of_isProper hsegment]
        simpa using ih hlonger

/-- Segments lead to the same place from the root before and after all simplifications. -/
theorem normalize_eq_of_simplified {segments place : List String}
    (h : Relation.ReflTransGen Simplifies segments place) :
    normalize [] (segments.filter counts) = normalize [] (place.filter counts) := by
  induction h with
  | refl => rfl
  | tail _ hstep ih => exact ih.trans hstep.normalize_eq

theorem filter_counts_of_isProper {segments : List String}
    (h : ∀ segment ∈ segments, IsProper segment) : segments.filter counts = segments :=
  List.filter_eq_self.mpr fun segment hmem => (h segment hmem).counts

/-- Segments seen from a place have one normal form: where they lead from it. -/
theorem normalForm_iff {base : List String} (hbase : ∀ segment ∈ base, IsProper segment)
    {segments place : List String} :
    NormalForm (base ++ segments) place ↔ place = normalize base (segments.filter counts) := by
  constructor
  · rintro ⟨hsimplified, hproper⟩
    have hsame := normalize_eq_of_simplified hsimplified
    -- the base is in normal form already, and so is the place
    rw [List.filter_append, filter_counts_of_isProper hbase, normalize_append,
      normalize_of_isProper hbase, filter_counts_of_isProper hproper,
      normalize_of_isProper hproper, List.nil_append, List.nil_append] at hsame
    exact hsame.symm
  · rintro rfl
    exact simplified_normalize hbase segments

/-- A text gives an absolute path if it begins with a slash. -/
theorem isAbsolute_ofText (text : String) :
    (ofText text).isAbsolute = (text.toList.head? == some '/') := by
  change (anchorOf text != .here) = _
  rw [anchorOf]
  rcases text.toList with _ | ⟨c, rest⟩
  · rfl
  · by_cases hc : c = '/'
    · -- one slash, two slashes or more, but some anchor
      subst hc
      rcases (rest.takeWhile (· = '/')).eq_nil_or_concat with h | ⟨_, _, h⟩
      · simp [h]
      · rw [List.takeWhile_cons_of_pos (by simp), h]
        split <;> simp_all
    · simp [hc]

end FilePath

/-! ## Files on a disk -/

namespace Disk

variable {d : Disk}

/-- A file stands at a place. -/
def HasFile (d : Disk) (place : List String) : Prop :=
  d.isFolderAt place = false ∧ (d.fileAt? place).isSome

/-- The system lets one ask what is at a place: neither its text nor a segment is too long, there is
no NUL in it, and nothing above it is barred. -/
structure Reaches (d : Disk) (place : List String) : Prop where
  noNul : (FilePath.ofPlace place).hasNul = false
  short : (FilePath.ofPlace place).toText.utf8ByteSize ≤ pathLimit
  segments : ∀ above segment below, place = above ++ segment :: below →
    d.barred.contains above = false ∧ segment.utf8ByteSize ≤ segmentLimit

/-- Every place above a file is a directory. -/
theorem isFolderAt_of_fileAt? {above below : List String} {segment : String}
    (h : (d.fileAt? (above ++ segment :: below)).isSome) : d.isFolderAt above := by
  obtain ⟨bytes, hbytes⟩ := Option.isSome_iff_exists.mp h
  have hmem : (above ++ segment :: below, bytes) ∈ d.files := by
    obtain ⟨before, after, hfiles, -⟩ := List.lookup_eq_some_iff.mp hbytes
    rw [hfiles]
    exact List.mem_append_right _ List.mem_cons_self
  have hne : above ≠ above ++ segment :: below := by simp
  rw [isFolderAt, Bool.or_eq_true]
  exact .inr (List.any_eq_true.mpr ⟨_, hmem, by simp [hne]⟩)

/-- Proper segments lead from a directory to a file exactly if there is one, and every step on the way
can be taken. -/
theorem walk_eq_file_iff {rest : List String} (hrest : ∀ segment ∈ rest, FilePath.IsProper segment)
    (place : List String) :
    (∃ bytes, d.walk place rest = .ok (.file bytes)) ↔
      rest ≠ [] ∧ d.HasFile (place ++ rest) ∧
        ∀ before segment after, rest = before ++ segment :: after →
          d.barred.contains (place ++ before) = false ∧ segment.utf8ByteSize ≤ segmentLimit := by
  induction rest generalizing place with
  | nil => simp [walk]
  | cons segment rest ih =>
    obtain ⟨hsegment, hrest⟩ := List.forall_mem_cons.mp hrest
    have hassoc : place ++ segment :: rest = (place ++ [segment]) ++ rest := by
      rw [List.append_assoc, List.singleton_append]
    have hsteps : (∀ before other after, segment :: rest = before ++ other :: after →
        d.barred.contains (place ++ before) = false ∧ other.utf8ByteSize ≤ segmentLimit) ↔
        (d.barred.contains place = false ∧ segment.utf8ByteSize ≤ segmentLimit) ∧
          ∀ before other after, rest = before ++ other :: after →
            d.barred.contains ((place ++ [segment]) ++ before) = false ∧
              other.utf8ByteSize ≤ segmentLimit := by
      constructor
      · intro h
        refine ⟨by simpa using h [] segment rest rfl, fun before other after heq => ?_⟩
        simpa using h (segment :: before) other after (by rw [heq, List.cons_append])
      · rintro ⟨hfirst, hmore⟩ (_ | ⟨first, before⟩) other after heq
        · cases heq
          simpa using hfirst
        · cases heq
          simpa using hmore before other after rfl
    rw [hsteps, walk, FilePath.enter_of_isProper hsegment]
    by_cases hbarred : d.barred.contains place = true
    · rw [if_pos hbarred]
      exact iff_of_false (by simp) fun h => absurd (h.2.2.1.1.symm.trans hbarred) (by decide)
    by_cases hlong : segmentLimit < segment.utf8ByteSize
    · rw [if_neg hbarred, if_pos hlong]
      exact iff_of_false (by simp) fun h => absurd h.2.2.1.2 (by omega)
    rw [if_neg hbarred, if_neg hlong]
    have hstep : d.barred.contains place = false ∧ segment.utf8ByteSize ≤ segmentLimit :=
      ⟨Bool.eq_false_iff.mpr hbarred, by omega⟩
    by_cases hfolder : d.isFolderAt (place ++ [segment]) = true
    · rw [if_pos (.inr hfolder), ih hrest, hassoc]
      have hne : d.HasFile ((place ++ [segment]) ++ rest) → rest ≠ [] := by
        rintro ⟨hnot, -⟩ rfl
        rw [List.append_nil, hfolder] at hnot
        cases hnot
      constructor
      · rintro ⟨-, hfile, hmore⟩
        exact ⟨List.cons_ne_nil _ _, hfile, hstep, hmore⟩
      · rintro ⟨-, hfile, -, hmore⟩
        exact ⟨hne hfile, hfile, hmore⟩
    · have hback : ¬ (segment = ".." ∨ d.isFolderAt (place ++ [segment]) = true) :=
        not_or.mpr ⟨hsegment.2.2, hfolder⟩
      rw [if_neg hback]
      rcases rest with _ | ⟨other, rest⟩
      · have hfile : d.HasFile (place ++ [segment]) ↔ (d.fileAt? (place ++ [segment])).isSome :=
          and_iff_right (Bool.eq_false_iff.mpr hfolder)
        rw [hfile]
        cases d.fileAt? (place ++ [segment]) with
        | none => simp
        | some bytes =>
          refine iff_of_true ⟨bytes, rfl⟩ ⟨List.cons_ne_nil _ _, rfl, hstep, ?_⟩
          intro before other after heq
          simp at heq
      · -- below what is no directory there is no file
        have hnone : ¬ d.HasFile (place ++ segment :: other :: rest) := by
          rintro ⟨-, hsome⟩
          rw [hassoc] at hsome
          exact hfolder (isFolderAt_of_fileAt? hsome)
        cases d.fileAt? (place ++ [segment]) with
        | none => simp [hnone]
        | some bytes => simp [hnone]

/-- A file is seen at a place exactly if one stands there and the system lets one ask for it. -/
theorem isFile_ofPlace_iff {place : List String}
    (hplace : ∀ segment ∈ place, FilePath.IsProper segment) :
    d.isFile (.ofPlace place) = .ok true ↔ d.HasFile place ∧ d.Reaches place := by
  have hfind : d.isFile (.ofPlace place) = .ok true ↔
      ∃ bytes, d.find (.ofPlace place) = .ok (.file bytes) := by
    rw [isFile, isSuch]
    rcases d.find (.ofPlace place) with fault | bytes | _
    · dsimp only
      cases fault.isAbsence <;> simp
    · simp
    · simp
  have hroot : ¬ d.HasFile [] := by
    rintro ⟨hfolder, -⟩
    simp [isFolderAt] at hfolder
  rw [hfind, find]
  -- what the system refuses of a path as a whole comes before any step along it
  by_cases hnul : (FilePath.ofPlace place).hasNul = true
  · rw [if_pos hnul]
    refine iff_of_false (by simp) ?_
    rintro ⟨-, hreaches⟩
    rw [hreaches.noNul] at hnul
    cases hnul
  by_cases hlong : pathLimit < (FilePath.ofPlace place).toText.utf8ByteSize
  · rw [if_neg hnul, if_pos hlong]
    refine iff_of_false (by simp) ?_
    rintro ⟨-, hreaches⟩
    exact absurd hreaches.short (by omega)
  rw [if_neg hnul, if_neg hlong]
  change (∃ bytes, d.walk [] place = .ok (.file bytes)) ↔ _
  rw [walk_eq_file_iff hplace, List.nil_append]
  constructor
  · rintro ⟨-, hfile, hsteps⟩
    exact ⟨hfile, Bool.eq_false_iff.mpr hnul, by omega, hsteps⟩
  · rintro ⟨hfile, hreaches⟩
    refine ⟨?_, hfile, hreaches.segments⟩
    rintro rfl
    exact hroot hfile

end Disk

namespace Directory

/-! ## What is found -/

/-- The name without the slashes before it. -/
def bareName (name : String) : String := String.ofList (name.toList.dropWhile (· = '/'))

/-- The segments of a text seen from the root of the directory. A text that begins with a slash is
seen from the root of all. -/
def seen (dir : Directory) (text : String) : List String :=
  if text.toList.head? = some '/' then FilePath.parts text else dir.root ++ FilePath.parts text

/-- A place lies below the root of the directory. -/
def Holds (dir : Directory) (place : List String) : Prop :=
  ∃ below, below ≠ [] ∧ (∀ segment ∈ below, FilePath.IsProper segment) ∧ place = dir.root ++ below

/-- A text names a place: its normal form. No text with the character NUL in it names one. -/
structure Names (dir : Directory) (text : String) (place : List String) : Prop where
  noNul : '\x00' ∉ text.toList
  normalForm : FilePath.NormalForm (dir.seen text) place

/-- A text names a place below the root, where a file stands that can be reached. -/
structure Hits (dir : Directory) (d : Disk) (text : String) (place : List String) : Prop where
  names : dir.Names text place
  holds : dir.Holds place
  hasFile : d.HasFile place
  reaches : d.Reaches place

/-- A text names a place inside the root, where there is no file. -/
def Passes (dir : Directory) (d : Disk) (text : String) : Prop :=
  ∃ place, dir.Names text place ∧ dir.root <+: place ∧ d.isFile (.ofPlace place) = .ok false

/-- A text cannot be looked for: NUL is in it, or the system refuses to tell what is at its place
inside the root. -/
def Stumbles (dir : Directory) (d : Disk) (text : String) : Prop :=
  '\x00' ∈ text.toList ∨
    ∃ place fault, dir.Names text place ∧ dir.root <+: place ∧ d.isFile (.ofPlace place) = .error fault

/-- The suffix counts for a name: there is one, and the name does not end with it. -/
def TakesSuffix (dir : Directory) (name : String) : Prop :=
  dir.suffix ≠ "" ∧ ¬ dir.suffix.toList <:+ (bareName name).toList

/-- A name has a place in the directory: the place of the name is hit, or else that of the name with
the suffix, where the name itself is passed over. -/
def Finds (dir : Directory) (d : Disk) (name : String) (place : List String) : Prop :=
  dir.Hits d (bareName name) place ∨
    dir.TakesSuffix name ∧ dir.Passes d (bareName name) ∧
      dir.Hits d (bareName name ++ dir.suffix) place

/-- The search for a name cannot go on: at the name, or at the name with the suffix. -/
def Breaks (dir : Directory) (d : Disk) (name : String) : Prop :=
  dir.Stumbles d (bareName name) ∨
    dir.TakesSuffix name ∧ dir.Passes d (bareName name) ∧
      dir.Stumbles d (bareName name ++ dir.suffix)

/-- The root of the directory is made of proper segments, and there is no NUL in it. -/
def HasProperRoot (dir : Directory) : Prop :=
  ∀ segment ∈ dir.root, FilePath.IsProper segment ∧ '\x00' ∉ segment.toList

variable {dir : Directory} {d : Disk}

/-- The place that a path names is such a root, if the place where one stands is and there is no NUL in
the path. -/
theorem hasProperRoot_place
    (hhere : ∀ segment ∈ d.here, FilePath.IsProper segment ∧ '\x00' ∉ segment.toList) {text : String}
    (htext : '\x00' ∉ text.toList) (suffix : String) (encoding : Text.Encoding) :
    HasProperRoot ⟨d.place (.ofText text), suffix, encoding⟩ := by
  have hbase : ∀ segment ∈ if (FilePath.ofText text).isAbsolute then [] else d.here,
      FilePath.IsProper segment ∧ '\x00' ∉ segment.toList := by
    split
    · exact fun segment hmem => (List.not_mem_nil hmem).elim
    · exact hhere
  generalize hbase' : (if (FilePath.ofText text).isAbsolute then [] else d.here) = base at hbase
  have hplace : d.place (.ofText text) = FilePath.normalize base (FilePath.ofText text).segments := by
    rw [Disk.place, hbase']
  intro segment hmem
  rw [hplace] at hmem
  have hproper := (FilePath.simplified_normalize (fun s hs => (hbase s hs).1)
    (FilePath.parts text)).proper
  refine ⟨hproper segment hmem, ?_⟩
  -- a segment is one of the place gone from, or a part of the text, which has no NUL
  rcases FilePath.mem_normalize hmem with hmem | hmem
  · exact (hbase segment hmem).2
  · intro hnul
    rw [FilePath.segments_ofText] at hmem
    obtain ⟨part, hpart, rfl⟩ := List.mem_map.mp (List.mem_filter.mp hmem).1
    rw [String.toList_ofList] at hnul
    exact htext ((Text.mem_iff_of_ne (by decide : '\x00' ≠ '/') _).mpr ⟨part, hpart, hnul⟩)

/-- The place of a text is the normal form of its segments. -/
theorem normalForm_seen_iff (hroot : dir.HasProperRoot) {text : String} {place : List String} :
    FilePath.NormalForm (dir.seen text) place ↔ place = dir.placeOf text := by
  rw [seen, placeOf, FilePath.isAbsolute_ofText, FilePath.segments_ofText]
  by_cases hslash : text.toList.head? = some '/'
  · rw [if_pos hslash, if_pos (beq_iff_eq.mpr hslash)]
    exact @FilePath.normalForm_iff [] (fun _ hmem => (List.not_mem_nil hmem).elim) _ _
  · rw [if_neg hslash, if_neg fun h => hslash (beq_iff_eq.mp h)]
    exact FilePath.normalForm_iff fun segment hmem => (hroot segment hmem).1

/-- A text has one place, unless NUL is in it. -/
theorem names_iff (hroot : dir.HasProperRoot) {text : String} {place : List String} :
    dir.Names text place ↔ '\x00' ∉ text.toList ∧ place = dir.placeOf text := by
  rw [← normalForm_seen_iff hroot]
  exact ⟨fun h => ⟨h.noNul, h.normalForm⟩, fun h => ⟨h.1, h.2⟩⟩

/-- NUL is in the path of a text exactly if it is in the text. -/
theorem hasNul_pathOf (hroot : dir.HasProperRoot) (text : String) :
    (dir.pathOf text).hasNul = true ↔ '\x00' ∈ text.toList := by
  have hparts : (∃ segment ∈ (FilePath.ofText text).segments, '\x00' ∈ segment.toList) ↔
      '\x00' ∈ text.toList := by
    rw [Text.mem_iff_of_ne (by decide : '\x00' ≠ '/'), FilePath.segments_ofText]
    constructor
    · rintro ⟨segment, hmem, hnul⟩
      obtain ⟨part, hpart, rfl⟩ := List.mem_map.mp (List.mem_filter.mp hmem).1
      exact ⟨part, hpart, by rwa [String.toList_ofList] at hnul⟩
    · rintro ⟨part, hpart, hnul⟩
      refine ⟨String.ofList part, List.mem_filter.mpr ⟨List.mem_map_of_mem hpart, ?_⟩, ?_⟩
      · -- a segment with NUL in it is neither empty nor a dot
        have hne : ∀ other : String, '\x00' ∉ other.toList → String.ofList part ≠ other := by
          rintro other hother rfl
          rw [String.toList_ofList] at hother
          exact hother hnul
        simp [FilePath.counts, hne "" (by decide), hne "." (by decide)]
      · rwa [String.toList_ofList]
  rw [pathOf, FilePath.join, FilePath.hasNul, ← hparts]
  split
  · simp
  · have hbase : ¬ ∃ segment ∈ dir.root, '\x00' ∈ segment.toList := by
      rintro ⟨segment, hmem, hnul⟩
      exact (hroot segment hmem).2 hnul
    simp [FilePath.ofPlace, hbase]

/-- A place inside the root with a file lies below the root. -/
theorem holds_of_isFile (hfile : d.isFile (.ofPlace dir.root) = .ok false)
    {segments place : List String} (hnormal : FilePath.NormalForm segments place)
    (hinside : dir.root <+: place) (hplace : d.isFile (.ofPlace place) = .ok true) :
    dir.Holds place := by
  rcases hinside with ⟨below, rfl⟩
  refine ⟨below, ?_, fun segment hmem => hnormal.proper segment (List.mem_append_right _ hmem), rfl⟩
  rintro rfl
  rw [List.append_nil, hfile] at hplace
  cases hplace

theorem Holds.isPrefix {place : List String} (h : dir.Holds place) : dir.root <+: place := by
  rcases h with ⟨below, -, -, rfl⟩
  exact List.prefix_append _ _

/-! ## The search -/

/-- How the search ends at a candidate, if it does. -/
def verdict (dir : Directory) (d : Disk) (candidate : String) :
    Option (Except Failure (Option (List String))) :=
  if (dir.pathOf candidate).hasNul then
    some (.error (.noAccess (dir.pathOf candidate).toText .nulInside))
  else if !dir.root.isPrefixOf (dir.placeOf candidate) then some (.ok none)
  else match d.isFile (.ofPlace (dir.placeOf candidate)) with
    | .ok true => some (.ok (some (dir.placeOf candidate)))
    | .ok false => none
    | .error fault => some (.error (.noAccess (FilePath.placeText (dir.placeOf candidate)) fault))

/-- The search ends at the first candidate that it does not pass over. -/
theorem search_eq_findSome? (name : String) (candidates : List String) :
    (dir.search d name candidates).2 = (candidates.findSome? (dir.verdict d)).getD (.ok none) := by
  induction candidates with
  | nil => rfl
  | cons candidate rest ih =>
    rw [search, List.findSome?_cons, verdict]
    split
    · rfl
    dsimp only
    split
    · rfl
    rcases d.isFile (.ofPlace (dir.placeOf candidate)) with fault | _ | _
    · rfl
    · exact ih
    · rfl

section Verdict

variable (hroot : dir.HasProperRoot) {text : String}

include hroot

theorem verdict_eq_none_iff : dir.verdict d text = none ↔ dir.Passes d text := by
  rw [verdict, Passes]
  simp only [names_iff hroot, and_assoc, exists_and_left, exists_eq_left,
    ← hasNul_pathOf hroot text, ← List.isPrefixOf_iff_prefix]
  split
  · next hnul => simp [hnul]
  split
  · next hnul houtside => simp_all
  next hnul hinside =>
  rcases hisFile : d.isFile (.ofPlace (dir.placeOf text)) with fault | _ | _ <;> simp_all

theorem verdict_eq_found_iff (hfile : d.isFile (.ofPlace dir.root) = .ok false)
    {place : List String} :
    dir.verdict d text = some (.ok (some place)) ↔ dir.Hits d text place := by
  -- the code tests the beginning of the place; that the file is inside follows, as the root is no
  -- file
  have hseen : dir.verdict d text = some (.ok (some place)) ↔
      dir.Names text place ∧ dir.root <+: place ∧ d.isFile (.ofPlace place) = .ok true := by
    rw [verdict]
    simp only [names_iff hroot, and_assoc, ← hasNul_pathOf hroot text,
      ← List.isPrefixOf_iff_prefix]
    split
    · next hnul => simp [hnul]
    split
    · next hnul houtside =>
      simp only [Option.some.injEq, Except.ok.injEq, reduceCtorEq, false_iff]
      rintro ⟨-, rfl, hinside, -⟩
      simp [hinside] at houtside
    next hnul hinside =>
    constructor
    · intro h
      split at h
      · next hisFile =>
        cases h
        exact ⟨hnul, rfl, by simpa using hinside, hisFile⟩
      · cases h
      · cases h
    · rintro ⟨-, rfl, -, hisFile⟩
      rw [hisFile]
  rw [hseen]
  constructor
  · rintro ⟨hnames, hinside, hisFile⟩
    have hstands := (Disk.isFile_ofPlace_iff hnames.normalForm.proper).mp hisFile
    exact ⟨hnames, holds_of_isFile hfile hnames.normalForm hinside hisFile, hstands.1, hstands.2⟩
  · rintro ⟨hnames, hholds, hhas, hreaches⟩
    exact ⟨hnames, hholds.isPrefix,
      (Disk.isFile_ofPlace_iff hnames.normalForm.proper).mpr ⟨hhas, hreaches⟩⟩

theorem verdict_eq_noAccess_iff :
    (∃ path fault, dir.verdict d text = some (.error (.noAccess path fault))) ↔
      dir.Stumbles d text := by
  rw [verdict, Stumbles]
  simp only [names_iff hroot, and_assoc, ← hasNul_pathOf hroot text,
    ← List.isPrefixOf_iff_prefix]
  split
  · next hnul => simp [hnul]
  split
  · next hnul houtside =>
    have hnot : ¬ dir.root <+: dir.placeOf text := by
      intro hinside
      rw [List.isPrefixOf_iff_prefix.mpr hinside] at houtside
      cases houtside
    simp [hnul, hnot]
  next hnul hinside =>
  rcases hisFile : d.isFile (.ofPlace (dir.placeOf text)) with fault | _ | _ <;> simp_all

end Verdict

/-- At a candidate the search fails in one way only. -/
theorem verdict_error {text : String} {failure : Failure}
    (h : dir.verdict d text = some (.error failure)) : ∃ path fault, failure = .noAccess path fault := by
  rw [verdict] at h
  split at h
  · cases h
    exact ⟨_, _, rfl⟩
  split at h
  · cases h
  split at h
  · cases h
  · cases h
  · cases h
    exact ⟨_, _, rfl⟩

theorem namesToTry_eq_of_takesSuffix {name : String} (h : dir.TakesSuffix name) :
    dir.namesToTry name = [bareName name, bareName name ++ dir.suffix] := by
  rw [TakesSuffix, bareName, String.toList_ofList, ← List.isSuffixOf_iff_suffix] at h
  exact if_pos h

theorem namesToTry_eq_of_not_takesSuffix {name : String} (h : ¬ dir.TakesSuffix name) :
    dir.namesToTry name = [bareName name] := by
  rw [TakesSuffix, bareName, String.toList_ofList, ← List.isSuffixOf_iff_suffix] at h
  exact if_neg h

/-- The verdict on a name is that on the name, or else that on the name with the suffix. -/
theorem search_eq_some_iff {name : String} {result : Except Failure (Option (List String))}
    (hresult : result ≠ .ok none) :
    (dir.search d name (dir.namesToTry name)).2 = result ↔
      dir.verdict d (bareName name) = some result ∨
        dir.TakesSuffix name ∧ dir.verdict d (bareName name) = none ∧
          dir.verdict d (bareName name ++ dir.suffix) = some result := by
  rw [search_eq_findSome?]
  by_cases hsuffix : dir.TakesSuffix name
  · rw [namesToTry_eq_of_takesSuffix hsuffix]
    cases hfirst : dir.verdict d (bareName name) with
    | some first => simp [hfirst]
    | none =>
      cases hsecond : dir.verdict d (bareName name ++ dir.suffix) with
      | some second => simp [hfirst, hsecond, hsuffix]
      | none => simp [hfirst, hsecond, hresult.symm]
  · rw [namesToTry_eq_of_not_takesSuffix hsuffix]
    cases hfirst : dir.verdict d (bareName name) with
    | some first => simp [hfirst, hsuffix]
    | none => simp [hfirst, hsuffix, hresult.symm]

/-- A place is located if the search ends with it. -/
theorem locate_eq_ok {name : String} {place : List String} :
    (dir.locate d name).2 = .ok place ↔
      (dir.search d name (dir.namesToTry name)).2 = .ok (some place) := by
  rw [locate]
  rcases dir.search d name (dir.namesToTry name) with ⟨notices, failure | _ | found⟩ <;> simp

/-- Locating a name breaks off if the search does. -/
theorem locate_eq_noAccess {name path : String} {fault : AccessFault} :
    (dir.locate d name).2 = .error (.noAccess path fault) ↔
      (dir.search d name (dir.namesToTry name)).2 = .error (.noAccess path fault) := by
  rw [locate]
  rcases dir.search d name (dir.namesToTry name) with ⟨notices, failure | _ | found⟩ <;> simp

/-- What is not located is not there, or its search breaks off. -/
theorem locate_eq_error {name : String} {failure : Failure}
    (h : (dir.locate d name).2 = .error failure) :
    failure = .notFound name (some (FilePath.placeText dir.root)) ∨
      ∃ path fault, failure = .noAccess path fault := by
  rw [locate] at h
  rcases hsearch : dir.search d name (dir.namesToTry name) with ⟨notices, failure' | _ | found⟩
  · rw [hsearch] at h
    cases h
    have hfound := @search_eq_findSome? dir d name (dir.namesToTry name)
    rw [hsearch] at hfound
    rcases hfind : (dir.namesToTry name).findSome? (dir.verdict d) with _ | verdict
    · rw [hfind] at hfound
      cases hfound
    · obtain ⟨candidate, -, hverdict⟩ := List.exists_of_findSome?_eq_some hfind
      rw [hfind, Option.getD_some] at hfound
      exact .inr (verdict_error (hfound ▸ hverdict))
  · rw [hsearch] at h
    cases h
    exact .inl rfl
  · rw [hsearch] at h
    cases h

/-- Names are confined to their directory, and what is in it can be reached, as far as the disk can be
asked. What is found for a name is an existing file below the root, at the place of the name or, if no
file is there, at that of the name with the suffix; and a file below the root is found under every
name that has its place. The search itself fails exactly where it comes to a name that has NUL in it,
or to a place that the system does not tell about. In all other cases there is no template of the
name. -/
theorem locate_eq_ok_iff (hroot : dir.HasProperRoot)
    (hfile : d.isFile (.ofPlace dir.root) = .ok false) (name : String) :
    (∀ place, (dir.locate d name).2 = .ok place ↔ dir.Finds d name place) ∧
    ((∃ path fault, (dir.locate d name).2 = .error (.noAccess path fault)) ↔ dir.Breaks d name) ∧
    (∀ failure, (dir.locate d name).2 = .error failure →
      failure = .notFound name (some (FilePath.placeText dir.root)) ∨
        ∃ path fault, failure = .noAccess path fault) := by
  refine ⟨?_, ?_, ?_⟩
  · intro place
    rw [locate_eq_ok, search_eq_some_iff (by simp), verdict_eq_found_iff hroot hfile,
      verdict_eq_none_iff hroot, verdict_eq_found_iff hroot hfile]
    exact Iff.rfl
  · have hcases : ∀ path fault, (dir.locate d name).2 = .error (.noAccess path fault) ↔
        dir.verdict d (bareName name) = some (.error (.noAccess path fault)) ∨
          dir.TakesSuffix name ∧ dir.verdict d (bareName name) = none ∧
            dir.verdict d (bareName name ++ dir.suffix) = some (.error (.noAccess path fault)) :=
      fun path fault => locate_eq_noAccess.trans (search_eq_some_iff (by simp))
    simp only [hcases, exists_or, exists_and_left, verdict_eq_none_iff hroot,
      verdict_eq_noAccess_iff hroot]
    exact Iff.rfl
  · intro failure h
    exact locate_eq_error h

/-! ## A directory with a page -/

/-- A disk with one page in a directory of views. -/
def viewsDisk : Disk := { here := ["srv"], files := [(["srv", "views", "page.html"], .empty)], folders := [] }

/-- The directory of views, its root given by a path. -/
def viewsDirectory : Directory := ⟨viewsDisk.place (.ofText "../srv//views"), ".html", .utf8⟩

theorem hasProperRoot_viewsDirectory : viewsDirectory.HasProperRoot :=
  hasProperRoot_place (by decide) (by decide) ".html" .utf8

/-- A file that cannot be found under a name of its place: NUL is in a segment of the name that the
next one takes back. -/
theorem locate_nulInside :
    FilePath.NormalForm (viewsDirectory.seen "a\x00b/../page.html") ["srv", "views", "page.html"] ∧
    viewsDirectory.Holds ["srv", "views", "page.html"] ∧
    viewsDisk.isFile (.ofPlace ["srv", "views", "page.html"]) = .ok true ∧
    (viewsDirectory.locate viewsDisk "a\x00b/../page.html").2 =
      .error (.noAccess "/srv/views/a\x00b/../page.html" .nulInside) := by
  refine ⟨(normalForm_seen_iff hasProperRoot_viewsDirectory).mpr (by decide),
    ⟨["page.html"], by decide, by decide, by decide⟩, rfl, rfl⟩

/-- A name that leaves the root and comes back to it. -/
theorem locate_eq_ok_iff_page :
    viewsDirectory.HasProperRoot ∧ viewsDisk.isFile (.ofPlace viewsDirectory.root) = .ok false ∧
    viewsDirectory.Finds viewsDisk "//x/../../views/./page" ["srv", "views", "page.html"] := by
  have hfile : viewsDisk.isFile (.ofPlace viewsDirectory.root) = .ok false := rfl
  refine ⟨hasProperRoot_viewsDirectory, hfile, ?_⟩
  exact ((locate_eq_ok_iff hasProperRoot_viewsDirectory hfile _).1 _).mp (by rfl)

end Directory

end Curly
