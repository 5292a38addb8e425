import Curly.Config
import Curly.Proofs.Sorted

/-!
# Which configuration files are accepted

A mapping is accepted as a configuration exactly if it has known keys only, with values of the types
they want (`Config.IsSettings`); a file exactly if it holds such a mapping, or a value that counts as
false, which passes for an empty one. Of whatever else is in a file its author is told in terms of
the configuration what is wrong with it, except for a key that is no text, and for a level of which the
value cannot be written as a text (`Config.ofContents_accepts_iff`).

A mapping is read key by key. The keys come first, all of them together: each that is unknown counts,
in whatever order they are sorted (`Config.checkKeys_cases`). Then each setting can only fail of the
value that is given for it (`Config.Setting.exists_of_iff`).
-/

namespace Curly

/-! ## Steps that may fail -/

section Steps

variable {ε ε' α β : Type} {x : Except ε α} {f : α → Except ε β} {g : ε → ε'}

theorem bind_eq_ok_iff {b : β} : (x >>= f) = .ok b ↔ ∃ a, x = .ok a ∧ f a = .ok b := by
  cases x <;> simp [bind, Except.bind]

theorem bind_eq_error_iff {failure : ε} :
    (x >>= f) = .error failure ↔ x = .error failure ∨ ∃ a, x = .ok a ∧ f a = .error failure := by
  cases x <;> simp [bind, Except.bind]

theorem mapError_eq_error_iff {failure : ε'} :
    x.mapError g = .error failure ↔ ∃ failure', x = .error failure' ∧ g failure' = failure := by
  cases x <;> simp [Except.mapError]

end Steps

namespace Config

/-! ## Unknown keys -/

theorem text?_eq_none_iff {k : Key} : text? k = none ↔ ∀ name, k ≠ .str name := by
  cases k with
  | str name => exact ⟨fun h => (nomatch h), fun h => (h name rfl).elim⟩
  | _ => exact ⟨fun _ _ h => (nomatch h), fun _ => rfl⟩

/-- No two keys are one of which one is a text and the other is none. -/
theorem text?_eq_none_of_equal {k l : Key} (h : k.equal l) (hk : text? k = none) : text? l = none := by
  cases l with
  | str s =>
    cases k with
    | str t => cases hk
    | _ => simp [Key.equal, Key.whole?] at h
  | _ => rfl

theorem distinctKeys_subset (keys : List Key) : distinctKeys keys ⊆ keys := by
  have hseen : ∀ (rest seen : List Key),
      rest.foldl (fun seen k => if seen.any k.equal then seen else k :: seen) seen ⊆ seen ++ rest := by
    intro rest
    induction rest with
    | nil =>
      intro seen k hk
      exact List.mem_append_left _ hk
    | cons l rest ih =>
      intro seen k hk
      rw [List.foldl_cons] at hk
      have hk' := ih _ hk
      split at hk'
      · rcases List.mem_append.mp hk' with hk' | hk'
        · exact List.mem_append_left _ hk'
        · exact List.mem_append_right _ (List.mem_cons_of_mem l hk')
      · exact List.perm_middle.symm.subset hk'
  intro k hk
  exact hseen keys [] (List.mem_reverse.mp hk)

/-- Of each key there is one that is it, or the same key. -/
theorem exists_mem_distinctKeys {keys : List Key} {k : Key} (hk : k ∈ keys) :
    ∃ l ∈ distinctKeys keys, l = k ∨ k.equal l := by
  have hseen : ∀ (rest seen : List Key), (k ∈ rest ∨ ∃ l ∈ seen, l = k ∨ k.equal l) →
      ∃ l ∈ rest.foldl (fun seen k => if seen.any k.equal then seen else k :: seen) seen,
        l = k ∨ k.equal l := by
    intro rest
    induction rest with
    | nil =>
      rintro seen (h | h)
      · cases h
      · exact h
    | cons head rest ih =>
      rintro seen h
      rw [List.foldl_cons]
      apply ih
      rcases h with h | ⟨l, hl, hkl⟩
      · rcases List.mem_cons.mp h with rfl | h
        · -- a key that is seen for the first time is kept
          right
          split
          · next hany =>
            rcases List.any_eq_true.mp hany with ⟨l, hl, hkl⟩
            exact ⟨l, hl, .inr hkl⟩
          · exact ⟨k, List.mem_cons_self, .inl rfl⟩
        · exact .inl h
      · right
        split
        · exact ⟨l, hl, hkl⟩
        · exact ⟨l, List.mem_cons_of_mem _ hl, hkl⟩
  rcases hseen keys [] (.inl hk) with ⟨l, hl, hkl⟩
  exact ⟨l, List.mem_reverse.mpr hl, hkl⟩

/-- Keys that are texts are in order. -/
theorem exists_text?_eq_none_of_less {k l : Key} {fault : OrderFault} (h : k.less l = .error fault) :
    text? k = none ∨ text? l = none := by
  cases k with
  | str s =>
    cases l with
    | str t =>
      rw [Key.less] at h
      cases h
    | _ => exact .inr rfl
  | _ => exact .inl rfl

/-- Keys that no configuration has are a fault. It is one in terms of the configuration if all of
them are texts. -/
theorem unknownFault?_cases (unknown : List Key) :
    (unknown = [] ∧ unknownFault? unknown = none) ∨
      ∃ fault, unknown ≠ [] ∧ unknownFault? unknown = some fault ∧
        (fault.isExpected = false ↔ ∃ k ∈ unknown, text? k = none) := by
  rw [unknownFault?]
  rcases sortByKey_cases (unknown.map (·, ())) with
    ⟨sorted, hsorted, hperm⟩ | ⟨fault, hfault, e, he, e', he', hless⟩
  · rw [hsorted]
    dsimp only
    -- sorting only changes the order of the keys
    have hkeys : (sorted.map Prod.fst).Perm unknown := by
      have hmap := hperm.map Prod.fst
      rwa [List.map_map, show Prod.fst ∘ (fun k : Key => (k, ())) = id from rfl, List.map_id] at hmap
    generalize sorted.map Prod.fst = keys at hkeys
    split
    · next k hfind =>
      have hk : k ∈ unknown := hkeys.subset (List.mem_of_find?_eq_some hfind)
      have hnone : text? k = none := by
        simpa using List.find?_some hfind
      exact .inr ⟨_, List.ne_nil_of_mem hk, rfl, fun _ => ⟨k, hk, hnone⟩, fun _ => rfl⟩
    · next hfind =>
      have hall : ∀ k ∈ unknown, text? k ≠ none := by
        intro k hk
        have := List.find?_eq_none.mp hfind k (hkeys.symm.subset hk)
        simpa using this
      split
      · next hempty =>
        rw [List.isEmpty_iff.mp hempty] at hkeys
        exact .inl ⟨hkeys.symm.eq_nil, rfl⟩
      · next hempty =>
        refine .inr ⟨_, ?_, rfl, fun h => (nomatch h), ?_⟩
        · rintro rfl
          exact hempty (List.isEmpty_iff.mpr hkeys.eq_nil)
        · rintro ⟨k, hk, hnone⟩
          exact (hall k hk hnone).elim
  · rw [hfault]
    -- keys that cannot be compared are not both texts
    rcases List.mem_map.mp he with ⟨k, hk, rfl⟩
    rcases List.mem_map.mp he' with ⟨l, hl, rfl⟩
    refine .inr ⟨_, List.ne_nil_of_mem hk, rfl, fun _ => ?_, fun _ => rfl⟩
    rcases exists_text?_eq_none_of_less hless with hnone | hnone
    · exact ⟨k, hk, hnone⟩
    · exact ⟨l, hl, hnone⟩

/-- Known keys pass, and of others the author is told, unless one of them is no text. -/
theorem checkKeys_cases (keys : List Key) :
    ((∀ k ∈ keys, isKnown k) ∧ checkKeys keys = .ok ()) ∨
      ∃ fault, (∃ k ∈ keys, isKnown k = false) ∧ checkKeys keys = .error fault ∧
        (fault.isExpected = false ↔ ∃ k ∈ keys, text? k = none) := by
  rw [checkKeys]
  have hsubset := distinctKeys_subset (keys.filter fun k => !isKnown k)
  rcases unknownFault?_cases (distinctKeys (keys.filter fun k => !isKnown k)) with
    ⟨hnil, hnone⟩ | ⟨fault, hne, hsome, hexpected⟩
  · left
    rw [hnone]
    refine ⟨fun k hk => ?_, rfl⟩
    by_contra hunknown
    have hmem : k ∈ keys.filter fun k => !isKnown k := List.mem_filter.mpr ⟨hk, by simpa using hunknown⟩
    rcases exists_mem_distinctKeys hmem with ⟨l, hl, -⟩
    rw [hnil] at hl
    cases hl
  · right
    rw [hsome]
    rcases List.exists_mem_of_ne_nil _ hne with ⟨k, hk⟩
    have hk' := List.mem_filter.mp (hsubset hk)
    refine ⟨fault, ⟨k, hk'.1, by simpa using hk'.2⟩, rfl, hexpected.trans ⟨?_, ?_⟩⟩
    · rintro ⟨l, hl, hnone⟩
      exact ⟨l, (List.mem_filter.mp (hsubset hl)).1, hnone⟩
    · rintro ⟨l, hl, hnone⟩
      -- a key that is no text is unknown, and the keys that are dropped for it are none either
      have hmem : l ∈ keys.filter fun k => !isKnown k := by
        refine List.mem_filter.mpr ⟨hl, ?_⟩
        cases l with
        | str name => cases hnone
        | _ => rfl
      rcases exists_mem_distinctKeys hmem with ⟨l', hl', rfl | hequal⟩
      · exact ⟨l', hl', hnone⟩
      · exact ⟨l', hl', text?_eq_none_of_equal hequal hnone⟩

/-! ## Settings -/

namespace Setting

variable {α : Type}

/-- A setting that is not given has its default, so only a given value can be at fault. -/
theorem exists_of_iff (s : Setting α) (entries : Entries) :
    (∃ a, s.of entries = .ok a) ↔
      ∀ v, entries.get? s.name = some v → ∃ a, s.read? v = .ok (some a) := by
  rw [of]
  cases entries.get? s.name with
  | none =>
    rw [Option.getD_none]
    rcases s.reads with ⟨a, ha⟩
    rw [ha]
    exact ⟨fun _ v hv => (nomatch hv), fun _ => ⟨a, rfl⟩⟩
  | some v =>
    rw [Option.getD_some]
    rcases hread : s.read? v with fault | _ | a
    · refine iff_of_false (fun h => nomatch h.choose_spec) fun h => ?_
      obtain ⟨a, ha⟩ := h v rfl
      rw [hread] at ha
      cases ha
    · refine iff_of_false (fun h => nomatch h.choose_spec) fun h => ?_
      obtain ⟨a, ha⟩ := h v rfl
      rw [hread] at ha
      cases ha
    · refine iff_of_true ⟨a, rfl⟩ fun w hw => ⟨a, ?_⟩
      cases hw
      exact hread

theorem exists_read?_of_of {s : Setting α} {entries : Entries} {a : α} (h : s.of entries = .ok a) :
    ∃ v, s.read? v = .ok (some a) := by
  rw [of] at h
  split at h
  · next b hread =>
    cases h
    exact ⟨_, hread⟩
  · cases h
  · cases h

/-- Of a given value that is read as nothing the author is told; a value may also not be readable at
all. -/
theorem of_eq_error {s : Setting α} {entries : Entries} {fault : ConfigFault}
    (h : s.of entries = .error fault) : fault.isExpected ∨
      ∃ v fault', entries.get? s.name = some v ∧ s.read? v = .error fault' ∧
        fault = .noText fault' := by
  rw [of] at h
  split at h
  · cases h
  · cases h
    exact .inl s.told.1
  · next fault' hread =>
    cases h
    rcases hget : entries.get? s.name with _ | v
    · rw [hget, Option.getD_none] at hread
      rcases s.reads with ⟨a, ha⟩
      rw [hread] at ha
      cases ha
    · rw [hget, Option.getD_some] at hread
      exact .inr ⟨v, fault', rfl, hread, rfl⟩

/-- Of a value of a setting that is always read as something or nothing the author is told. -/
theorem isExpected_of_of {s : Setting α} (hread : ∀ v fault, s.read? v ≠ .error fault)
    {entries : Entries} {fault : ConfigFault} (h : s.of entries = .error fault) :
    fault.isExpected := by
  rcases s.of_eq_error h with hexpected | ⟨v, fault', -, hfault, -⟩
  · exact hexpected
  · exact (hread v fault' hfault).elim

end Setting

theorem textOf?_iff {v : Value} : (∃ s, textOf? v = .ok (some s)) ↔ ∃ s, v = .str s := by
  cases v <;> simp [textOf?]

theorem textOf?_ne_error (v : Value) (fault : NumeralFault) : textOf? v ≠ .error fault := by
  cases v <;> exact nofun

theorem depthOf?_eq_some_iff {v : Value} {n : Int} :
    depthOf? v = .ok (some n) ↔ v = .int n ∧ 1 ≤ n := by
  cases v with
  | int m =>
    rw [depthOf?, Except.ok.injEq, Value.int.injEq]
    split
    · next hm =>
      rw [Option.some.injEq]
      exact ⟨fun h => ⟨h, h ▸ hm⟩, And.left⟩
    · next hm => exact iff_of_false (fun h => nomatch h) fun h => hm (h.1 ▸ h.2)
  | _ => simp [depthOf?]

theorem depthOf?_ne_error (v : Value) (fault : NumeralFault) : depthOf? v ≠ .error fault := by
  cases v <;> exact nofun

theorem switchOf?_iff {v : Value} : (∃ b, switchOf? v = .ok (some b)) ↔ ∃ b, v = .bool b := by
  cases v <;> simp [switchOf?]

theorem switchOf?_ne_error (v : Value) (fault : NumeralFault) : switchOf? v ≠ .error fault := by
  cases v <;> exact nofun

/-- A value names a level by its text. -/
theorem levelOf?_iff {v : Value} :
    (∃ level, levelOf? v = .ok (some level)) ↔
      ∃ text, v.plain = .ok text ∧ ∃ level : Level, text.toList.map capital = level.name.toList := by
  rw [levelOf?]
  rcases v.plain with fault | text
  · exact iff_of_false (fun h => nomatch h.choose_spec) fun h => nomatch h.choose_spec.1
  · have hread : ∀ found : Option Level, (∃ level, Except.ok (ε := NumeralFault) found =
        .ok (some level)) ↔ found.isSome := by simp [Option.isSome_iff_exists]
    refine (hread _).trans ?_
    simp only [Except.ok.injEq, exists_eq_left']
    rw [Level.ofName?, List.find?_isSome]
    constructor
    · rintro ⟨level, -, hname⟩
      refine ⟨level, ?_⟩
      rw [eq_of_beq hname, String.toList_ofList]
    · rintro ⟨level, hname⟩
      refine ⟨level, ?_, ?_⟩
      · cases level <;> decide
      · rw [hname, String.ofList_toList]
        exact beq_self_eq_true _

theorem levelOf?_eq_error_iff {v : Value} {fault : NumeralFault} :
    levelOf? v = .error fault ↔ v.plain = .error fault := by
  rw [levelOf?]
  rcases v.plain with fault' | text
  · show (Except.error fault' : Except NumeralFault (Option Level)) = .error fault ↔ _
    rw [Except.error.injEq, Except.error.injEq]
  · exact iff_of_false (fun h => nomatch h) fun h => nomatch h

/-! ## Mappings -/

/-- The mapping of a configuration but for its level: its keys are among the five known ones, and the
values of the other four have the types that they want. -/
structure IsSettingsUpToLevel (entries : Entries) : Prop where
  known : ∀ k ∈ entries.map Prod.fst, ∃ name ∈ ["templates_dir", "default_suffix",
    "max_include_depth", "trim_blank_runs", "log_level"], k = .str name
  directory : ∀ v, entries.get? "templates_dir" = some v → ∃ s, v = .str s
  suffix : ∀ v, entries.get? "default_suffix" = some v → ∃ s, v = .str s
  maxDepth : ∀ v, entries.get? "max_include_depth" = some v → ∃ n, v = .int n ∧ 1 ≤ n
  dropGaps : ∀ v, entries.get? "trim_blank_runs" = some v → ∃ b, v = .bool b

/-- The mapping of a configuration: its level, too, is one of those there are, by its text. -/
structure IsSettings (entries : Entries) : Prop extends IsSettingsUpToLevel entries where
  logLevel : ∀ v, entries.get? "log_level" = some v →
    ∃ text, v.plain = .ok text ∧ ∃ level : Level, text.toList.map capital = level.name.toList

theorem isKnown_iff {k : Key} : isKnown k ↔ ∃ name ∈ knownKeys, k = .str name := by
  cases k with
  | str name => simp [isKnown]
  | _ => simp [isKnown]

/-- The steps of reading a mapping. -/
theorem ofEntries_eq_ok_iff {entries : Entries} {base : Option FilePath} {c : Config} :
    ofEntries entries base = .ok c ↔ checkKeys (entries.map Prod.fst) = .ok () ∧
      ∃ path, Setting.directory.of entries = .ok path ∧
      ∃ suffix, Setting.suffix.of entries = .ok suffix ∧
      ∃ maxDepth, Setting.maxDepth.of entries = .ok maxDepth ∧
      ∃ dropGaps, Setting.dropGaps.of entries = .ok dropGaps ∧
      ∃ logLevel, Setting.logLevel.of entries = .ok logLevel ∧
        ⟨(base.map (·.join (.ofText path))).getD (.ofText path), suffix,
          ⟨dropGaps, maxDepth⟩, logLevel⟩ = c := by
  have hpure : ∀ a : Config, (pure a : Except ConfigFault Config) = .ok c ↔ a = c :=
    fun a => Except.ok.injEq a c ▸ Iff.rfl
  simp only [ofEntries, bind_eq_ok_iff, hpure]
  exact ⟨fun ⟨_, h⟩ => h, fun h => ⟨(), h⟩⟩

/-- What is looked at before the level passes exactly if it is that of a configuration. -/
theorem isSettingsUpToLevel_iff {entries : Entries} :
    IsSettingsUpToLevel entries ↔ checkKeys (entries.map Prod.fst) = .ok () ∧
      (∃ path, Setting.directory.of entries = .ok path) ∧
      (∃ suffix, Setting.suffix.of entries = .ok suffix) ∧
      (∃ maxDepth, Setting.maxDepth.of entries = .ok maxDepth) ∧
      ∃ dropGaps, Setting.dropGaps.of entries = .ok dropGaps := by
  have hkeys : checkKeys (entries.map Prod.fst) = .ok () ↔
      ∀ k ∈ entries.map Prod.fst, isKnown k := by
    rcases checkKeys_cases (entries.map Prod.fst) with
      ⟨hknown, hok⟩ | ⟨fault, ⟨k, hk, hunknown⟩, herror, -⟩
    · exact iff_of_true hok hknown
    · refine iff_of_false (fun hok => nomatch herror.symm.trans hok) fun hknown => ?_
      exact Bool.false_ne_true (hunknown.symm.trans (hknown k hk))
  -- each key is a case of one lemma; what differs is which values it reads
  rw [hkeys, Setting.exists_of_iff, Setting.exists_of_iff, Setting.exists_of_iff,
    Setting.exists_of_iff]
  constructor
  · intro h
    refine ⟨fun k hk => isKnown_iff.mpr (h.known k hk), ?_, ?_, ?_, ?_⟩
    · exact fun v hv => textOf?_iff.mpr (h.directory v hv)
    · exact fun v hv => textOf?_iff.mpr (h.suffix v hv)
    · exact fun v hv => (h.maxDepth v hv).imp fun n hn => depthOf?_eq_some_iff.mpr hn
    · exact fun v hv => switchOf?_iff.mpr (h.dropGaps v hv)
  · rintro ⟨hknown, hdirectory, hsuffix, hdepth, hgaps⟩
    constructor
    · exact fun k hk => isKnown_iff.mp (hknown k hk)
    · exact fun v hv => textOf?_iff.mp (hdirectory v hv)
    · exact fun v hv => textOf?_iff.mp (hsuffix v hv)
    · exact fun v hv => (hdepth v hv).imp fun n hn => depthOf?_eq_some_iff.mp hn
    · exact fun v hv => switchOf?_iff.mp (hgaps v hv)

/-- Then the level decides. -/
theorem ofEntries_of_upToLevel {entries : Entries} (h : IsSettingsUpToLevel entries)
    (base : Option FilePath) :
    ∃ withLevel : Level → Config,
      ofEntries entries base = (Setting.logLevel.of entries).map withLevel := by
  obtain ⟨hkeys, ⟨path, hpath⟩, ⟨suffix, hsuffix⟩, ⟨maxDepth, hdepth⟩, dropGaps, hgaps⟩ :=
    isSettingsUpToLevel_iff.mp h
  refine ⟨fun logLevel => ⟨(base.map (·.join (.ofText path))).getD (.ofText path), suffix,
    ⟨dropGaps, maxDepth⟩, logLevel⟩, ?_⟩
  rw [ofEntries, hkeys, hpath, hsuffix, hdepth, hgaps]
  cases Setting.logLevel.of entries with
  | error fault => rfl
  | ok level => rfl

/-- A mapping is accepted exactly if it is one of a configuration. -/
theorem exists_ofEntries_iff {entries : Entries} {base : Option FilePath} :
    (∃ c, ofEntries entries base = .ok c) ↔ IsSettings entries := by
  have hlevel : (∃ level, Setting.logLevel.of entries = .ok level) ↔
      ∀ v, entries.get? "log_level" = some v → ∃ level, levelOf? v = .ok (some level) :=
    Setting.logLevel.exists_of_iff entries
  simp only [levelOf?_iff] at hlevel
  constructor
  · rintro ⟨c, hc⟩
    rcases ofEntries_eq_ok_iff.mp hc with ⟨hkeys, path, hpath, suffix, hsuffix, maxDepth, hdepth,
      dropGaps, hgaps, logLevel, hread, -⟩
    exact ⟨isSettingsUpToLevel_iff.mpr ⟨hkeys, ⟨path, hpath⟩, ⟨suffix, hsuffix⟩, ⟨maxDepth, hdepth⟩,
      dropGaps, hgaps⟩, hlevel.mp ⟨logLevel, hread⟩⟩
  · intro h
    obtain ⟨withLevel, hall⟩ := ofEntries_of_upToLevel h.toIsSettingsUpToLevel base
    obtain ⟨level, hread⟩ := hlevel.mpr h.logLevel
    exact ⟨withLevel level, by rw [hall, hread]; rfl⟩

/-- The depth of a configuration is positive. -/
theorem one_le_maxDepth {entries : Entries} {base : Option FilePath} {c : Config}
    (h : ofEntries entries base = .ok c) : 1 ≤ c.settings.maxDepth := by
  rcases ofEntries_eq_ok_iff.mp h with ⟨-, -, -, -, -, maxDepth, hdepth, -, -, -, -, rfl⟩
  rcases Setting.exists_read?_of_of hdepth with ⟨v, hread⟩
  exact (depthOf?_eq_some_iff.mp hread).2

/-- Past the keys only a setting can be at fault, and of that the author is told, unless the value of
the level cannot be written as a text. -/
theorem ofEntries_unexpected {entries : Entries} {base : Option FilePath} {fault : ConfigFault}
    (hkeys : checkKeys (entries.map Prod.fst) = .ok ()) (h : ofEntries entries base = .error fault)
    (hunexpected : fault.isExpected = false) :
    IsSettingsUpToLevel entries ∧
      ∃ v fault', entries.get? "log_level" = some v ∧ v.plain = .error fault' := by
  have hnot : ¬ fault.isExpected = true := by
    rw [hunexpected]
    exact Bool.false_ne_true
  simp only [ofEntries, bind_eq_error_iff, hkeys] at h
  -- the settings are read in order, and only the level is written as a text
  rcases h with h | ⟨_, -, h | ⟨path, hpath, h | ⟨suffix, hsuffix, h | ⟨depth, hdepth,
    h | ⟨gaps, hgaps, h | ⟨_, -, h⟩⟩⟩⟩⟩⟩
  · cases h
  · exact (hnot (Setting.isExpected_of_of textOf?_ne_error h)).elim
  · exact (hnot (Setting.isExpected_of_of textOf?_ne_error h)).elim
  · exact (hnot (Setting.isExpected_of_of depthOf?_ne_error h)).elim
  · exact (hnot (Setting.isExpected_of_of switchOf?_ne_error h)).elim
  · rcases Setting.of_eq_error h with hexpected | ⟨v, fault', hget, hread, -⟩
    · exact (hnot hexpected).elim
    · exact ⟨isSettingsUpToLevel_iff.mpr ⟨hkeys, ⟨path, hpath⟩, ⟨suffix, hsuffix⟩, ⟨depth, hdepth⟩,
        gaps, hgaps⟩, v, fault', hget, levelOf?_eq_error_iff.mp hread⟩
  · cases h

/-- A mapping that is refused without its author being told why: a key is no text, or all is well up
to the level, of which the value cannot be written as a text. -/
inductive IsUntold (entries : Entries) : Prop where
  | key {k : Key} {v : Value} : (k, v) ∈ entries → (∀ name, k ≠ .str name) → IsUntold entries
  | level {v : Value} {fault : NumeralFault} : IsSettingsUpToLevel entries →
      entries.get? "log_level" = some v → v.plain = .error fault → IsUntold entries

/-- The author is told why a mapping is refused, with these exceptions. -/
theorem exists_ofEntries_unexpected_iff {entries : Entries} {base : Option FilePath} :
    (∃ fault, ofEntries entries base = .error fault ∧ fault.isExpected = false) ↔
      IsUntold entries := by
  have hkeys : (∃ k ∈ entries.map Prod.fst, text? k = none) ↔
      ∃ k v, (k, v) ∈ entries ∧ ∀ name, k ≠ .str name := by
    simp only [List.mem_map, text?_eq_none_iff]
    constructor
    · rintro ⟨_, ⟨⟨k, v⟩, hmem, rfl⟩, hk⟩
      exact ⟨k, v, hmem, hk⟩
    · rintro ⟨k, v, hmem, hk⟩
      exact ⟨k, ⟨(k, v), hmem, rfl⟩, hk⟩
  rcases checkKeys_cases (entries.map Prod.fst) with ⟨hknown, hok⟩ | ⟨fault, ⟨k, hk, hunknown⟩, herror,
    hexpected⟩
  · constructor
    · rintro ⟨fault, hfault, hunexpected⟩
      obtain ⟨hsettings, v, fault', hget, hplain⟩ := ofEntries_unexpected hok hfault hunexpected
      exact .level hsettings hget hplain
    · rintro (⟨hmem, hkey⟩ | @⟨v, fault, hsettings, hget, hplain⟩)
      · -- a key that is no text is unknown
        obtain ⟨k, hk, hnone⟩ := hkeys.mpr ⟨_, _, hmem, hkey⟩
        rcases isKnown_iff.mp (hknown k hk) with ⟨name, -, rfl⟩
        cases hnone
      · obtain ⟨withLevel, hall⟩ := ofEntries_of_upToLevel hsettings base
        have hlevel : Setting.logLevel.of entries = .error (.noText fault) := by
          have hget' : entries.get? Setting.logLevel.name = some v := hget
          have hread : Setting.logLevel.read? v = .error fault := levelOf?_eq_error_iff.mpr hplain
          rw [Setting.of, hget', Option.getD_some, hread]
        exact ⟨.noText fault, by rw [hall, hlevel]; rfl, rfl⟩
  · have hall : ofEntries entries base = .error fault := by
      rw [ofEntries, herror]
      rfl
    constructor
    · rintro ⟨fault', hfault', hunexpected⟩
      rw [hall] at hfault'
      cases hfault'
      obtain ⟨k, v, hmem, hkey⟩ := hkeys.mp (hexpected.mp hunexpected)
      exact .key hmem hkey
    · rintro (⟨hmem, hkey⟩ | ⟨hsettings, -, -⟩)
      · exact ⟨fault, hall, hexpected.mpr (hkeys.mpr ⟨_, _, hmem, hkey⟩)⟩
      · rw [isKnown_iff.mpr (hsettings.known k hk)] at hunknown
        cases hunknown

/-! ## Files -/

variable {path : FilePath} {contents : Except String ByteArray} {parse : Yaml.Reader}

theorem isExpected_of_textIn {fault : ConfigFault} (h : textIn path contents = .error fault) :
    fault.isExpected := by
  rw [textIn.eq_def] at h
  split at h
  · cases h
    rfl
  · split at h
    · cases h
      rfl
    · cases h

theorem mappingOf_of_not_dict {v : Value} (h : ∀ entries, v ≠ .dict entries) :
    mappingOf path (.ok v) =
      if v.asBool then .error (.notMapping path.toText) else .ok [] := by
  cases v with
  | dict entries => exact (h entries rfl).elim
  | _ => rfl

theorem mappingIn_of_text {text : String} (h : textIn path contents = .ok text) :
    mappingIn path contents parse = mappingOf path (parse text) := by
  rw [mappingIn, h]
  rfl

theorem ofContents_of_error {fault : ConfigFault} (h : textIn path contents = .error fault) :
    ofContents path contents parse = .error fault := by
  rw [ofContents, mappingIn, h]
  rfl

theorem ofContents_of_text {text : String} (h : textIn path contents = .ok text) :
    ofContents path contents parse = (do
      ofEntries (← mappingOf path (parse text)) (some path.parent)) := by
  rw [ofContents, mappingIn_of_text h]

theorem IsSettings.nil : IsSettings [] where
  known _ hk := nomatch hk
  directory _ hv := nomatch hv
  suffix _ hv := nomatch hv
  maxDepth _ hv := nomatch hv
  dropGaps _ hv := nomatch hv
  logLevel _ hv := nomatch hv

/-- What a value holds that a file is read as. -/
theorem ofContents_of_value {text : String} {v : Value} (htext : textIn path contents = .ok text)
    (hv : parse text = .ok v) :
    (∃ entries, v = .dict entries ∧
      ofContents path contents parse = ofEntries entries (some path.parent)) ∨
    ((∀ entries, v ≠ .dict entries) ∧ v.asBool = true ∧
      ofContents path contents parse = .error (.notMapping path.toText)) ∨
    ((∀ entries, v ≠ .dict entries) ∧ v.asBool = false ∧
      ofContents path contents parse = ofEntries [] (some path.parent)) := by
  rw [ofContents_of_text htext, hv]
  by_cases hdict : ∃ entries, v = .dict entries
  · rcases hdict with ⟨entries, rfl⟩
    exact .inl ⟨entries, rfl, rfl⟩
  · have hnot : ∀ entries, v ≠ .dict entries := fun entries h => hdict ⟨entries, h⟩
    rw [mappingOf_of_not_dict hnot]
    cases v.asBool with
    | true => exact .inr (.inl ⟨hnot, rfl, rfl⟩)
    | false => exact .inr (.inr ⟨hnot, rfl, rfl⟩)

/-- What is said of a text that the reader refuses. -/
theorem ofContents_of_refused {text : String} {fault : Yaml.Fault}
    (htext : textIn path contents = .ok text) (hfault : parse text = .error fault) :
    ∃ fault', ofContents path contents parse = .error fault' ∧
      (fault = .malformed → fault'.isExpected) := by
  rw [ofContents_of_text htext, hfault]
  cases fault with
  | malformed => exact ⟨_, rfl, fun _ => rfl⟩
  | _ => exact ⟨_, rfl, fun h => (nomatch h)⟩

/-- The values that a file may hold for it to be accepted. -/
theorem exists_ofContents_iff :
    (∃ c, ofContents path contents parse = .ok c) ↔
      ∃ text v, textIn path contents = .ok text ∧ parse text = .ok v ∧
        (v.asBool = false ∨ ∃ entries, v = .dict entries ∧ IsSettings entries) := by
  constructor
  · rintro ⟨c, hc⟩
    cases htext : textIn path contents with
    | error fault =>
      rw [ofContents_of_error htext] at hc
      cases hc
    | ok text =>
      cases hv : parse text with
      | error fault =>
        rcases ofContents_of_refused htext hv with ⟨fault', hfault', -⟩
        rw [hfault'] at hc
        cases hc
      | ok v =>
        refine ⟨text, v, rfl, hv, ?_⟩
        rcases ofContents_of_value htext hv with
          ⟨entries, rfl, heq⟩ | ⟨-, -, heq⟩ | ⟨-, hfalse, -⟩
        · rw [heq] at hc
          exact .inr ⟨entries, rfl, exists_ofEntries_iff.mp ⟨c, hc⟩⟩
        · rw [heq] at hc
          cases hc
        · exact .inl hfalse
  · rintro ⟨text, v, htext, hv, haccepted⟩
    rcases ofContents_of_value htext hv with
      ⟨entries, rfl, heq⟩ | ⟨hnot, htrue, -⟩ | ⟨-, -, heq⟩
    · rw [heq]
      rcases haccepted with hfalse | ⟨entries', hdict, hsettings⟩
      · -- a mapping counts as false if it is empty
        cases entries with
        | nil => exact exists_ofEntries_iff.mpr .nil
        | cons entry rest => cases hfalse
      · cases hdict
        exact exists_ofEntries_iff.mpr hsettings
    · rcases haccepted with hfalse | ⟨entries, hdict, -⟩
      · rw [htrue] at hfalse
        cases hfalse
      · exact (hnot entries hdict).elim
    · rw [heq]
      exact exists_ofEntries_iff.mpr .nil

/-- The files that are refused and of which the author is not told why. -/
theorem exists_ofContents_unexpected_iff
    (hparse : ∀ text fault, textIn path contents = .ok text → parse text = .error fault →
      fault = .malformed) :
    (∃ fault, ofContents path contents parse = .error fault ∧ fault.isExpected = false) ↔
      ∃ text entries, textIn path contents = .ok text ∧ parse text = .ok (.dict entries) ∧
        IsUntold entries := by
  constructor
  · rintro ⟨fault, hfault, hunexpected⟩
    cases htext : textIn path contents with
    | error fault' =>
      rw [ofContents_of_error htext] at hfault
      cases hfault
      rw [isExpected_of_textIn htext] at hunexpected
      cases hunexpected
    | ok text =>
      cases hv : parse text with
      | error refusal =>
        rcases ofContents_of_refused htext hv with ⟨fault', hfault', hexpected⟩
        rw [hfault'] at hfault
        cases hfault
        rw [hexpected (hparse text refusal htext hv)] at hunexpected
        cases hunexpected
      | ok v =>
        rcases ofContents_of_value htext hv with
          ⟨entries, rfl, heq⟩ | ⟨-, -, heq⟩ | ⟨-, -, heq⟩
        · rw [heq] at hfault
          exact ⟨text, entries, rfl, hv,
            exists_ofEntries_unexpected_iff.mp ⟨fault, hfault, hunexpected⟩⟩
        · rw [heq] at hfault
          cases hfault
          cases hunexpected
        · rw [heq] at hfault
          -- the empty mapping has neither keys nor a level
          rcases exists_ofEntries_unexpected_iff.mp ⟨fault, hfault, hunexpected⟩ with
            ⟨hmem, -⟩ | ⟨-, hget, -⟩
          · cases hmem
          · cases hget
  · rintro ⟨text, entries, htext, hv, huntold⟩
    rcases ofContents_of_value htext hv with ⟨_, hdict, heq⟩ | ⟨hnot, -⟩ | ⟨hnot, -⟩
    · cases hdict
      rw [heq]
      exact exists_ofEntries_unexpected_iff.mpr huntold
    · exact (hnot entries rfl).elim
    · exact (hnot entries rfl).elim

/-- A file is accepted exactly if it holds a value that counts as false or the mapping of a
configuration, which has a positive depth and one of the levels there are. If the reader refuses a
text in one way only, its author is told why a file is refused, unless a key in it is no text, or its
level, all else being well, cannot be written as a text. The contents are those of a path that leads
somewhere, or the reason why they cannot be read. -/
theorem ofContents_accepts_iff
    (hparse : ∀ text fault, textIn path contents = .ok text → parse text = .error fault →
      fault = .malformed) :
    (∀ d : Disk, d.leads path = .ok true →
      ofFile d path parse = ofContents path (d.contents path) parse) ∧
    (∀ c, ofContents path contents parse = .ok c →
      1 ≤ c.settings.maxDepth ∧ c.logLevel ∈ Level.all) ∧
    ((∃ c, ofContents path contents parse = .ok c) ↔
      ∃ text v, textIn path contents = .ok text ∧ parse text = .ok v ∧
        (v.asBool = false ∨ ∃ entries, v = .dict entries ∧ IsSettings entries)) ∧
    ((∃ fault, ofContents path contents parse = .error fault ∧ fault.isExpected = false) ↔
      ∃ text entries, textIn path contents = .ok text ∧ parse text = .ok (.dict entries) ∧
        IsUntold entries) := by
  refine ⟨fun d hd => by rw [ofFile, hd], ?_, exists_ofContents_iff,
    exists_ofContents_unexpected_iff hparse⟩
  intro c hc
  rw [ofContents, bind_eq_ok_iff] at hc
  rcases hc with ⟨entries, -, hc⟩
  exact ⟨one_le_maxDepth hc, by cases c.logLevel <;> decide⟩

/-- A file that sets a level is a case. -/
theorem ofContents_accepts_iff_level :
    (∀ text fault, textIn (.ofText "c.yaml") (.ok "log_level: info\n".toUTF8) = .ok text →
      Yaml.read text = .error fault → fault = .malformed) ∧
    ((∃ c, ofContents (.ofText "c.yaml") (.ok "log_level: info\n".toUTF8) = .ok c) ↔
      ∃ text v, textIn (.ofText "c.yaml") (.ok "log_level: info\n".toUTF8) = .ok text ∧
        Yaml.read text = .ok v ∧
        (v.asBool = false ∨ ∃ entries, v = .dict entries ∧ IsSettings entries)) := by
  have hparse : ∀ text fault,
      textIn (.ofText "c.yaml") (.ok "log_level: info\n".toUTF8) = .ok text →
      Yaml.read text = .error fault → fault = .malformed := by
    intro text fault htext hfault
    have hlevel : textIn (.ofText "c.yaml") (.ok "log_level: info\n".toUTF8) =
        .ok "log_level: info\n" := rfl
    have hread : (Yaml.read "log_level: info\n").toBool = true := by decide +kernel
    rw [hlevel] at htext
    cases htext
    rw [hfault] at hread
    cases hread
  exact ⟨hparse, (ofContents_accepts_iff hparse).2.2.1⟩

/-- A disk with one configuration file. -/
def diskOf (text : String) : Disk := ⟨[], [(["c.yaml"], text.toUTF8)], [], []⟩

/-- Of a number for a key the author is not told in terms of the configuration, and an empty list
passes for a mapping. -/
theorem ofFile_numberKey_emptyList :
    ofFile (diskOf "1: x\n") (.ofText "c.yaml") = .error (.keyNotText "int") ∧
      (ConfigFault.keyNotText "int").isExpected = false ∧
      (Yaml.read "[]\n").toOption.map Value.typeName = some "list" ∧
      ∃ c, ofFile (diskOf "[]\n") (.ofText "c.yaml") = .ok c := by
  refine ⟨?_, rfl, by decide +kernel, ?_⟩
  · have hfault : (match ofFile (diskOf "1: x\n") (.ofText "c.yaml") with
        | .error fault => fault == .keyNotText "int"
        | .ok _ => false) = true := by decide +kernel
    split at hfault
    · next fault hfile => rw [hfile, eq_of_beq hfault]
    · cases hfault
  · have haccepted : (ofFile (diskOf "[]\n") (.ofText "c.yaml")).toBool = true := by decide +kernel
    cases hfile : ofFile (diskOf "[]\n") (.ofText "c.yaml") with
    | error fault =>
      rw [hfile] at haccepted
      cases haccepted
    | ok c => exact ⟨c, rfl⟩

end Config

end Curly
