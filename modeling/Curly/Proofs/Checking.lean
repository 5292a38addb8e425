import Curly.CommandLine.Program
import Curly.Proofs.Configs
import Curly.Proofs.Confinement
import Curly.Proofs.Gaps
import Curly.Proofs.Inlining
import Curly.Proofs.PlainData
import Curly.Proofs.Sessions

/-!
# What a check tells about a rendering

A template is fit if its file is found, read and compiled (`Config.template`). A check writes an entry
for each name, which says whether the template is fit, and ends with 0 exactly if all are. It breaks off
where the disk cannot tell whether there is a file (`Config.obstacle?`).

If a view and its layouts are fit, then the program renders the view in the layouts, unless data refuses
to be shown or looked up: whatever goes wrong inside the templates is recovered from there, and the
program never ends with a failure that an author of templates could mend. Over plain data and with paths
that can be read it ends with 0 (`CommandLine.check_predicts_render`). What a check cannot tell is that a
number in a template is too long to be read (`CommandLine.perform_ones`).
-/

namespace Curly

/-- The directory of the templates of a configuration. -/
def Config.templatesIn (c : Config) (d : Disk) : Directory := ⟨d.place c.directory, c.suffix, .utf8⟩

/-- The templates of a configuration. -/
def Config.templates (c : Config) (d : Disk) : Source := (c.templatesIn d).source d .immediate

/-- The template of a name: its file is found and read, and its text compiled. -/
def Config.template (c : Config) (d : Disk) (name : String) : Except Failure Tree := do
  let text ← ((c.templates d).fetch name).2
  (compile text name c.settings.dropGaps).mapError .badTemplate

/-- An engine with the templates of a configuration. -/
def Config.working (c : Config) (d : Disk) : Engine := ⟨some (c.templates d), c.settings⟩

theorem Config.engine_eq_ok {c : Config} (h : c.directory.hasNul = false) (d : Disk) :
    c.engine d = .ok (c.working d) := by
  rw [engine, h]
  rfl

/-- Why the template of a name is missed, if it is for another reason than an author of templates could
mend. -/
def Config.obstacleAt? (c : Config) (d : Disk) (name : String) : Option Failure :=
  match c.template d name with
  | .ok _ => none
  | .error failure => if failure.isExpected then none else some failure

/-- What a check of names breaks off at: the path of the templates, or the first of the names. -/
def Config.obstacle? (c : Config) (d : Disk) (names : List String) : Option Failure :=
  if c.directory.hasNul then some (.noAccess c.directory.toText .nulInside)
  else names.findSome? (c.obstacleAt? d)

/-! ## Work over an honest cache -/

/-- Work that over an honest cache fails in no other way than `E` allows, and leaves such a cache. -/
def Run.EndsWell (dropGaps : Bool) {α : Type} (E : Failure → Prop) (work : Run α) : Prop :=
  ∀ j : Journal, j.Honest dropGaps →
    (∀ failure, (work.exec j).1 = .error failure → E failure) ∧ (work.exec j).2.Honest dropGaps

namespace Run.EndsWell

variable {dropGaps : Bool} {α β : Type} {E : Failure → Prop}

theorem pure (a : α) : Run.EndsWell dropGaps E (Pure.pure a) := fun _ hj => ⟨nofun, hj⟩

theorem note (ns : List Notice) : Run.EndsWell dropGaps E (Curly.note ns) :=
  fun _ hj => ⟨nofun, hj.congr rfl⟩

theorem bind {work : Run α} {next : α → Run β} (hwork : Run.EndsWell dropGaps E work)
    (hnext : ∀ a, Run.EndsWell dropGaps E (next a)) : Run.EndsWell dropGaps E (work >>= next) := by
  intro j hj
  obtain ⟨hfails, hhonest⟩ := hwork j hj
  rw [Run.exec_bind]
  rcases hexec : work.exec j with ⟨failure | a, k⟩ <;> rw [hexec] at hfails hhonest
  · refine ⟨fun failure' hfailure => hfails failure' ?_, hhonest⟩
    cases hfailure
    rfl
  · exact hnext a k hhonest

/-- Work that does not see the cache ends well if it fails as is allowed. -/
theorem of_transparent {work : Run α} (h : Run.Transparent dropGaps work)
    (hfails : Run.FailsOnly E work) : Run.EndsWell dropGaps E work :=
  fun j hj => ⟨hfails j, (h j { j with cache := none } ⟨hj, rfl⟩).2.1⟩

end Run.EndsWell

/-! ## Wordings -/

theorem head?_append {s t : String} {first : Char} (h : s.toList.head? = some first) :
    (s ++ t).toList.head? = some first := by
  rw [String.toList_append, List.head?_append, h]
  rfl

/-- The wordings of all faults begin with another letter than that of a success. -/
theorem TemplateFault.head?_message (fault : TemplateFault) :
    ∃ first, first ≠ 'o' ∧ fault.message.toList.head? = some first := by
  cases fault with
  | strayElse => exact ⟨'\'', by decide, by decide⟩
  | repeatedElse opening opened =>
    exact ⟨'D', by decide, head?_append (head?_append (head?_append (head?_append rfl)))⟩
  | strayClose kind =>
    exact ⟨'\'', by decide, head?_append (head?_append (head?_append (head?_append rfl)))⟩
  | mismatch kind innermost opened =>
    exact ⟨'\'', by decide, head?_append (head?_append (head?_append (head?_append
      (head?_append (head?_append rfl)))))⟩
  | unclosed kinds => exact ⟨'U', by decide, head?_append rfl⟩

theorem AccessFault.head?_message (fault : AccessFault) (path : String) :
    ∃ first, first ≠ 'o' ∧ (fault.message path).toList.head? = some first := by
  cases fault with
  | nulInside => exact ⟨'e', by decide, (by decide : "embedded null byte".toList.head? = some 'e')⟩
  | _ => exact ⟨'[', by decide, head?_append rfl⟩

/-! ## Templates by name -/

/-- A file is not found, or cannot be read, or it cannot be told whether there is one. -/
theorem Directory.read_eq_error {dir : Directory} {d : Disk} {name : String} {failure : Failure}
    (h : (dir.read d name).2 = .error failure) :
    (∃ searched, failure = .notFound name searched) ∨ (∃ reason, failure = .unreadable name reason) ∨
      (dir.locate d name).2 = .error failure ∧ ∃ path fault, failure = .noAccess path fault := by
  rw [read] at h
  rcases hlocate : dir.locate d name with ⟨notices, failure' | place⟩
  · rw [hlocate] at h
    cases h
    have hfailed : (dir.locate d name).2 = .error failure := by rw [hlocate]
    rcases locate_eq_error hfailed with hmissing | haccess
    · exact .inl ⟨_, hmissing⟩
    · exact .inr (.inr ⟨rfl, haccess⟩)
  · rw [hlocate] at h
    dsimp only at h
    split at h
    · cases h
      exact .inr (.inl ⟨_, rfl⟩)
    · split at h
      · cases h
      · cases h
        exact .inr (.inl ⟨_, rfl⟩)

/-- What cannot be located cannot be read, for the same reason. -/
theorem Directory.read_of_locate {dir : Directory} {d : Disk} {name : String} {failure : Failure}
    (h : (dir.locate d name).2 = .error failure) : (dir.read d name).2 = .error failure := by
  rw [read]
  rcases hlocate : dir.locate d name with ⟨notices, result⟩
  rw [hlocate] at h
  cases h
  rfl

namespace Config

variable (c : Config) (d : Disk)

theorem working_named (name : String) :
    (c.working d).named .blocking name = (do
      let text ← fetch (c.templates d) [] name
      return ⟨← (c.working d).compileNamed name text, name⟩) := by
  rw [Engine.named_eq]
  rfl

theorem template_of_error {name : String} {failure : Failure}
    (h : ((c.templates d).fetch name).2 = .error failure) :
    c.template d name = .error failure := by
  rw [template, h]
  rfl

theorem template_of_ok {name text : String} (h : ((c.templates d).fetch name).2 = .ok text) :
    c.template d name = (compile text name c.settings.dropGaps).mapError .badTemplate := by
  rw [template, h]
  rfl

/-- Over an honest cache a template is found exactly if it is fit. -/
theorem exec_named (name : String) {j : Journal} (hj : j.Honest c.settings.dropGaps) :
    (Run.exec ((c.working d).named .blocking name) j).1 =
        (c.template d name).map (Compiled.mk · name) ∧
      (Run.exec ((c.working d).named .blocking name) j).2.Honest c.settings.dropGaps := by
  rw [working_named, Run.exec_bind, exec_fetch]
  rcases hfetch : ((c.templates d).fetch name).2 with failure | text
  · rw [c.template_of_error d hfetch]
    exact ⟨rfl, hj⟩
  rw [c.template_of_ok d hfetch]
  dsimp only
  -- fetching leaves the cache as it is
  generalize hk : Journal.mk (j.notices ++ ((c.templates d).fetch name).1)
    (j.loads ++ [⟨[], name⟩]) j.cache = k
  have hhonest : k.Honest c.settings.dropGaps := hj.congr (hk ▸ rfl)
  have hcompiled : (Run.exec ((c.working d).compileNamed name text) k).1 =
        (compile text name c.settings.dropGaps).mapError .badTemplate ∧
      (Run.exec ((c.working d).compileNamed name text) k).2.Honest c.settings.dropGaps :=
    (c.working d).exec_compileNamed name text hhonest
  rw [Run.exec_bind]
  rcases hexec : Run.exec ((c.working d).compileNamed name text) k with ⟨result, k'⟩
  rw [hexec] at hcompiled
  rcases hcompiled with ⟨rfl, hkept⟩
  cases (compile text name c.settings.dropGaps).mapError Failure.badTemplate with
  | error failure => exact ⟨rfl, hkept⟩
  | ok tree => exact ⟨rfl, hkept⟩

/-- A template that is not fit is not found, not read, not compiled, or out of reach. -/
theorem template_eq_error {name : String} {failure : Failure}
    (h : c.template d name = .error failure) :
    (∃ searched, failure = .notFound name searched) ∨ (∃ reason, failure = .unreadable name reason) ∨
      (∃ error, failure = .badTemplate error) ∨
      ((c.templatesIn d).locate d name).2 = .error failure ∧
        ∃ path fault, failure = .noAccess path fault := by
  rw [template, bind_eq_error_iff] at h
  rcases h with hfetch | ⟨text, -, hcompile⟩
  · rcases Directory.read_eq_error hfetch with hsearched | hreason | hlocate
    · exact .inl hsearched
    · exact .inr (.inl hreason)
    · exact .inr (.inr (.inr hlocate))
  · rcases mapError_eq_error_iff.mp hcompile with ⟨error, -, rfl⟩
    exact .inr (.inr (.inl ⟨error, rfl⟩))

/-- The author of a template cannot mend what makes it unfit exactly if its file cannot be looked
for. -/
theorem template_eq_noAccess_iff {name path : String} {fault : AccessFault} :
    c.template d name = .error (.noAccess path fault) ↔
      ((c.templatesIn d).locate d name).2 = .error (.noAccess path fault) := by
  constructor
  · intro h
    rcases c.template_eq_error d h with ⟨_, hother⟩ | ⟨_, hother⟩ | ⟨_, hother⟩ | ⟨hlocate, -⟩
    · cases hother
    · cases hother
    · cases hother
    · exact hlocate
  · intro h
    exact c.template_of_error d (Directory.read_of_locate h)

/-- A fault that no author could mend is that a file cannot be looked for. -/
theorem exists_noAccess_of_not_isExpected {name : String} {failure : Failure}
    (h : c.template d name = .error failure) (hexpected : failure.isExpected = false) :
    ∃ path fault, failure = .noAccess path fault := by
  rcases c.template_eq_error d h with ⟨_, rfl⟩ | ⟨_, rfl⟩ | ⟨_, rfl⟩ | ⟨-, haccess⟩
  · cases hexpected
  · cases hexpected
  · cases hexpected
  · exact haccess

/-- No fault of a template is worded like a success. -/
theorem message_ne_ok {name : String} {failure : Failure}
    (h : c.template d name = .error failure) : failure.message ≠ "ok" := by
  have hother : ∃ first, first ≠ 'o' ∧ failure.message.toList.head? = some first := by
    rcases c.template_eq_error d h with ⟨searched, rfl⟩ | ⟨reason, rfl⟩ | ⟨error, rfl⟩ |
      ⟨-, path, fault, rfl⟩
    · exact ⟨'T', by decide, head?_append (head?_append rfl)⟩
    · exact ⟨'C', by decide, head?_append (head?_append (head?_append rfl))⟩
    · rcases error.fault.head?_message with ⟨first, hne, hfirst⟩
      exact ⟨first, hne, head?_append (head?_append hfirst)⟩
    · exact fault.head?_message path
  rcases hother with ⟨first, hne, hfirst⟩
  intro heq
  rw [heq] at hfirst
  cases hfirst
  exact hne rfl

/-! ## Entries of a check -/

/-- What a check says of a name. -/
def checkText (name : String) : String :=
  name ++ ": " ++ match c.template d name with
    | .ok _ => "ok"
    | .error failure => failure.message

theorem checkText_of_ok {name : String} {tree : Tree} (h : c.template d name = .ok tree) :
    c.checkText d name = name ++ ": " ++ "ok" := by
  rw [checkText, h]

theorem checkText_of_error {name : String} {failure : Failure}
    (h : c.template d name = .error failure) :
    c.checkText d name = name ++ ": " ++ failure.message := by
  rw [checkText, h]

/-- The entry that a check writes for a name. -/
def checkEntry (name : String) : String := c.checkText d name ++ "\n"

theorem checkEntry_of_ok {name : String} {tree : Tree} (h : c.template d name = .ok tree) :
    c.checkEntry d name = name ++ ": ok\n" := by
  rw [checkEntry, c.checkText_of_ok d h, String.append_assoc, String.append_assoc]
  rfl

/-- The entry says that a template is fit exactly if it is. -/
theorem checkEntry_eq_ok_iff (name : String) :
    c.checkEntry d name = name ++ ": ok\n" ↔ ∃ tree, c.template d name = .ok tree := by
  refine ⟨fun hentry => ?_, fun ⟨tree, htree⟩ => c.checkEntry_of_ok d htree⟩
  have hok : name ++ ": ok\n" = name ++ ": " ++ "ok" ++ "\n" := by
    rw [String.append_assoc, String.append_assoc]
    rfl
  rw [checkEntry, hok, String.append_left_inj] at hentry
  rcases htemplate : c.template d name with failure | tree
  · rw [c.checkText_of_error d htemplate, String.append_right_inj] at hentry
    exact (c.message_ne_ok d htemplate hentry).elim
  · exact ⟨tree, rfl⟩

/-- The entries have as many line feeds as there are names, and those of the entries themselves. -/
theorem count_checkEntries (names : List String) :
    (String.join (names.map (c.checkEntry d))).toList.count '\n' =
      names.length + (names.flatMap fun name => (c.checkText d name).toList).count '\n' := by
  induction names with
  | nil => rfl
  | cons name rest ih =>
    have hcount : (c.checkEntry d name).toList.count '\n' =
        (c.checkText d name).toList.count '\n' + 1 := by
      rw [checkEntry, String.toList_append, List.count_append]
      rfl
    rw [List.map_cons, String.join_cons, String.toList_append, List.count_append, ih, hcount,
      List.length_cons, List.flatMap_cons, List.count_append]
    omega

/-- There is a line for each name exactly if no entry has more than one. -/
theorem count_checkEntries_eq_length_iff (names : List String) :
    (String.join (names.map (c.checkEntry d))).toList.count '\n' = names.length ↔
      ∀ name ∈ names, '\n' ∉ (c.checkText d name).toList := by
  rw [count_checkEntries, Nat.add_eq_left, List.count_eq_zero, List.mem_flatMap]
  simp only [not_exists, not_and]

theorem isExpected_of_obstacleAt? {name : String} {failure : Failure}
    (h : c.obstacleAt? d name = some failure) : failure.isExpected = false := by
  rw [obstacleAt?] at h
  split at h
  · cases h
  · split at h
    · cases h
    · next hunexpected =>
      cases h
      simpa using hunexpected

/-- A check breaks off only where it cannot be told whether there is a file: at the path of the
templates, or at a name. -/
theorem obstacle?_eq_none_iff (names : List String) :
    c.obstacle? d names = none ↔ c.directory.hasNul = false ∧
      ∀ name ∈ names, ∀ path fault,
        ((c.templatesIn d).locate d name).2 ≠ .error (.noAccess path fault) := by
  rw [obstacle?]
  split
  · next hnul => simp [hnul]
  · next hnul =>
    simp only [Bool.not_eq_true] at hnul
    simp only [hnul, true_and, List.findSome?_eq_none_iff, ne_eq, ← c.template_eq_noAccess_iff d]
    refine forall₂_congr fun name _ => ?_
    rw [obstacleAt?]
    rcases htemplate : c.template d name with failure | tree
    · dsimp only
      cases hexpected : failure.isExpected with
      | true =>
        refine iff_of_true rfl ?_
        rintro path fault ⟨⟩
        cases hexpected
      | false =>
        obtain ⟨path, fault, rfl⟩ := c.exists_noAccess_of_not_isExpected d htemplate hexpected
        exact iff_of_false (by simp) fun h => h path fault rfl
    · exact iff_of_true rfl (by simp)

end Config

/-! ## Wrapped pages of fit templates -/

/-- The scope that the data of a command line gives. -/
theorem openScope_dict (entries : Entries) :
    openScope (some (.dict entries)) none = .ok (.ofData (.dict entries)) := by
  cases entries with
  | nil => rfl
  | cons entry rest => rfl

namespace Config

variable {c : Config} {d : Disk} {I : Scope → Prop} {E : Failure → Prop}

/-- A template is fit, and in scopes of a kind it fails in no other way than `E` allows. -/
def Renders (c : Config) (d : Disk) (I : Scope → Prop) (E : Failure → Prop) (name : String) : Prop :=
  ∃ tree, c.template d name = .ok tree ∧
    ∀ s, I s → Run.FailsOnly E ((c.working d).render .blocking ⟨tree, name⟩ s)

theorem Renders.renderNamed {name : String} {s : Scope} (h : c.Renders d I E name) (hs : I s) :
    Run.EndsWell c.settings.dropGaps E ((c.working d).renderNamed .blocking name s) := by
  rcases h with ⟨tree, htree, hfails⟩
  intro j hj
  have hnamed := c.exec_named d name hj
  rw [htree] at hnamed
  rw [Engine.renderNamed_eq, Run.exec_bind]
  rcases hexec : Run.exec ((c.working d).named .blocking name) j with ⟨result, k⟩
  rw [hexec] at hnamed
  obtain ⟨rfl, hk⟩ := hnamed
  have hself : Engine.Alike (Journal.Uncached c.settings.dropGaps) (c.working d) .blocking
      (c.working d) .blocking := Engine.alike_self (e := c.working d) rfl .blocking
  exact Run.EndsWell.of_transparent (hself.render ⟨tree, name⟩ s) (hfails s hs) k hk

/-- A page is wrapped into layouts that are fit, in scopes of a kind that keeps a page. -/
theorem wrap_endsWell (hlayer : ∀ s page, I s → I (layoutScope s page)) {layouts : List String}
    (hlayouts : ∀ layout ∈ layouts, c.Renders d I E layout) {s : Scope} (hs : I s)
    (view page : String) :
    Run.EndsWell c.settings.dropGaps E ((c.working d).wrap .blocking view s page layouts) := by
  induction layouts generalizing page with
  | nil =>
    rw [Engine.wrap_nil]
    exact .pure page
  | cons layout outer ih =>
    obtain ⟨hlayout, houter⟩ := List.forall_mem_cons.mp hlayouts
    rw [Engine.wrap_cons]
    refine Run.EndsWell.bind (.note [.wrapping view layout]) fun _ => ?_
    exact (hlayout.renderNamed (hlayer s page hs)).bind fun page => ih houter page

/-- A view that is fit is rendered and wrapped into layouts that are. -/
theorem renderWrapped_endsWell (hlayer : ∀ s page, I s → I (layoutScope s page)) {entries : Entries}
    (hs : I (.ofData (.dict entries))) {view : String} {layouts : List String}
    (hfit : ∀ name ∈ view :: layouts, c.Renders d I E name) :
    Run.EndsWell c.settings.dropGaps E
      ((c.working d).renderWrapped .blocking view layouts (some (.dict entries)) none) := by
  obtain ⟨hview, hlayouts⟩ := List.forall_mem_cons.mp hfit
  rw [Engine.renderWrapped_eq, openScope_dict]
  exact (hview.renderNamed hs).bind fun page => wrap_endsWell hlayer hlayouts hs view page

end Config

/-- The page that a layout wraps is plain data. -/
theorem Scope.Plain.layoutScope {s : Scope} (hs : s.Plain) (page : String) :
    (Curly.layoutScope s page).Plain := by
  refine hs.push fun k v hv => ?_
  cases List.mem_singleton.mp hv
  rfl

theorem Scope.plain_ofData {entries : Entries} (h : Value.allEntriesPlain entries) :
    (Scope.ofData (.dict entries)).Plain where
  data := ⟨entries, rfl, fun k v hmem => (Value.allEntriesPlain_iff.mp h k v hmem).2⟩
  layers := nofun

theorem Failure.IsRefusal.isExpected_eq_false {failure : Failure} (h : failure.IsRefusal) :
    failure.isExpected = false := by
  cases h with
  | shown => rfl
  | lookup => rfl

namespace CommandLine

variable {c : Config} {d : Disk}

/-! ## Checks -/

/-- One template is looked for, and what an author could mend is kept as the outcome. -/
theorem exec_checkOne (name : String) {j : Journal} (hj : j.Honest c.settings.dropGaps) :
    ∃ k : Journal, k.Honest c.settings.dropGaps ∧
      Run.exec (tryCatch (do let _ ← (c.working d).named .blocking name; return none)
        fun failure => if failure.isExpected then return some failure else throw failure) j =
      (match c.obstacleAt? d name, c.template d name with
        | some failure, _ => .error failure
        | none, .ok _ => .ok none
        | none, .error failure => .ok (some failure), k) := by
  have hnamed := c.exec_named d name hj
  rw [Run.exec_tryCatch, Run.exec_bind, Config.obstacleAt?]
  rcases hexec : Run.exec ((c.working d).named .blocking name) j with ⟨result, k⟩
  rw [hexec] at hnamed
  rcases hnamed with ⟨rfl, hk⟩
  refine ⟨k, hk, ?_⟩
  -- only a fault that is not expected gets past the handler
  rcases c.template d name with failure | tree
  · cases hexpected : failure.isExpected with
    | true => simp [Except.map, hexpected, Run.exec_pure]
    | false => simp [Except.map, hexpected, Run.exec_throw]
  · rfl

/-- A check writes an entry for each name, and counts those that are not fit, if it does not break
off. -/
theorem exec_checkAll (names : List String) {j : Journal} (hj : j.Honest c.settings.dropGaps) :
    (Run.exec (checkAll (c.working d) names) j).1 = match names.findSome? (c.obstacleAt? d) with
      | some failure => .error failure
      | none => .ok (names.map (c.checkEntry d),
          names.countP fun name => !(c.template d name).toBool) := by
  induction names generalizing j with
  | nil => rfl
  | cons name rest ih =>
    obtain ⟨k, hk, hone⟩ := exec_checkOne (d := d) name hj
    have hrest := ih hk
    rw [checkAll, Run.exec_bind, hone, List.findSome?_cons]
    rcases hobstacle : c.obstacleAt? d name with _ | failure
    swap
    · rfl
    rcases hexec : Run.exec (checkAll (c.working d) rest) k with ⟨result, k'⟩
    rw [hexec] at hrest
    dsimp only at hrest
    subst hrest
    dsimp only
    -- what is written of the name depends on whether it is fit
    rcases htemplate : c.template d name with failure | tree
    · dsimp only
      rw [Run.exec_bind, hexec]
      rcases rest.findSome? (c.obstacleAt? d) with _ | failure'
      · rw [List.map_cons, List.countP_cons, Config.checkEntry, c.checkText_of_error d htemplate,
          htemplate]
        rfl
      · rfl
    · dsimp only
      rw [Run.exec_bind, hexec]
      rcases rest.findSome? (c.obstacleAt? d) with _ | failure'
      · rw [List.map_cons, List.countP_cons, c.checkEntry_of_ok d htemplate, htemplate]
        rfl
      · rfl

/-- What the program does with the templates of a configuration. -/
theorem perform_eq_performWith {r : Request} {parse : Yaml.Reader}
    (hc : configuration d r.options parse = .ok c) (hnul : c.directory.hasNul = false) :
    perform d r parse =
      performWith (c.working d) (shownLevel c r.options.verbose) d r parse := by
  rw [perform, hc]
  dsimp only
  rw [Config.engine_eq_ok hnul d]

/-- What the work leaves behind, when there is data for it. -/
theorem performWith_eq {e : Engine} {level : Level} {r : Request} {parse : Yaml.Reader}
    {data : Entries} (hdata : r.data d parse = .ok data) (hlayouts : .none ∉ r.options.layouts) :
    performWith e level d r parse =
      match Run.exec (work e data r) (.start (some .empty)) with
      | (.ok (output, code), k) => .finished code output (noticeLines level k.notices)
      | (.error failure, k) => failed level k.notices (.template failure) := by
  have hno : r.options.layouts.contains .none = false := by simpa using hlayouts
  rw [performWith, hdata]
  dsimp only
  rcases Run.exec (work e data r) (.start (some .empty)) with ⟨failure | ⟨output, code⟩, k⟩
  · rfl
  · exact if_neg (Bool.eq_false_iff.mp hno)

/-- The cache that the program begins with. -/
theorem honest_start (dropGaps : Bool) : (Journal.start (some .empty)).Honest dropGaps :=
  Journal.honest_of_cache_eq rfl Cache.Honest.empty

/-- What a check leaves behind. -/
theorem perform_check {o : Options} {parse : Yaml.Reader} (hc : configuration d o parse = .ok c)
    (hlayouts : .none ∉ o.layouts) (names : List String) :
    ∃ errors, perform d (.check names o) parse = match c.obstacle? d names with
      | some failure => .brokeOff (.template failure)
      | none => .finished (if names.all fun name => (c.template d name).toBool then 0 else 1)
          (String.join (names.map (c.checkEntry d))) errors := by
  have hc' : configuration d (Request.check names o).options parse = .ok c := hc
  have hdata : (Request.check names o).data d parse = .ok [] := rfl
  -- such a path is found before any name is looked at
  by_cases hnul : c.directory.hasNul = true
  · refine ⟨"", ?_⟩
    rw [perform, hc']
    dsimp only
    rw [Config.engine, if_pos hnul, Config.obstacle?, if_pos hnul]
    rfl
  rw [Bool.not_eq_true] at hnul
  have hchecked := exec_checkAll (d := d) names (honest_start c.settings.dropGaps)
  have hcount : ((names.countP fun name => !(c.template d name).toBool) = 0) ↔
      (names.all fun name => (c.template d name).toBool) = true := by
    rw [List.countP_eq_zero, List.all_eq_true]
    simp
  rw [perform_eq_performWith hc' hnul, performWith_eq hdata hlayouts, work,
    Run.exec_bind, Config.obstacle?, if_neg (by rw [hnul]; decide)]
  rcases hexec : Run.exec (checkAll (c.working d) names) (.start (some .empty)) with ⟨result, k⟩
  rw [hexec] at hchecked
  dsimp only at hchecked
  subst hchecked
  rcases hobstacle : names.findSome? (c.obstacleAt? d) with _ | failure
  · simp only [hcount]
    exact ⟨_, rfl⟩
  · obtain ⟨name, -, hname⟩ := List.exists_of_findSome?_eq_some hobstacle
    have hunexpected : (ProgramFailure.template failure).isExpected = false :=
      c.isExpected_of_obstacleAt? d hname
    refine ⟨"", ?_⟩
    dsimp only
    rw [failed, hunexpected]
    rfl

/-- A check that ends with 0 has found every template fit. -/
theorem fit_of_perform_check {o : Options} {parse : Yaml.Reader}
    (hc : configuration d o parse = .ok c) (hlayouts : .none ∉ o.layouts) {names : List String}
    {output errors : String}
    (hzero : perform d (.check names o) parse = .finished 0 output errors) :
    c.directory.hasNul = false ∧ ∀ name ∈ names, ∃ tree, c.template d name = .ok tree := by
  obtain ⟨errors', hcheck⟩ := perform_check hc hlayouts names
  rw [hzero] at hcheck
  rcases hobstacle : c.obstacle? d names with _ | failure
  swap
  · rw [hobstacle] at hcheck
    cases hcheck
  refine ⟨((c.obstacle?_eq_none_iff d _).mp hobstacle).1, fun name hname => ?_⟩
  rw [hobstacle] at hcheck
  dsimp only at hcheck
  split at hcheck
  · next hall =>
    have hname' := List.all_eq_true.mp hall name hname
    rcases htemplate : c.template d name with failure | tree
    · rw [htemplate] at hname'
      cases hname'
    · exact ⟨tree, rfl⟩
  · cases hcheck

/-! ## Renderings -/

theorem namedLayouts_map_text (layouts : List String) :
    namedLayouts (layouts.map .text) = layouts := by
  have htake : (layouts.map OptionValue.text).takeWhile (· ≠ .none) = layouts.map .text := by
    rw [List.takeWhile_eq_self_iff]
    intro value hvalue
    rcases List.mem_map.mp hvalue with ⟨layout, -, rfl⟩
    rfl
  rw [namedLayouts, htake, List.filterMap_map]
  exact List.filterMap_some

section Render

variable {o : Options} {parse : Yaml.Reader} {view : String} {layouts : List String}
variable {entries : Entries} (hc : configuration d o parse = .ok c)
variable (hnul : c.directory.hasNul = false) (hlayouts : o.layouts = layouts.map .text)
variable (hdata : dataOf d o parse = .ok entries)

include hc hnul hlayouts hdata

/-- What a rendering leaves behind. -/
theorem perform_render :
    perform d (.render view o) parse =
      match Run.exec ((c.working d).renderWrapped .blocking view layouts (some (.dict entries)) none)
        (.start (some .empty)) with
      | (.ok page, k) => .finished 0 page (noticeLines (shownLevel c o.verbose) k.notices)
      | (.error failure, k) => failed (shownLevel c o.verbose) k.notices (.template failure) := by
  have hc' : configuration d (Request.render view o).options parse = .ok c := hc
  have hdata' : (Request.render view o).data d parse = .ok entries := hdata
  have hnone : .none ∉ (Request.render view o).options.layouts := by
    rw [show (Request.render view o).options.layouts = layouts.map .text from hlayouts]
    simp
  rw [perform_eq_performWith hc' hnul, performWith_eq hdata' hnone, work, hlayouts,
    namedLayouts_map_text, Run.exec_bind]
  rcases Run.exec ((c.working d).renderWrapped .blocking view layouts (some (.dict entries)) none)
    (.start (some .empty)) with ⟨failure | page, k⟩
  · rfl
  · rfl

/-- Nothing is left behind by a failure that no author could mend. -/
theorem perform_render_of_error {failure : Failure} (hunexpected : failure.isExpected = false)
    (hfails : (Run.exec ((c.working d).renderWrapped .blocking view layouts (some (.dict entries))
      none) (.start (some .empty))).1 = .error failure) :
    perform d (.render view o) parse = .brokeOff (.template failure) := by
  have hunexpected' : (ProgramFailure.template failure).isExpected = false := hunexpected
  rw [perform_render hc hnul hlayouts hdata]
  rcases hexec : Run.exec ((c.working d).renderWrapped .blocking view layouts (some (.dict entries))
    none) (.start (some .empty)) with ⟨result, k⟩
  rw [hexec] at hfails
  cases hfails
  dsimp only
  rw [failed, hunexpected']
  rfl

/-- A rendering leaves a page behind, unless it fails in a way that no author could mend. -/
theorem perform_render_cases {E : Failure → Prop}
    (hE : ∀ failure, E failure → failure.isExpected = false)
    (hends : Run.EndsWell c.settings.dropGaps E
      ((c.working d).renderWrapped .blocking view layouts (some (.dict entries)) none)) :
    (∃ page errors, perform d (.render view o) parse = .finished 0 page errors) ∨
      ∃ failure, E failure ∧ perform d (.render view o) parse = .brokeOff (.template failure) := by
  have hfails := (hends _ (honest_start _)).1
  rcases hresult : (Run.exec ((c.working d).renderWrapped .blocking view layouts
    (some (.dict entries)) none) (.start (some .empty))).1 with failure | page
  · have hfailure := hfails failure hresult
    exact .inr ⟨failure, hfailure,
      perform_render_of_error hc hnul hlayouts hdata (hE failure hfailure) hresult⟩
  · rw [perform_render hc hnul hlayouts hdata]
    rcases hexec : Run.exec ((c.working d).renderWrapped .blocking view layouts
      (some (.dict entries)) none) (.start (some .empty)) with ⟨result, k⟩
    rw [hexec] at hresult
    cases hresult
    exact .inl ⟨page, _, rfl⟩

end Render

/-- A check writes an entry for each name, in their order, which says whether its template is fit, and
goes on after a template that is not; it ends with 0 exactly if all are, with 1 otherwise. It breaks off
exactly where it cannot be told whether there is a file. There is one line for each name exactly if no
entry has a line feed in it. If a check ends with 0 for a view and layouts, then with the same
configuration the view is rendered in the layouts, unless data refuses; over plain data it does not if
the numerals in the paths of these templates can be read. -/
theorem check_predicts_render {o : Options} {parse : Yaml.Reader}
    (hc : configuration d o parse = .ok c) (hlayouts : .none ∉ o.layouts) :
    (∀ names, ∃ errors, perform d (.check names o) parse = match c.obstacle? d names with
      | some failure => .brokeOff (.template failure)
      | none => .finished (if names.all fun name => (c.template d name).toBool then 0 else 1)
          (String.join (names.map (c.checkEntry d))) errors) ∧
    (∀ names, c.obstacle? d names = none ↔ c.directory.hasNul = false ∧
      ∀ name ∈ names, ∀ path fault,
        ((c.templatesIn d).locate d name).2 ≠ .error (.noAccess path fault)) ∧
    (∀ name, c.checkEntry d name = name ++ ": ok\n" ↔ ∃ tree, c.template d name = .ok tree) ∧
    (∀ names : List String, (String.join (names.map (c.checkEntry d))).toList.count '\n' = names.length ↔
      ∀ name ∈ names, '\n' ∉ (c.checkText d name).toList) ∧
    ∀ (view : String) (layouts : List String) (o' : Options) (entries : Entries),
      configuration d o' parse = .ok c → o'.layouts = layouts.map .text →
      dataOf d o' parse = .ok entries →
      (∃ output errors, perform d (.check (view :: layouts) o) parse = .finished 0 output errors) →
      ((∃ page errors, perform d (.render view o') parse = .finished 0 page errors) ∨
        ∃ failure, failure.IsRefusal ∧
          perform d (.render view o') parse = .brokeOff (.template failure)) ∧
      (Value.allEntriesPlain entries →
        (∀ name ∈ view :: layouts, ∀ tree, c.template d name = .ok tree → Tree.isReadable tree) →
        ∃ page errors, perform d (.render view o') parse = .finished 0 page errors) := by
  refine ⟨perform_check hc hlayouts, c.obstacle?_eq_none_iff d, c.checkEntry_eq_ok_iff d,
    c.count_checkEntries_eq_length_iff d, ?_⟩
  rintro view layouts o' entries hc' hnamed hdata ⟨output, errors, hzero⟩
  obtain ⟨hnul, hfit⟩ := fit_of_perform_check hc hlayouts hzero
  constructor
  -- over any mapping a fit template fails only where data refuses
  · have hrenders : ∀ name ∈ view :: layouts,
        c.Renders d (fun s => s.data.entries? = some entries) Failure.IsRefusal name := by
      intro name hname
      obtain ⟨tree, htree⟩ := hfit name hname
      exact ⟨tree, htree, fun s hs => Engine.render_failsOnly (fun _ _ hu hcauses =>
        hcauses.isRefusal hu) (fun _ _ hu => hu) _ .blocking ⟨tree, name⟩ hs⟩
    have hends := Config.renderWrapped_endsWell (I := fun s => s.data.entries? = some entries)
      (fun _ _ hs => hs) rfl hrenders
    exact perform_render_cases hc' hnul hnamed hdata (fun _ h => h.isExpected_eq_false) hends
  -- over plain data it completes, and so it does not fail at all
  · intro hplain hreadable
    have hrenders : ∀ name ∈ view :: layouts, c.Renders d Scope.Plain (fun _ => False) name := by
      intro name hname
      obtain ⟨tree, htree⟩ := hfit name hname
      refine ⟨tree, htree, fun s hs j failure hfails => ?_⟩
      obtain ⟨page, hpage⟩ := ((c.working d).exists_page_iff .blocking ⟨tree, name⟩ s j).mpr
        (hs.completes (hreadable name hname tree htree))
      rw [hpage] at hfails
      cases hfails
    have hends := Config.renderWrapped_endsWell (fun _ page hs => hs.layoutScope page)
      (Scope.plain_ofData hplain) hrenders
    rcases perform_render_cases hc' hnul hnamed hdata (fun _ h => h.elim) hends with
      hpage | ⟨_, hnever, -⟩
    · exact hpage
    · exact hnever.elim

/-- A disk with a view, which embeds what is not there, and a layout. -/
def sampleDisk : Disk :=
  { here := [], files := [(["a"], "\x7b#include x\x7d".toUTF8),
      (["b"], "\x7b@html children\x7d".toUTF8)], folders := [] }

/-- The configuration of a disk that holds none. -/
def sampleConfig : Config := ⟨.ofText ".", "", {}, .warning⟩

/-- A view in one layout is a case. -/
theorem check_predicts_render_layout :
    configuration sampleDisk {} = .ok sampleConfig ∧
      (∃ output errors, perform sampleDisk (.check ["a", "b"] {}) = .finished 0 output errors) ∧
      ∃ page errors, perform sampleDisk (.render "a" { layouts := [.text "b"] }) =
        .finished 0 page errors := by
  have hc : configuration sampleDisk {} = .ok sampleConfig := rfl
  have hnone : sampleConfig.obstacle? sampleDisk ["a", "b"] = none := by decide +kernel
  have hfit : (["a", "b"].all fun name => (sampleConfig.template sampleDisk name).toBool) = true := by
    decide +kernel
  have hreadable : ["a", "b"].all fun name =>
      ((sampleConfig.template sampleDisk name).toOption.all Tree.isReadable) := by decide +kernel
  obtain ⟨hcheck, -, -, -, hrender⟩ := check_predicts_render hc (by decide)
  obtain ⟨errors, hcheck⟩ := hcheck ["a", "b"]
  rw [hnone, if_pos hfit] at hcheck
  have hpage := hrender "a" ["b"] { layouts := [.text "b"] } [] hc rfl rfl ⟨_, errors, hcheck⟩
  refine ⟨hc, ⟨_, errors, hcheck⟩, hpage.2 rfl fun name hname tree htree => ?_⟩
  have htreeReadable := List.all_eq_true.mp hreadable name hname
  rwa [htree] at htreeReadable

/-! ## What a check cannot tell -/

/-- A normal tree without gaps is what its text compiles to, whether gaps are dropped or not. -/
theorem compile_print_of_withoutGaps {t : Tree} (h : Tree.IsNormal t)
    (hgaps : Tree.withoutGaps false false t = t) (name : String) (dropGaps : Bool) :
    compile (Tree.print t) name dropGaps = .ok t := by
  have hkept := Tree.compile_print h name
  cases dropGaps with
  | false => exact hkept
  | true =>
    rw [compile_eq_ok_iff_build, if_pos rfl, build_dropGaps_of_ok (compile_eq_ok_iff_build.mp hkept),
      hgaps]

/-- A rendering of a fit view that fails has no page, whatever the layouts are. -/
theorem exec_renderWrapped_of_fails {view : String} {tree : Tree} {entries : Entries}
    {failure : Failure} (htree : c.template d view = .ok tree)
    (hfails : ∀ k, (Run.exec ((c.working d).render .blocking ⟨tree, view⟩
      (.ofData (.dict entries))) k).1 = .error failure) (layouts : List String) :
    (Run.exec ((c.working d).renderWrapped .blocking view layouts (some (.dict entries)) none)
      (.start (some .empty))).1 = .error failure := by
  have hnamed := c.exec_named d view (honest_start c.settings.dropGaps)
  rw [Engine.renderWrapped_eq, openScope_dict, show MonadExcept.ofExcept (.ok
    (Scope.ofData (.dict entries))) = (pure (.ofData (.dict entries)) : Run Scope) from rfl,
    pure_bind, Run.exec_bind, Engine.renderNamed_eq, Run.exec_bind]
  rcases hexec : Run.exec ((c.working d).named .blocking view) (.start (some .empty)) with ⟨result, k⟩
  rw [hexec, htree] at hnamed
  obtain ⟨rfl, -⟩ := hnamed
  have hfailed := hfails k
  dsimp only [Except.map]
  rcases hrun : Run.exec ((c.working d).render .blocking ⟨tree, view⟩ (.ofData (.dict entries))) k
    with ⟨result, k'⟩
  rw [hrun] at hfailed
  cases hfailed
  rfl

/-- A file that shows nothing but a number of too many digits passes a check, and its rendering breaks
off. -/
theorem perform_ones {digits : Nat} (h : digitLimit < digits) {o : Options} {parse : Yaml.Reader}
    {name : String} {entries : Entries} (hc : configuration d o parse = .ok c)
    (hnul : c.directory.hasNul = false) (hlayouts : o.layouts = [])
    (hdata : dataOf d o parse = .ok entries)
    (hread : ((c.templatesIn d).read d name).2 = .ok (Tree.print [.value (ones digits)])) :
    (∃ errors, perform d (.check [name] o) parse = .finished 0 (name ++ ": ok\n") errors) ∧
    perform d (.render name o) parse =
      .brokeOff (.template (.badLookup (.numeral (.tooLongToRead digits)))) := by
  -- a single tag is no gap
  have hgaps : Tree.withoutGaps false false [.value (ones digits)] = [.value (ones digits)] := by
    simp [Tree.withoutGaps, Node.withoutGaps]
  have htree : c.template d name = .ok [.value (ones digits)] := by
    rw [c.template_of_ok d hread, compile_print_of_withoutGaps (Tree.isNormal_ones h) hgaps]
    rfl
  constructor
  · have hobstacle : c.obstacle? d [name] = none := by
      rw [Config.obstacle?, if_neg (by rw [hnul]; decide), List.findSome?_singleton,
        Config.obstacleAt?, htree]
    obtain ⟨errors, hcheck⟩ := perform_check hc (by rw [hlayouts]; exact List.not_mem_nil) [name]
    rw [hobstacle] at hcheck
    refine ⟨errors, hcheck.trans ?_⟩
    simp [htree, c.checkEntry_of_ok d htree, Except.toBool]
  · have hnone : o.layouts = [].map .text := hlayouts
    refine perform_render_of_error hc hnul hnone hdata rfl
      (exec_renderWrapped_of_fails htree (fun k => ?_) [])
    rw [Engine.exec_render_ones _ _ _ _ _ h]

/-- A disk with a page in which a condition has two other branches, and its tag is on two lines. -/
def twoLinesDisk : Disk :=
  { here := [], files := [(["page"], "\x7b#if\na\x7d\x7b:else\x7d\x7b:else\x7d\x7b/if\x7d".toUTF8)]
    folders := [] }

/-- A disk with a view in it, and with a directory that cannot be entered. -/
def barredDisk : Disk :=
  { here := [], files := [(["a"], .empty)], folders := [["x"]], barred := [["x"]] }

/-- What is wrong with one page is told on two lines, and where a directory cannot be entered a check
breaks off, whatever other names it was to look at. -/
theorem check_unpredicted :
    perform twoLinesDisk (.check ["page"] {}) = .finished 1
      ("page: Duplicate '\x7b:else\x7d' in '\x7b#if\na\x7d' block (opened at 1:1) at 2:10 in 'page'" ++
        "\n") "" ∧
    perform barredDisk (.check ["x/page", "a"] {}) =
      .brokeOff (.template (.noAccess "/x/page" .denied)) := by
  constructor
  · decide +kernel
  · decide +kernel

end CommandLine

end Curly
