import Curly.Proofs.Composition
import Curly.Proofs.Guard
import Curly.Proofs.Interpolation
import Curly.Proofs.Layers
import Curly.Proofs.LoopNames
import Curly.Proofs.Waiting

/-!
# Layouts

Wrapping a page into layouts is composing templates (`Engine.renderWrapped_composes`). The layers
that wrapping puts on the data come to one mapping: the data overwritten by what an extension adds,
and for a layout that mapping with the page set in it (`Scope.Alike.layoutScope`). So each stage is a
rendering by name over a mapping, and the stages follow one another (`Engine.composed`).

A layout that has nothing but texts around the page is a `Frame`, and frames leave the page as it is.
Of the stages the first one that fails is the last one that is asked for (`Journal.started`).
-/

namespace Curly

/-! ## Data with an extension -/

/-- The entries overwritten by later ones, one after another. -/
def Entries.overwrite (entries later : Entries) : Entries :=
  later.foldl (fun entries (k, v) => entries.insert k v) entries

/-- What an extension adds to data: nothing, if there is no extension. -/
def Extension.Adds (extension : Option Extension) (entries extra : Entries) : Prop :=
  match extension with
  | none => extra = []
  | some extend => extend (.ofData (.dict entries)) = .ok (Bindings.ofEntries extra)

/-- What is returned as a value adds its entries; nothing, and what counts as false, adds none. -/
theorem Extension.adds_ofValue {v : Option Value} {extra : Entries}
    (h : (Scope.ofGiven v).data.asEntries = .ok extra) (entries : Entries) :
    Extension.Adds (some (.ofValue v)) entries extra := by
  show Extension.ofValue v _ = _
  cases v with
  | none =>
    cases h
    rfl
  | some v =>
    rw [Extension.ofValue]
    by_cases hv : v.asBool
    · have hdata : (Scope.ofGiven (some v)).data = v := by rw [Scope.ofGiven, if_pos hv]; rfl
      rw [hdata] at h
      simp only [if_pos hv, h]
      rfl
    · have hdata : (Scope.ofGiven (some v)).data = .dict [] := by rw [Scope.ofGiven, if_neg hv]; rfl
      rw [hdata] at h
      cases h
      simp only [if_neg hv]
      rfl

theorem Bindings.ofEntries_overwrite (entries later : Entries) :
    ofEntries (entries.overwrite later) = (ofEntries entries).overwrite (ofEntries later) := by
  induction later generalizing entries with
  | nil => rfl
  | cons first rest ih =>
    rcases first with ⟨k, v⟩
    rw [Entries.overwrite, List.foldl_cons]
    refine (ih (entries.insert k v)).trans ?_
    rw [ofEntries_insert]
    rfl

namespace Scope

theorem ofGiven_dict (entries : Entries) :
    ofGiven (some (.dict entries)) = ofData (.dict entries) := by
  cases entries with
  | nil => rfl
  | cons entry rest => rfl

theorem Alike.refl_dict (entries : Entries) :
    Alike (ofData (.dict entries)) (ofData (.dict entries)) where
  isMapping := ⟨entries, rfl⟩
  isMapping' := ⟨entries, rfl⟩
  get _ := rfl

/-- A layer over data answers as the mapping in which its names are set. -/
theorem Alike.push_dict {entries whole : Entries} {s : Scope} {layer : Bindings}
    (hs : Alike (ofData (.dict entries)) s)
    (h : ∀ name, Bindings.get? name (.ofEntries whole) =
      (Bindings.get? name layer).or (Bindings.get? name (.ofEntries entries))) :
    Alike (ofData (.dict whole)) (s.push layer) where
  isMapping := ⟨whole, rfl⟩
  isMapping' := hs.isMapping'
  get name := by
    obtain ⟨data, hdata⟩ := hs.isMapping'
    have hentries : (ofData (.dict entries)).get name = .ok (entries.get? name) := get_eq_ok rfl name
    have hwhole : (ofData (.dict whole)).get name = .ok (whole.get? name) := get_eq_ok rfl name
    have hname := h name
    rw [Bindings.get?_ofEntries, Bindings.get?_ofEntries] at hname
    rw [get_push hdata, hs.get, hentries, hwhole]
    cases hbound : Bindings.get? name layer with
    | none =>
      rw [hbound, Option.none_or] at hname
      rw [Option.map_injective (fun _ _ => Option.some.inj) hname]
      rfl
    | some binding =>
      rw [hbound, Option.some_or, Option.map_eq_some_iff] at hname
      obtain ⟨v, hv, rfl⟩ := hname
      rw [hv]
      rfl

/-- A layout sees the mapping of the view with the page under the reserved name. -/
theorem Alike.layoutScope {entries : Entries} {s : Scope} (hs : Alike (ofData (.dict entries)) s)
    (page : String) :
    Alike (ofData (.dict (entries.insert (.str wrappedName) (.str page))))
      (Curly.layoutScope s page) := by
  apply hs.push_dict
  intro name
  rw [Bindings.ofEntries_insert, Bindings.get?_insert]

end Scope

/-- The scope that is opened for data and an extension answers as the data overwritten by what the
extension adds. -/
theorem openScope_alike {data : Option Value} {extension : Option Extension}
    {entries extra : Entries} (hdata : (Scope.ofGiven data).data.asEntries = .ok entries)
    (hextra : Extension.Adds extension entries extra) (hdistinct : DistinctKeys extra) :
    ∃ s, openScope data extension = .ok s ∧
      Scope.Alike (.ofData (.dict (entries.overwrite extra))) s := by
  cases extension with
  | none =>
    cases hextra
    refine ⟨.ofData (.dict entries), ?_, .refl_dict entries⟩
    rw [openScope, hdata]
    rfl
  | some extend =>
    have hextend : extend (.ofData (.dict entries)) = .ok (Bindings.ofEntries extra) := hextra
    have hopen : openScope data (some extend) =
        .ok (if (Bindings.ofEntries extra).isEmpty then .ofData (.dict entries)
          else (Scope.ofData (.dict entries)).push (Bindings.ofEntries extra)) := by
      rw [openScope, hdata]
      show (extend (.ofData (.dict entries)) >>= fun bindings => _) = _
      rw [hextend]
      rfl
    refine ⟨_, hopen, ?_⟩
    -- an extension that adds nothing makes no layer
    cases extra with
    | nil => exact .refl_dict entries
    | cons first rest =>
      apply (Scope.Alike.refl_dict entries).push_dict
      intro name
      rw [Bindings.ofEntries_overwrite, Bindings.get?_overwrite hdistinct.ofEntries]

/-! ## One thing after another -/

namespace Run

variable {α β : Type} {work : Run α} {next : α → Run β} {j k : Journal}

/-- Two pieces of work succeed one after the other if each of them does. -/
theorem exec_bind_eq_ok {b : β} : Run.exec (work >>= next) j = (.ok b, k) ↔
    ∃ a k', work.exec j = (.ok a, k') ∧ (next a).exec k' = (.ok b, k) := by
  rw [exec_bind]
  rcases work.exec j with ⟨failure | a, k'⟩
  · simp
  · simp

/-- Two pieces of work fail one after the other if the first does, or succeeds and the second
fails. -/
theorem exec_bind_eq_error {failure : Failure} :
    Run.exec (work >>= next) j = (.error failure, k) ↔ work.exec j = (.error failure, k) ∨
      ∃ a k', work.exec j = (.ok a, k') ∧ (next a).exec k' = (.error failure, k) := by
  rw [exec_bind]
  rcases work.exec j with ⟨failure | a, k'⟩
  · simp
  · simp

end Run

namespace Engine

variable (e : Engine) (mode : Mode)

/-! ## One layout after another -/

/-- A layout is rendered over a mapping in which the page that it wraps is set. -/
def stage (view : String) (entries : Entries) (page layout : String) : Run String := do
  noteWrapping mode view layout
  e.renderNamed mode layout (.ofGiven (some (.dict (entries.insert (.str wrappedName) (.str page)))))

/-- A view is rendered over a mapping, and then each layout in turn around what came before it. -/
def composed (view : String) (entries : Entries) (layouts : List String) : Run String := do
  let page ← e.renderNamed mode view (.ofGiven (some (.dict entries)))
  layouts.foldlM (e.stage mode view entries) page

theorem renderNamed_eq_of_alike (name : String) {s s' : Scope} (hs : s.Alike s') :
    e.renderNamed mode name s' = e.renderNamed mode name s := by
  rw [renderNamed_eq, renderNamed_eq]
  simp only [e.render_eq_of_alike mode _ hs]

/-- Wrapping a page is going through the layouts, each over the mapping that the scope amounts to. -/
theorem wrap_eq_foldlM (view : String) {entries : Entries} {s : Scope}
    (hs : Scope.Alike (.ofData (.dict entries)) s) (page : String) (layouts : List String) :
    e.wrap mode view s page layouts = layouts.foldlM (e.stage mode view entries) page := by
  induction layouts generalizing page with
  | nil => rw [wrap_nil, List.foldlM_nil]
  | cons layout outer ih =>
    rw [wrap_cons, List.foldlM_cons, stage, Scope.ofGiven_dict,
      e.renderNamed_eq_of_alike mode layout (hs.layoutScope page), bind_assoc]
    simp only [ih]

/-- A wrapped page is composed over the data overwritten by what the extension adds. -/
theorem renderWrapped_eq_composed {data : Option Value} {extension : Option Extension}
    {entries extra : Entries} (hdata : (Scope.ofGiven data).data.asEntries = .ok entries)
    (hextra : Extension.Adds extension entries extra) (hdistinct : DistinctKeys extra)
    (view : String) (layouts : List String) :
    e.renderWrapped mode view layouts data extension =
      e.composed mode view (entries.overwrite extra) layouts := by
  obtain ⟨s, hopen, hs⟩ := openScope_alike hdata hextra hdistinct
  have hpure : MonadExcept.ofExcept (.ok s) = (pure s : Run Scope) := rfl
  rw [renderWrapped_eq, hopen, hpure, pure_bind, composed, Scope.ofGiven_dict,
    e.renderNamed_eq_of_alike mode view hs]
  simp only [e.wrap_eq_foldlM mode view hs]

/-- More layouts are put around the page that the first ones give. -/
theorem composed_append (view : String) (entries : Entries) (before : List String) (layout : String)
    (after : List String) :
    e.composed mode view entries (before ++ layout :: after) = (do
      let page ← e.composed mode view entries before
      let page ← e.stage mode view entries page layout
      after.foldlM (e.stage mode view entries) page) := by
  simp only [composed, List.foldlM_append, List.foldlM_cons, bind_assoc]

end Engine

/-! ## Templates by name -/

/-- Gaps do not decide whether a text compiles, nor what is wrong with one that does not. -/
theorem map_compile_trim (text name : String) (trim : Bool) :
    (compile text name trim).map (fun _ => ()) = (compile text name false).map fun _ => () := by
  cases trim with
  | false => rfl
  | true =>
    have hbuild := map_build_dropGaps false (Token.ofText text)
    simp only [compile, if_true, Bool.false_eq_true, if_false, map_mapError, hbuild]

/-- A text that does not compile with its gaps does not compile without them, and the other way
round, for the same reason. -/
theorem compile_eq_error_of_trim {text name : String} {trim : Bool} {error : TemplateError}
    (h : compile text name trim = .error error) (trim' : Bool) :
    compile text name trim' = .error error := by
  have hsame := (map_compile_trim text name trim').trans (map_compile_trim text name trim).symm
  rw [h] at hsame
  rcases hcompile : compile text name trim' with error' | tree
  · rw [hcompile] at hsame
    cases hsame
    rfl
  · rw [hcompile] at hsame
    cases hsame

namespace Engine

/-- A text for which gaps make no difference is found as it is compiled, from the cache or not. -/
theorem compileNamed_eq_of_trim {e : Engine} {name text : String} {result : Except TemplateError Tree}
    (h : ∀ trim, Curly.compile text name trim = result) {j : Journal} (hj : j.Genuine) :
    (Run.exec (e.compileNamed name text) j).1 = result.mapError .badTemplate := by
  rcases hc : j.cache with _ | c
  · rw [e.exec_compileNamed_of_none name text hc, (e.exec_compile text name j).1, h]
  · rcases hget : c.get? name text with _ | tree
    · rw [e.exec_compileNamed_of_miss hc hget, h]
      rcases result with error | tree
      · rfl
      · rfl
    · -- what the cache keeps for the text was compiled from it
      obtain ⟨trim, htrim⟩ := (hj c hc).get? hget
      rw [e.exec_compileNamed_of_hit hc hget, ← h trim, htrim]
      rfl

/-- A template is asked for by name, and then compiled if its text is there. -/
theorem exec_named {e : Engine} {mode : Mode} {source : Source} (hsource : e.source = some source)
    (hreach : source.reaches mode) (name : String) (j : Journal) :
    ∃ k, k.loads = j.loads ++ [⟨[], name⟩] ∧ (j.Genuine → k.Genuine) ∧
      Run.exec (e.named mode name) j = match (source.fetch name).2 with
        | .error failure => (.error failure, k)
        | .ok text => ((Run.exec (e.compileNamed name text) k).1.map (⟨·, name⟩),
            (Run.exec (e.compileNamed name text) k).2) := by
  refine ⟨{ j with
    notices := j.notices ++ (source.fetch name).1
    loads := j.loads ++ [⟨[], name⟩] }, rfl, fun hj => hj.congr rfl, ?_⟩
  rw [named_eq, required, hsource]
  dsimp only
  rw [pure_bind, if_pos hreach, Run.exec_bind, exec_fetch]
  rcases (source.fetch name).2 with failure | text
  · rfl
  · exact Run.exec_map (fun tree : Tree => (⟨tree, name⟩ : Compiled)) (e.compileNamed name text) _

section Genuine

variable (e : Engine) (mode : Mode)

theorem named_ensures (name : String) :
    Run.Ensures Journal.Genuine (fun _ => True) (e.named mode name) := by
  have hrequired : Run.Ensures Journal.Genuine (fun _ => True) (e.required name) := by
    rw [required]
    split
    · exact .pure trivial
    · exact .throw
  rw [named_eq]
  refine hrequired.bind fun source _ => ?_
  split
  · refine (fetch_ensures _ _ _).bind fun text _ => ?_
    exact (e.compileNamed_ensures name text).bind fun _ _ => .pure trivial
  · exact .throw

theorem renderNamed_ensures (name : String) (s : Scope) :
    Run.Ensures Journal.Genuine (fun _ => True) (e.renderNamed mode name s) := by
  rw [renderNamed_eq]
  refine (e.named_ensures mode name).bind fun template _ => ?_
  rw [render_eq]
  exact (e.fragments_made mode template s).bind fun _ _ => .pure trivial

theorem stage_ensures (view : String) (entries : Entries) (page layout : String) :
    Run.Ensures Journal.Genuine (fun _ => True) (e.stage mode view entries page layout) := by
  have hnote : Run.Ensures Journal.Genuine (fun _ => True) (noteWrapping mode view layout) := by
    intro j hj
    obtain ⟨k, hexec, hk⟩ := exec_noteWrapping mode view layout j
    rw [hexec]
    exact ⟨fun _ _ => trivial, hj.congr hk.cache⟩
  exact hnote.bind fun _ _ => e.renderNamed_ensures mode layout _

/-- Composing a page keeps a cache genuine. -/
theorem composed_ensures (view : String) (entries : Entries) (layouts : List String) :
    Run.Ensures Journal.Genuine (fun _ => True) (e.composed mode view entries layouts) := by
  refine (e.renderNamed_ensures mode view _).bind fun page _ => ?_
  induction layouts generalizing page with
  | nil => exact .pure trivial
  | cons layout outer ih =>
    rw [List.foldlM_cons]
    exact (e.stage_ensures mode view entries page layout).bind fun next _ => ih next

end Genuine

end Engine

/-! ## Layouts that are a frame around the page -/

/-- A layout that is a page with a text before it and a text after it. -/
structure Frame where
  name : String
  before : String
  after : String

namespace Frame

/-- The text of the layout. -/
def text (f : Frame) : String := f.before ++ "\x7b@html children\x7d" ++ f.after

/-- A source has the layout, and no tags are recognised in what it puts around the page. -/
structure IsServed (f : Frame) (source : Source) : Prop where
  served : (source.fetch f.name).2 = .ok f.text
  before : ∀ t ∈ Token.ofText f.before, ¬ t.IsTag
  after : ∀ t ∈ Token.ofText f.after, ¬ t.IsTag

/-- What all of some frames put around a page, the first one innermost. -/
def wrapAll (frames : List Frame) (page : String) : String :=
  String.join (frames.reverse.map before) ++ page ++ String.join (frames.map after)

end Frame

theorem fillAll_append (s : Scope) (xs ys : List Symbol) :
    fillAll s (xs ++ ys) = (do return (← fillAll s xs) ++ (← fillAll s ys)) := by
  induction xs with
  | nil =>
    rcases h : fillAll s ys with failure | text
    · simp [fillAll, h]
    · simp [fillAll, h]
  | cons x xs ih =>
    rw [List.cons_append, fillAll, fillAll, ih]
    simp only [bind_assoc, pure_bind, String.append_assoc]

/-- A tag among the symbols of a text is a token of it. -/
theorem Token.exists_of_tag_mem {text : String} {tag : Tag} (h : .tag tag ∈ symbolsOf text) :
    ∃ t ∈ ofText text, t.form = .tag tag := by
  obtain ⟨⟨form, source, location⟩, ht, hsymbol⟩ := List.mem_filterMap.mp h
  refine ⟨_, ht, ?_⟩
  cases form with
  | text => cases hsymbol
  | stop => cases hsymbol
  | tag found =>
    cases hsymbol
    rfl

/-- A token is no boundary if no symbol of the text is one. -/
theorem Token.isBoundary_of_symbols {text : String} (h : ∀ x ∈ symbolsOf text, x.isBoundary = false) :
    ∀ t ∈ ofText text, t.isBoundary = false := by
  intro t ht
  rcases t with ⟨form, source, location⟩
  cases form with
  | text => rfl
  | stop => rfl
  | tag found => exact h (.tag found) (List.mem_filterMap.mpr ⟨_, ht, rfl⟩)

namespace Frame

variable {f : Frame} {source : Source}

theorem symbolsOf_text (f : Frame) : symbolsOf f.text =
    symbolsOf f.before ++ .tag (.html wrappedName) :: symbolsOf f.after := by
  have hnormal : (Tag.html wrappedName).IsNormal :=
    Text.isRun_of_all (by decide) (by decide)
  have htext : f.text.toList =
      f.before.toList ++ (Tag.wrap (Tag.html wrappedName).body ++ f.after.toList) := by
    have htag : "\x7b@html children\x7d".toList = Tag.wrap (Tag.html wrappedName).body := by decide
    rw [text, String.toList_append, String.toList_append, htag, List.append_assoc]
  rw [symbolsOf_eq_map, symbolsOf_eq_map, symbolsOf_eq_map, htext, pieces_append_tag hnormal,
    List.map_append, List.map_cons]
  rfl

/-- A frame that is served has no tags that give a template its shape. -/
theorem IsServed.isBoundary (h : f.IsServed source) :
    ∀ t ∈ Token.ofText f.text, t.isBoundary = false := by
  have hno : ∀ {part : String}, (∀ t ∈ Token.ofText part, ¬ t.IsTag) →
      ∀ x ∈ symbolsOf part, x.isBoundary = false := by
    intro part hpart x hx
    cases x with
    | text content => rfl
    | tag tag =>
      obtain ⟨t, ht, hform⟩ := Token.exists_of_tag_mem hx
      exact (hpart t ht ⟨tag, hform⟩).elim
  apply Token.isBoundary_of_symbols
  intro x hx
  rw [symbolsOf_text, List.mem_append, List.mem_cons] at hx
  rcases hx with hx | rfl | hx
  · exact hno h.before x hx
  · rfl
  · exact hno h.after x hx

/-- A frame that is served is filled with what stands for the page in it. -/
theorem IsServed.fillAll_symbolsOf (h : f.IsServed source) (s : Scope) :
    fillAll s (symbolsOf f.text) =
      ((Tag.html wrappedName).fill s).map fun page => f.before ++ page ++ f.after := by
  have htext : ∀ {part : String}, (∀ t ∈ Token.ofText part, ¬ t.IsTag) →
      fillAll s (symbolsOf part) = .ok part := by
    intro part hpart
    rw [symbolsOf_eq_map, fill_pieces,
      interpolated_of_absent (Token.absent_of_forall_not_isTag hpart), String.ofList_toList]
  rw [symbolsOf_text, fillAll_append, htext h.before, fillAll, htext h.after, Symbol.fill]
  rcases (Tag.html wrappedName).fill s with failure | page
  · rfl
  · exact congrArg Except.ok (String.append_assoc ..).symm

end Frame

namespace Engine

variable {e : Engine} {mode : Mode} {source : Source}

/-- A frame is rendered as the page in it with the frame's texts around. -/
theorem exec_renderNamed_frame (hsource : e.source = some source) (hreach : source.reaches mode)
    {f : Frame} (hf : f.IsServed source) (s : Scope) {j : Journal} (hj : j.Genuine) :
    (Run.exec (e.renderNamed mode f.name s) j).1 =
      ((Tag.html wrappedName).fill s).map fun page => f.before ++ page ++ f.after := by
  obtain ⟨k, -, hgenuine, hexec⟩ := exec_named hsource hreach f.name j
  have htree := compileNamed_eq_of_trim (e := e)
    (fun trim => compile_eq_ok_of_flat hf.isBoundary f.name trim) (hgenuine hj)
  rw [hf.served] at hexec
  dsimp only at hexec
  rw [htree] at hexec
  rw [renderNamed_eq, Run.exec_bind, hexec]
  show (Run.exec (e.render mode ⟨_, f.name⟩ s) _).1 = _
  rw [exec_render, fragments_eq, exec_render_flat _ s (Symbol.isBoundary_of_flat hf.isBoundary),
    hf.fillAll_symbolsOf]

/-- A layout finds the page that it wraps as it is, whatever else the data has under its name. -/
theorem fill_wrapped (entries : Entries) (page : String) :
    (Tag.html wrappedName).fill
      (.ofGiven (some (.dict (entries.insert (.str wrappedName) (.str page))))) = .ok page := by
  have hword : Text.IsRun Text.isWord wrappedName := Text.isRun_of_all (by decide) (by decide)
  have hliteral : Path.literal? wrappedName.toList = none := by decide
  have hget : (entries.insert (.str wrappedName) (.str page)).get? wrappedName = some (.str page) := by
    have hbound := Bindings.get?_insert_self wrappedName (some (.str page)) (.ofEntries entries)
    rw [← Bindings.ofEntries_insert, Bindings.get?_ofEntries, Option.map_eq_some_iff] at hbound
    obtain ⟨v, hv, heq⟩ := hbound
    cases heq
    exact hv
  rw [Scope.ofGiven_dict, Tag.fill, Scope.shown?, Scope.value_of_word hword, hliteral]
  dsimp only
  rw [Scope.get_eq_ok (s := .ofData _) rfl, hget]
  rfl

/-- A stage with a frame puts the frame around the page. -/
theorem exec_stage_frame (hsource : e.source = some source) (hreach : source.reaches mode)
    {f : Frame} (hf : f.IsServed source) (view : String) (entries : Entries) (page : String)
    {j : Journal} (hj : j.Genuine) :
    (Run.exec (e.stage mode view entries page f.name) j).1 =
      .ok (f.before ++ page ++ f.after) := by
  obtain ⟨k, hnote, hk⟩ := exec_noteWrapping mode view f.name j
  rw [stage, Run.exec_bind, hnote]
  dsimp only
  rw [exec_renderNamed_frame hsource hreach hf _ (hj.congr hk.cache), fill_wrapped]
  rfl

/-- Frames are put around a page one after another. -/
theorem exec_foldlM_frames (hsource : e.source = some source) (hreach : source.reaches mode)
    {frames : List Frame} (hframes : ∀ f ∈ frames, f.IsServed source) (view : String)
    (entries : Entries) (page : String) {j : Journal} (hj : j.Genuine) :
    (Run.exec ((frames.map Frame.name).foldlM (e.stage mode view entries) page) j).1 =
      .ok (Frame.wrapAll frames page) := by
  induction frames generalizing page j with
  | nil =>
    show Except.ok page = _
    simp [Frame.wrapAll]
  | cons f rest ih =>
    obtain ⟨hf, hrest⟩ := List.forall_mem_cons.mp hframes
    have hpage : Run.exec (e.stage mode view entries page f.name) j =
        (.ok (f.before ++ page ++ f.after), (Run.exec (e.stage mode view entries page f.name) j).2) :=
      Prod.ext (exec_stage_frame hsource hreach hf view entries page hj) rfl
    have hgenuine := (e.stage_ensures mode view entries page f.name j hj).2
    rw [List.map_cons, List.foldlM_cons, Run.exec_bind, hpage]
    dsimp only
    rw [ih hrest _ hgenuine]
    simp only [Frame.wrapAll, List.reverse_cons, List.map_append, List.map_cons, List.map_nil,
      String.join_append, String.join_cons, String.join_nil, String.append_empty,
      String.append_assoc]

/-- Frames are put around the page of the view, which is not touched. -/
theorem exec_composed_frames (hsource : e.source = some source) (hreach : source.reaches mode)
    {frames : List Frame} (hframes : ∀ f ∈ frames, f.IsServed source) (view : String)
    (entries : Entries) {j : Journal} (hj : j.Genuine) :
    (Run.exec (e.composed mode view entries (frames.map Frame.name)) j).1 =
      (Run.exec (e.renderNamed mode view (.ofGiven (some (.dict entries)))) j).1.map
        (Frame.wrapAll frames) := by
  have hk := (e.renderNamed_ensures mode view (.ofGiven (some (.dict entries))) j hj).2
  rw [composed, Run.exec_bind]
  rcases hview : Run.exec (e.renderNamed mode view (.ofGiven (some (.dict entries)))) j with
    ⟨failure | page, k⟩
  · rfl
  · rw [hview] at hk
    exact exec_foldlM_frames hsource hreach hframes view entries page hk

end Engine

/-! ## Stages that fail -/

/-- The templates that were asked for to be rendered by themselves, in order. -/
def Journal.started (j : Journal) : List String :=
  (j.loads.filter fun load => load.chain = []).map Load.name

theorem Journal.started_congr {j k : Journal} (h : k.loads = j.loads) : k.started = j.started := by
  rw [started, started, h]

/-- What is asked for inside a template does not begin a template by itself. -/
theorem Requests.chain_ne_nil {limit : Int} {chain : Chain} {loads : List Load}
    (h : Requests limit chain loads) (hchain : chain ≠ []) : ∀ load ∈ loads, load.chain ≠ [] := by
  induction h with
  | nil => exact List.forall_mem_nil _
  | cons _ _ _ _ ihinner ihrest =>
    refine List.forall_mem_cons.mpr ⟨hchain, List.forall_mem_append.mpr ⟨?_, ihrest hchain⟩⟩
    exact ihinner (List.append_ne_nil_of_right_ne_nil _ (List.cons_ne_nil _ _))

namespace Engine

section Started

variable (e : Engine) (mode : Mode)

/-- A template that is rendered asks for no other template but inside itself. -/
theorem render_started (template : Compiled) (s : Scope) (j : Journal) :
    (Run.exec (e.render mode template s) j).2.started = j.started := by
  have hasks : Run.Asks (Requests e.settings.maxDepth (rootChain template.name))
      (e.fragments mode template s) := by
    rw [fragments_eq, ← e.depthLeft_rootChain template.name]
    exact Tree.render_asks (fun u name => (e.embed_depthLeft mode).asks _ u name) s
  obtain ⟨loads, hloads, hrequests⟩ := hasks j
  have hinside := hrequests.chain_ne_nil (List.cons_ne_nil _ _)
  rw [exec_render]
  show Journal.started _ = _
  rw [Journal.started, hloads, List.filter_append, List.map_append]
  have hnone : loads.filter (fun load => load.chain = []) = [] := by
    apply List.filter_eq_nil_iff.mpr
    intro load hload
    simpa using hinside load hload
  rw [hnone, List.map_nil, List.append_nil]
  rfl

end Started

section Reached

variable {e : Engine} {mode : Mode} {source : Source}

theorem named_started (hsource : e.source = some source) (hreach : source.reaches mode)
    (name : String) (j : Journal) :
    (Run.exec (e.named mode name) j).2.started = j.started ++ [name] := by
  obtain ⟨k, hloads, -, hexec⟩ := exec_named hsource hreach name j
  have hk : k.started = j.started ++ [name] := by
    rw [Journal.started, hloads, List.filter_append, List.map_append]
    rfl
  rw [hexec, ← hk]
  rcases (source.fetch name).2 with failure | text
  · rfl
  · exact Journal.started_congr (e.compileNamed_loads name text k)

theorem renderNamed_started (hsource : e.source = some source) (hreach : source.reaches mode)
    (name : String) (s : Scope) (j : Journal) :
    (Run.exec (e.renderNamed mode name s) j).2.started = j.started ++ [name] := by
  have hnamed := named_started hsource hreach name j
  rw [renderNamed_eq, Run.exec_bind]
  rcases hexec : Run.exec (e.named mode name) j with ⟨failure | template, k⟩
  · rw [hexec] at hnamed
    exact hnamed
  · rw [hexec] at hnamed
    exact (e.render_started mode template s k).trans hnamed

theorem stage_started (hsource : e.source = some source) (hreach : source.reaches mode)
    (view : String) (entries : Entries) (page layout : String) (j : Journal) :
    (Run.exec (e.stage mode view entries page layout) j).2.started = j.started ++ [layout] := by
  obtain ⟨k, hnote, hk⟩ := exec_noteWrapping mode view layout j
  rw [stage, Run.exec_bind, hnote, ← Journal.started_congr hk.loads]
  exact renderNamed_started hsource hreach layout _ k

/-- Layouts that are all rendered are asked for one after another. -/
theorem foldlM_started (hsource : e.source = some source) (hreach : source.reaches mode)
    {view : String} {entries : Entries} {page last : String} {layouts : List String} {j k : Journal}
    (h : Run.exec (layouts.foldlM (e.stage mode view entries) page) j = (.ok last, k)) :
    k.started = j.started ++ layouts := by
  induction layouts generalizing page j with
  | nil =>
    cases h
    exact (List.append_nil _).symm
  | cons layout rest ih =>
    have hstage := stage_started hsource hreach view entries page layout j
    rw [List.foldlM_cons] at h
    obtain ⟨next, k', hexec, hrest⟩ := Run.exec_bind_eq_ok.mp h
    rw [hexec] at hstage
    rw [ih hrest, hstage, List.append_assoc]
    rfl

/-- A view and layouts that are all rendered are asked for one after another. -/
theorem composed_started (hsource : e.source = some source) (hreach : source.reaches mode)
    {view : String} {entries : Entries} {page : String} {layouts : List String} {j k : Journal}
    (h : Run.exec (e.composed mode view entries layouts) j = (.ok page, k)) :
    k.started = j.started ++ view :: layouts := by
  have hview := renderNamed_started hsource hreach view (.ofGiven (some (.dict entries))) j
  obtain ⟨first, k', hexec, hlayouts⟩ := Run.exec_bind_eq_ok.mp h
  rw [hexec] at hview
  rw [foldlM_started hsource hreach hlayouts, hview, List.append_assoc]
  rfl

/-- A template that cannot be loaded, or whose text does not compile, and the failure of that. -/
inductive Refuses (e : Engine) (source : Source) (name : String) : Failure → Prop where
  | notLoaded {failure : Failure} : (source.fetch name).2 = .error failure →
      Refuses e source name failure
  | notCompiled {text : String} {error : TemplateError} : (source.fetch name).2 = .ok text →
      Curly.compile text name e.settings.dropGaps = .error error →
      Refuses e source name (.badTemplate error)

/-- A template that cannot be loaded or compiled is not found. -/
theorem Refuses.named {name : String} {failure : Failure} (h : e.Refuses source name failure)
    (hsource : e.source = some source) (hreach : source.reaches mode) {j : Journal}
    (hj : j.Genuine) : (Run.exec (e.named mode name) j).1 = .error failure := by
  obtain ⟨k, -, hgenuine, hexec⟩ := exec_named hsource hreach name j
  rw [hexec]
  cases h with
  | notLoaded hfetch => rw [hfetch]
  | notCompiled hfetch hcompile =>
    rw [hfetch]
    dsimp only
    rw [compileNamed_eq_of_trim (compile_eq_error_of_trim hcompile) (hgenuine hj)]
    rfl

theorem Refuses.renderNamed {name : String} {failure : Failure} (h : e.Refuses source name failure)
    (hsource : e.source = some source) (hreach : source.reaches mode) (s : Scope) {j : Journal}
    (hj : j.Genuine) : (Run.exec (e.renderNamed mode name s) j).1 = .error failure := by
  have hnamed : Run.exec (e.named mode name) j =
      (.error failure, (Run.exec (e.named mode name) j).2) :=
    Prod.ext (h.named hsource hreach hj) rfl
  rw [Engine.renderNamed_eq, Run.exec_bind_eq_error.mpr (.inl hnamed)]

theorem Refuses.stage {layout : String} {failure : Failure} (h : e.Refuses source layout failure)
    (hsource : e.source = some source) (hreach : source.reaches mode) (view : String)
    (entries : Entries) (page : String) {j : Journal} (hj : j.Genuine) :
    (Run.exec (e.stage mode view entries page layout) j).1 = .error failure := by
  obtain ⟨k, hnote, hk⟩ := exec_noteWrapping mode view layout j
  rw [Engine.stage, Run.exec_bind, hnote]
  exact h.renderNamed hsource hreach _ (hj.congr hk.cache)

end Reached

section Failing

variable {e : Engine} {mode : Mode} {view : String} {entries : Entries} {failure : Failure}

/-- A view that fails is the last thing that is tried. -/
theorem exec_composed_of_view {j k : Journal}
    (h : Run.exec (e.renderNamed mode view (.ofGiven (some (.dict entries)))) j = (.error failure, k))
    (layouts : List String) :
    Run.exec (e.composed mode view entries layouts) j = (.error failure, k) :=
  Run.exec_bind_eq_error.mpr (.inl h)

/-- A layout that fails is the last thing that is tried. -/
theorem exec_composed_of_layout {before : List String} {layout page : String} {j k k' : Journal}
    (hbefore : Run.exec (e.composed mode view entries before) j = (.ok page, k))
    (hlayout : Run.exec (e.stage mode view entries page layout) k = (.error failure, k'))
    (after : List String) :
    Run.exec (e.composed mode view entries (before ++ layout :: after)) j = (.error failure, k') := by
  rw [composed_append]
  refine Run.exec_bind_eq_error.mpr (.inr ⟨page, k, hbefore, ?_⟩)
  exact Run.exec_bind_eq_error.mpr (.inl hlayout)

/-- Layouts that fail have a first one that does, and its failure is theirs. -/
theorem exists_of_foldlM_eq_error {layouts : List String} {page : String} {j k' : Journal}
    (h : Run.exec (layouts.foldlM (e.stage mode view entries) page) j = (.error failure, k')) :
    ∃ before layout after last k, layouts = before ++ layout :: after ∧
      Run.exec (before.foldlM (e.stage mode view entries) page) j = (.ok last, k) ∧
      Run.exec (e.stage mode view entries last layout) k = (.error failure, k') := by
  induction layouts generalizing page j with
  | nil => cases h
  | cons layout rest ih =>
    rw [List.foldlM_cons] at h
    rcases Run.exec_bind_eq_error.mp h with hfails | ⟨next, k, hexec, hrest⟩
    · exact ⟨[], layout, rest, page, j, rfl, rfl, hfails⟩
    · obtain ⟨before, failing, after, last, k'', rfl, hbefore, hfailing⟩ := ih hrest
      refine ⟨layout :: before, failing, after, last, k'', rfl, ?_, hfailing⟩
      rw [List.foldlM_cons]
      exact Run.exec_bind_eq_ok.mpr ⟨next, k, hexec, hbefore⟩

/-- A composed page fails where its view or one of its layouts does, the first that does. -/
theorem exists_of_composed_eq_error {layouts : List String} {j k' : Journal}
    (h : Run.exec (e.composed mode view entries layouts) j = (.error failure, k')) :
    Run.exec (e.renderNamed mode view (.ofGiven (some (.dict entries)))) j = (.error failure, k') ∨
      ∃ before layout after page k, layouts = before ++ layout :: after ∧
        Run.exec (e.composed mode view entries before) j = (.ok page, k) ∧
        Run.exec (e.stage mode view entries page layout) k = (.error failure, k') := by
  rcases Run.exec_bind_eq_error.mp h with hview | ⟨first, k, hexec, hlayouts⟩
  · exact .inl hview
  · obtain ⟨before, layout, after, page, k'', rfl, hbefore, hlayout⟩ :=
      exists_of_foldlM_eq_error hlayouts
    exact .inr ⟨before, layout, after, page, k'', rfl,
      Run.exec_bind_eq_ok.mpr ⟨first, k, hexec, hbefore⟩, hlayout⟩

end Failing

/-- Wrapping is composing. Over a source that delivers, and for data that is a mapping and an
extension that adds entries to it or none, the wrapped page is composed over the data overwritten by
what the extension adds: the view is rendered over that mapping, and each layout over the mapping with
the page so far under the reserved name, whatever the data or the extension have there. Layouts that
only frame the page put their texts around the page of the view, which they leave as it is. A view and
layouts that are all rendered are asked for in order. The first of them that cannot be loaded or
compiled fails the whole with its own failure, and none behind it is asked for; and whatever fails the
whole is the failure of the view or, after a page, of a layout, with nothing done after it. -/
theorem renderWrapped_composes {e : Engine} {mode : Mode} {source : Source} {data : Option Value}
    {extension : Option Extension} {entries extra : Entries} (hsource : e.source = some source)
    (hreach : source.reaches mode) (hdata : (Scope.ofGiven data).data.asEntries = .ok entries)
    (hextra : Extension.Adds extension entries extra) (hdistinct : DistinctKeys extra)
    (view : String) (layouts : List String) {j : Journal} (hj : j.Genuine) :
    let whole := entries.overwrite extra
    let wrapped := fun layouts => e.renderWrapped mode view layouts data extension
    (wrapped layouts = do
      let page ← e.renderNamed mode view (.ofGiven (some (.dict whole)))
      layouts.foldlM (fun page layout => do
        noteWrapping mode view layout
        e.renderNamed mode layout
          (.ofGiven (some (.dict (whole.insert (.str wrappedName) (.str page)))))) page) ∧
    (∀ frames : List Frame, layouts = frames.map Frame.name → (∀ f ∈ frames, f.IsServed source) →
      (Run.exec (wrapped layouts) j).1 =
        (Run.exec (e.renderNamed mode view (.ofGiven (some (.dict whole)))) j).1.map
          (Frame.wrapAll frames)) ∧
    (∀ page k, Run.exec (wrapped layouts) j = (.ok page, k) →
      k.started = j.started ++ view :: layouts) ∧
    (∀ failure, e.Refuses source view failure →
      (Run.exec (wrapped layouts) j).1 = .error failure ∧
        (Run.exec (wrapped layouts) j).2.started = j.started ++ [view]) ∧
    (∀ before layout after page k failure, layouts = before ++ layout :: after →
      Run.exec (wrapped before) j = (.ok page, k) → e.Refuses source layout failure →
      (Run.exec (wrapped layouts) j).1 = .error failure ∧
        (Run.exec (wrapped layouts) j).2.started = j.started ++ view :: (before ++ [layout])) ∧
    ∀ failure k', Run.exec (wrapped layouts) j = (.error failure, k') →
      Run.exec (e.renderNamed mode view (.ofGiven (some (.dict whole)))) j = (.error failure, k') ∨
      ∃ before layout after page k, layouts = before ++ layout :: after ∧
        Run.exec (wrapped before) j = (.ok page, k) ∧
        Run.exec (e.stage mode view whole page layout) k = (.error failure, k') := by
  intro whole wrapped
  -- the first equation makes a fold of all that is wrapped; the others are about that fold
  have hwrapped : ∀ layouts, wrapped layouts = e.composed mode view whole layouts :=
    e.renderWrapped_eq_composed mode hdata hextra hdistinct view
  refine ⟨hwrapped layouts, ?_, ?_, ?_, ?_, ?_⟩
  · rintro frames rfl hframes
    rw [hwrapped]
    exact exec_composed_frames hsource hreach hframes view whole hj
  · intro page k hexec
    rw [hwrapped] at hexec
    exact composed_started hsource hreach hexec
  · intro failure hview
    have hresult := hview.renderNamed hsource hreach (.ofGiven (some (.dict whole))) hj
    have hstarted := renderNamed_started hsource hreach view (.ofGiven (some (.dict whole))) j
    rw [hwrapped, exec_composed_of_view (Prod.ext hresult rfl) layouts]
    exact ⟨rfl, hstarted⟩
  · rintro before layout after page k failure rfl hbefore hlayout
    rw [hwrapped] at hbefore
    -- the layouts in front leave a journal in which the refusal is still one
    have hk : k.Genuine := by
      have hgenuine := (e.composed_ensures mode view whole before j hj).2
      rwa [hbefore] at hgenuine
    have hresult := hlayout.stage hsource hreach view whole page hk
    have hstarted := stage_started hsource hreach view whole page layout k
    rw [composed_started hsource hreach hbefore, List.append_assoc, List.cons_append] at hstarted
    rw [hwrapped, exec_composed_of_layout hbefore (Prod.ext hresult rfl) after]
    exact ⟨rfl, hstarted⟩
  · intro failure k' hexec
    rw [hwrapped] at hexec
    simp only [hwrapped]
    exact exists_of_composed_eq_error hexec

/-- A page and two layouts, each of them a frame around what it finds under the reserved name. -/
def framedSource : Source :=
  .ofTable [("page", "[\x7b@html children\x7d]"), ("inner", "<i>\x7b@html children\x7d</i>"),
    ("outer", "<o>\x7b@html children\x7d</o>")]

/-- The page in some layouts, over data with a text under the reserved name and a title added. -/
def framedPage (layouts : List String) : Run String :=
  Engine.renderWrapped ⟨some framedSource, {}⟩ .blocking "page" layouts
    (some (.dict [(.str wrappedName, .str "<own>")]))
    (some (.ofValue (some (.dict [(.str "title", .str "T")]))))

theorem isServed_framedSource {f : Frame} (hfetch : (framedSource.fetch f.name).2 = .ok f.text)
    (hbefore : '\x7b' ∉ f.before.toList) (hafter : '\x7b' ∉ f.after.toList) :
    f.IsServed framedSource := by
  have hno : ∀ {part : String}, '\x7b' ∉ part.toList → ∀ t ∈ Token.ofText part, ¬ t.IsTag := by
    intro part hpart t ht htag
    obtain ⟨before, body, tag, after, heq, -⟩ := Token.tag_mem_ofText_iff.mp ⟨ht, htag⟩
    apply hpart
    rw [heq]
    exact List.mem_append_right before List.mem_cons_self
  exact ⟨hfetch, hno hbefore, hno hafter⟩

/-- The view shows what the data has under the reserved name, and the layouts show the page. Where a
layout is missing in between, the outer one is not asked for. -/
theorem renderWrapped_composes_framed :
    (Run.exec (framedPage ["inner", "outer"]) (.start none)).1 = .ok "<o><i>[<own>]</i></o>" ∧
      (Run.exec (framedPage ["inner", "gone", "outer"]) (.start none)).1 =
        .error (.notFound "gone" none) ∧
      (Run.exec (framedPage ["inner", "gone", "outer"]) (.start none)).2.started =
        ["page", "inner", "gone"] := by
  have hpage : Frame.IsServed ⟨"page", "[", "]"⟩ framedSource :=
    isServed_framedSource rfl (by decide) (by decide)
  have hinner : Frame.IsServed ⟨"inner", "<i>", "</i>"⟩ framedSource :=
    isServed_framedSource rfl (by decide) (by decide)
  have houter : Frame.IsServed ⟨"outer", "<o>", "</o>"⟩ framedSource :=
    isServed_framedSource rfl (by decide) (by decide)
  have hgenuine : (Journal.start none).Genuine := fun _ hcache => (nomatch hcache)
  have hdistinct : DistinctKeys [(Key.str "title", Value.str "T")] := List.pairwise_singleton _ _
  have hcomposes := fun layouts => @renderWrapped_composes ⟨some framedSource, {}⟩ .blocking
    framedSource (some (.dict [(.str wrappedName, .str "<own>")]))
    (some (.ofValue (some (.dict [(.str "title", .str "T")])))) _ _ rfl rfl rfl
    (Extension.adds_ofValue rfl _) hdistinct "page" layouts _ hgenuine
  -- the view is a frame around the text of the data
  have hview := @exec_renderNamed_frame ⟨some framedSource, {}⟩ .blocking framedSource rfl rfl _ hpage
    (.ofGiven (some (.dict [(.str wrappedName, .str "<own>"), (.str "title", .str "T")]))) _ hgenuine
  have hown : (Tag.html wrappedName).fill
      (.ofGiven (some (.dict [(.str wrappedName, .str "<own>"), (.str "title", .str "T")]))) =
        .ok "<own>" := rfl
  rw [hown] at hview
  have hframed := fun frames => (hcomposes (frames.map Frame.name)).2.1 frames rfl
  have hone := hframed [⟨"inner", "<i>", "</i>"⟩] (List.forall_mem_singleton.mpr hinner)
  have htwo := hframed [⟨"inner", "<i>", "</i>"⟩, ⟨"outer", "<o>", "</o>"⟩]
    (List.forall_mem_cons.mpr ⟨hinner, List.forall_mem_singleton.mpr houter⟩)
  have hwrapped : (Run.exec (framedPage ["inner"]) (.start none)).1 = .ok "<i>[<own>]</i>" :=
    hone.trans (congrArg (Except.map _) hview)
  have hgone := (hcomposes ["inner", "gone", "outer"]).2.2.2.2.1 ["inner"] "gone" ["outer"] _ _ _ rfl
    (Prod.ext hwrapped rfl) (.notLoaded rfl)
  exact ⟨htwo.trans (congrArg (Except.map _) hview), hgone⟩

end Engine

end Curly
