import Curly.Proofs.Gaps
import Curly.Proofs.Places

/-!
# What is blamed

A text that is no template is blamed at one of its tags, and `compile_error_blames` says at which.
A sequence of symbols that begins some template is `Completable`. If there is a first tag through
which the text is not completable any more, it closes a block or begins an `else`, and it is blamed.
Otherwise the text merely ends inside blocks: these are its `OpenBlocks`, and the outermost of them
is blamed.

Both rest on what a reading keeps: its open blocks are those of the tokens that it has read
(`Reading.openBlocks_iff`). So the tokens that can be read are those that can be completed
(`completable_iff`). The place of a tag is told by the text before it (`Token.location_eq`).
-/

namespace Curly

/-! ## Beginnings of templates -/

/-- The symbols are those of the beginning of a template. -/
def Completable (xs : List Symbol) : Prop := ∃ more, WellFormed (xs ++ more)

/-- The symbols of tokens. -/
def Token.symbols (tokens : List Token) : List Symbol := tokens.filterMap Token.symbol?

theorem Completable.of_append {xs ys : List Symbol} (h : Completable (xs ++ ys)) :
    Completable xs := by
  rcases h with ⟨more, hmore⟩
  exact ⟨ys ++ more, List.append_assoc xs ys more ▸ hmore⟩

@[simp] theorem Token.symbols_append (tokens others : List Token) :
    Token.symbols (tokens ++ others) = Token.symbols tokens ++ Token.symbols others :=
  List.filterMap_append

/-- A token with a symbol, at any place. -/
def Symbol.token : Symbol → Token
  | text content => ⟨.text, content, .start⟩
  | tag found => ⟨.tag found, "", .start⟩

theorem Symbol.symbols_map_token (xs : List Symbol) : Token.symbols (xs.map Symbol.token) = xs := by
  induction xs with
  | nil => rfl
  | cons x rest ih =>
    have hx : x.token.symbol? = some x := by
      cases x with
      | text content => rfl
      | tag found => rfl
    rw [Token.symbols, List.map_cons, List.filterMap_cons_some hx]
    exact congrArg _ ih

/-! ## Open blocks -/

/-- The kind of block that a token opens. -/
def Token.opens? (t : Token) : Option BlockKind :=
  match t.form with
  | .tag (.ifOpen _) => some .cond
  | .tag (.eachOpen ..) => some .each
  | _ => none

/-- A block that is open: its tag, its kind, and whether an `else` in it has begun its other
branch. -/
structure OpenBlock where
  tag : Token
  kind : BlockKind
  inElse : Bool
deriving DecidableEq, Repr

/-- The blocks that are open after tokens, the innermost first. What stands outside of them and in
each of them is well-formed by itself. -/
inductive OpenBlocks : List Token → List OpenBlock → Prop where
  | none {tokens : List Token} : WellFormed (Token.symbols tokens) → OpenBlocks tokens []
  | body {outside inside : List Token} {blocks : List OpenBlock} {t : Token} {kind : BlockKind} :
      OpenBlocks outside blocks → t.opens? = some kind → WellFormed (Token.symbols inside) →
      OpenBlocks (outside ++ t :: inside) (⟨t, kind, false⟩ :: blocks)
  | other {outside body inside : List Token} {blocks : List OpenBlock} {t mark : Token} :
      OpenBlocks outside blocks → t.opens? = some .cond → WellFormed (Token.symbols body) →
      mark.form = .tag .elseMark → WellFormed (Token.symbols inside) →
      OpenBlocks (outside ++ t :: (body ++ mark :: inside)) (⟨t, .cond, true⟩ :: blocks)

/-- The tag that opened a block. -/
def PendingBlock.tag (b : PendingBlock) : Token := ⟨.tag b.opening.tag, b.source, b.location⟩

/-- What is open of a block, without its nodes. -/
def PendingBlock.outline (b : PendingBlock) : OpenBlock :=
  ⟨b.tag, b.opening.kind, b.otherwise.isSome⟩

theorem PendingBlock.outline_push (b : PendingBlock) (n : Node) :
    (b.push n).outline = b.outline := by
  rcases b with ⟨opening, source, location, body, otherwise⟩
  cases otherwise with
  | none => rfl
  | some nodes => rfl

namespace Reading

/-- The blocks that are open in a reading, without their nodes. -/
def outlines (r : Reading) : List OpenBlock := r.blocks.map PendingBlock.outline

theorem outlines_push (r : Reading) (n : Node) : (r.push n).outlines = r.outlines := by
  rcases r with ⟨root, blocks⟩
  cases blocks with
  | nil => rfl
  | cons b outer => exact congrArg (· :: _) (b.outline_push n)

end Reading

/-- A well-formed sequence goes on in the innermost block. -/
theorem OpenBlocks.append {tokens more : List Token} {blocks : List OpenBlock}
    (h : OpenBlocks tokens blocks) (hmore : WellFormed (Token.symbols more)) :
    OpenBlocks (tokens ++ more) blocks := by
  cases h with
  | none hwf =>
    refine .none ?_
    rw [Token.symbols_append]
    exact hwf.append hmore
  | body houtside hopens hinside =>
    rw [List.append_assoc, List.cons_append]
    refine .body houtside hopens ?_
    rw [Token.symbols_append]
    exact hinside.append hmore
  | other houtside hopens hbody hmark hinside =>
    rw [List.append_assoc, List.cons_append, List.append_assoc, List.cons_append]
    refine .other houtside hopens hbody hmark ?_
    rw [Token.symbols_append]
    exact hinside.append hmore

theorem Token.symbols_cons_of_tag {t : Token} {tag : Tag} (h : t.form = .tag tag)
    (rest : List Token) : Token.symbols (t :: rest) = .tag tag :: Token.symbols rest := by
  refine List.filterMap_cons_some ?_
  rw [Token.symbol?, h]

theorem Token.exists_form_of_opens? {t : Token} {kind : BlockKind} (h : t.opens? = some kind) :
    ∃ opening : Opening, opening.kind = kind ∧ t.form = .tag opening.tag := by
  rw [Token.opens?] at h
  split at h
  · next condition hform =>
    cases h
    exact ⟨.cond condition, rfl, hform⟩
  · next collection item index hform =>
    cases h
    exact ⟨.each collection item index, rfl, hform⟩
  · cases h

/-- An `else` goes on in the other branch of the innermost block. -/
theorem OpenBlocks.beginElse {tokens : List Token} {tag : Token} {blocks : List OpenBlock}
    {t : Token} (h : OpenBlocks tokens (⟨tag, .cond, false⟩ :: blocks))
    (ht : t.form = .tag .elseMark) : OpenBlocks (tokens ++ [t]) (⟨tag, .cond, true⟩ :: blocks) := by
  cases h with
  | body houtside hopens hinside =>
    rw [List.append_assoc]
    exact .other houtside hopens hinside ht .nil

/-- A block with its closing tag is well-formed. -/
theorem OpenBlocks.close {tokens : List Token} {b : OpenBlock} {blocks : List OpenBlock} {t : Token}
    (h : OpenBlocks tokens (b :: blocks)) (ht : t.form = .tag (.close b.kind)) :
    OpenBlocks (tokens ++ [t]) blocks := by
  cases h with
  | body houtside hopens hinside =>
    rw [List.append_assoc]
    refine houtside.append ?_
    rcases Token.exists_form_of_opens? hopens with ⟨opening, hkind, hform⟩
    rw [List.cons_append, Token.symbols_cons_of_tag hform, Token.symbols_append,
      Token.symbols_cons_of_tag ht]
    cases opening with
    | cond condition =>
      cases hkind
      exact .cond hinside .nil
    | each collection item index =>
      cases hkind
      exact .each hinside .nil
  | other houtside hopens hbody hmark hinside =>
    rw [List.append_assoc]
    refine houtside.append ?_
    rcases Token.exists_form_of_opens? hopens with ⟨opening, hkind, hform⟩
    rw [List.cons_append, Token.symbols_cons_of_tag hform, List.append_assoc, Token.symbols_append,
      List.cons_append, Token.symbols_cons_of_tag hmark, Token.symbols_append,
      Token.symbols_cons_of_tag ht]
    cases opening with
    | cond condition => exact .condElse hbody hinside .nil
    -- a loop has no second branch, so nothing of the kind is open
    | each collection item index => cases hkind

/-- The tags of open blocks are among the tokens. -/
theorem OpenBlocks.tag_mem {tokens : List Token} {blocks : List OpenBlock}
    (h : OpenBlocks tokens blocks) {b : OpenBlock} (hb : b ∈ blocks) : b.tag ∈ tokens := by
  induction h with
  | none hwf => cases hb
  | body _ _ _ ih =>
    rcases List.mem_cons.mp hb with rfl | hb
    · exact List.mem_append_right _ List.mem_cons_self
    · exact List.mem_append_left _ (ih hb)
  | other _ _ _ _ _ ih =>
    rcases List.mem_cons.mp hb with rfl | hb
    · exact List.mem_append_right _ List.mem_cons_self
    · exact List.mem_append_left _ (ih hb)

namespace Reading

/-! ## What a reading keeps -/

/-- A symbol that is no tag of a block is well-formed by itself. -/
theorem openBlocks_push {tokens : List Token} {r : Reading} {t : Token} {n : Node}
    (h : OpenBlocks tokens r.outlines) (ht : WellFormed (Token.symbols [t])) :
    OpenBlocks (tokens ++ [t]) (r.push n).outlines := by
  rw [outlines_push]
  exact h.append ht

theorem openBlocks_beginElse {tokens : List Token} {r r' : Reading} {t : Token}
    (h : OpenBlocks tokens r.outlines) (ht : t.form = .tag .elseMark) (hread : r.beginElse = .ok r') :
    OpenBlocks (tokens ++ [t]) r'.outlines := by
  rcases r with ⟨root, _ | ⟨⟨opening, source, location, body, otherwise⟩, outer⟩⟩
  · cases hread
  cases opening with
  | cond condition =>
    cases otherwise with
    | none =>
      cases hread
      exact h.beginElse ht
    | some nodes => cases hread
  | each collection item index => cases hread

theorem openBlocks_closeBlock {tokens : List Token} {r r' : Reading} {t : Token} {kind : BlockKind}
    (h : OpenBlocks tokens r.outlines) (ht : t.form = .tag (.close kind))
    (hread : r.closeBlock kind = .ok r') : OpenBlocks (tokens ++ [t]) r'.outlines := by
  rcases r with ⟨root, _ | ⟨b, outer⟩⟩
  · cases hread
  simp only [Reading.closeBlock] at hread
  split at hread
  · cases hread
  next hkind =>
  cases hread
  rw [outlines_push]
  have hsame : b.opening.kind = kind := Decidable.not_not.mp hkind
  exact OpenBlocks.close (b := b.outline) h (by rw [ht, ← hsame]; rfl)

/-- A step of a reading: what is open after a token is what is open among the tokens up to it. -/
theorem openBlocks_read {tokens : List Token} {r r' : Reading} {t : Token}
    (h : OpenBlocks tokens r.outlines) (hread : r.read t = .ok r') :
    OpenBlocks (tokens ++ [t]) r'.outlines := by
  rcases t with ⟨form, source, location⟩
  cases form with
  | text =>
    cases hread
    exact openBlocks_push h (.text .nil)
  | stop =>
    cases hread
    exact h.append .nil
  | tag tag =>
    rcases htag : r.readTag ⟨.tag tag, source, location⟩ tag with fault | next
    · simp [Reading.read, htag] at hread
    simp only [Reading.read, htag, mapError_ok] at hread
    cases hread
    -- only four of the tags change what is open
    cases tag with
    | value path =>
      cases htag
      exact openBlocks_push h (.value .nil)
    | json path =>
      cases htag
      exact openBlocks_push h (.json .nil)
    | html path =>
      cases htag
      exact openBlocks_push h (.html .nil)
    | embed name =>
      cases htag
      exact openBlocks_push h (.embed .nil)
    | ifOpen condition =>
      cases htag
      exact .body h rfl .nil
    | eachOpen collection item index =>
      cases htag
      exact .body h rfl .nil
    | elseMark => exact openBlocks_beginElse h rfl htag
    | close kind => exact openBlocks_closeBlock h rfl htag

/-- A run of a reading: what is open after tokens is what is open among them. -/
theorem openBlocks_foldlM {before tokens : List Token} {r r' : Reading}
    (h : OpenBlocks before r.outlines) (hread : tokens.foldlM Reading.read r = .ok r') :
    OpenBlocks (before ++ tokens) r'.outlines := by
  -- the induction goes over the tokens still to be read, with those before them kept
  induction tokens generalizing before r with
  | nil =>
    cases hread
    rw [List.append_nil]
    exact h
  | cons t rest ih =>
    rw [List.foldlM_cons] at hread
    rcases hnext : r.read t with fault | next
    · rw [hnext] at hread
      cases hread
    · rw [hnext] at hread
      have hrest := ih (openBlocks_read h hnext) hread
      rwa [List.append_assoc] at hrest

/-- A well-formed sequence is read by pushing nodes. -/
theorem exists_foldlM_read_eq {tokens : List Token} (h : WellFormed (Token.symbols tokens)) :
    ∃ tree : Tree, ∀ r : Reading, tokens.foldlM Reading.read r = .ok (tree.foldl push r) := by
  rcases h.exists_tree with ⟨tree, htree, hsymbols⟩
  have hall : tokens.filterMap Token.symbol? = Tree.symbols tree ++ [] := by
    rw [List.append_nil, hsymbols]
    rfl
  rcases foldlM_read_symbols htree hall with ⟨more, hmore, hread⟩
  refine ⟨tree, fun r => ?_⟩
  rw [hread, foldlM_read_of_none (List.filterMap_eq_nil_iff.mp hmore)]

theorem outlines_foldl_push (tree : Tree) (r : Reading) :
    (tree.foldl push r).outlines = r.outlines := by
  induction tree generalizing r with
  | nil => rfl
  | cons n rest ih => rw [List.foldl_cons, ih, outlines_push]

theorem read_of_opens? {t : Token} {kind : BlockKind} (h : t.opens? = some kind) (r : Reading) :
    ∃ r', r.read t = .ok r' ∧ r'.outlines = ⟨t, kind, false⟩ :: r.outlines := by
  rcases t with ⟨form, source, location⟩
  rcases Token.exists_form_of_opens? h with ⟨opening, rfl, hform⟩
  cases hform
  cases opening with
  | cond condition => exact ⟨_, rfl, rfl⟩
  | each collection item index => exact ⟨_, rfl, rfl⟩

theorem read_of_elseMark {mark tag : Token} {blocks : List OpenBlock} {r : Reading}
    (hmark : mark.form = .tag .elseMark) (h : r.outlines = ⟨tag, .cond, false⟩ :: blocks) :
    ∃ r', r.read mark = .ok r' ∧ r'.outlines = ⟨tag, .cond, true⟩ :: blocks := by
  rcases mark with ⟨form, source, location⟩
  cases hmark
  rcases r with ⟨root, _ | ⟨⟨opening, source, location, body, otherwise⟩, outer⟩⟩
  · cases h
  cases opening with
  | each collection item index => cases h
  | cond condition =>
    cases otherwise with
    | some nodes => cases h
    | none =>
      cases h
      exact ⟨_, rfl, rfl⟩

theorem exists_foldlM_of_openBlocks {tokens : List Token} {blocks : List OpenBlock}
    (h : OpenBlocks tokens blocks) :
    ∃ r, tokens.foldlM Reading.read empty = .ok r ∧ r.outlines = blocks := by
  induction h with
  | none hwf =>
    rcases exists_foldlM_read_eq hwf with ⟨tree, htree⟩
    exact ⟨_, htree empty, outlines_foldl_push tree empty⟩
  -- what is outside the innermost block is read first, then its tag, then what is inside
  | body _ hopens hinside ih =>
    rcases ih with ⟨r, hr, rfl⟩
    rcases read_of_opens? hopens r with ⟨r', hr', hblocks⟩
    rcases exists_foldlM_read_eq hinside with ⟨tree, htree⟩
    refine ⟨tree.foldl push r', ?_, by rw [outlines_foldl_push, hblocks]⟩
    rw [List.foldlM_append, hr]
    change List.foldlM Reading.read r (_ :: _) = _
    rw [List.foldlM_cons, hr']
    exact htree r'
  | other _ hopens hbody hmark hinside ih =>
    rcases ih with ⟨r, hr, rfl⟩
    rcases read_of_opens? hopens r with ⟨r', hr', hblocks⟩
    rcases exists_foldlM_read_eq hbody with ⟨tree, htree⟩
    rw [← outlines_foldl_push tree r'] at hblocks
    rcases read_of_elseMark hmark hblocks with ⟨r'', hr'', hblocks'⟩
    rcases exists_foldlM_read_eq hinside with ⟨tree', htree'⟩
    refine ⟨tree'.foldl push r'', ?_, by rw [outlines_foldl_push, hblocks']⟩
    rw [List.foldlM_append, hr]
    change List.foldlM Reading.read r (_ :: _) = _
    rw [List.foldlM_cons, hr']
    change List.foldlM Reading.read r' (_ ++ _) = _
    rw [List.foldlM_append, htree]
    change List.foldlM Reading.read _ (_ :: _) = _
    rw [List.foldlM_cons, hr'']
    exact htree' r''

/-- The open blocks of tokens are those that a reading of them has open. -/
theorem openBlocks_iff {tokens : List Token} {blocks : List OpenBlock} :
    OpenBlocks tokens blocks ↔
      ∃ r, tokens.foldlM Reading.read empty = .ok r ∧ r.outlines = blocks := by
  constructor
  · exact exists_foldlM_of_openBlocks
  · rintro ⟨r, hread, rfl⟩
    have hempty : OpenBlocks [] empty.outlines := .none .nil
    exact openBlocks_foldlM hempty hread

end Reading

/-! ## What can be completed -/

/-- The open blocks can be closed, the innermost first. -/
theorem OpenBlocks.completable {tokens : List Token} {blocks : List OpenBlock}
    (h : OpenBlocks tokens blocks) : Completable (Token.symbols tokens) := by
  induction blocks generalizing tokens with
  | nil =>
    cases h with
    | none hwf => exact ⟨[], by rwa [List.append_nil]⟩
  | cons b blocks ih =>
    have hclosed := h.close (t := ⟨.tag (.close b.kind), "", .start⟩) rfl
    have hall := ih hclosed
    rw [Token.symbols_append] at hall
    exact hall.of_append

/-- Tokens can be read exactly if their symbols can be completed. -/
theorem completable_iff {tokens : List Token} :
    Completable (Token.symbols tokens) ↔ ∃ r, tokens.foldlM Reading.read .empty = .ok r := by
  constructor
  · rintro ⟨more, hmore⟩
    rcases hmore.exists_tree with ⟨tree, htree, hsymbols⟩
    have hbuild : build (tokens ++ more.map Symbol.token) = .ok tree := by
      refine build_eq_ok.mpr ⟨htree, ?_⟩
      rw [hsymbols, ← Symbol.symbols_map_token more, ← Token.symbols_append,
        Symbol.symbols_map_token]
      rfl
    rw [build, List.foldlM_append] at hbuild
    rcases hread : tokens.foldlM Reading.read .empty with fault | r
    · rw [hread] at hbuild
      cases hbuild
    · exact ⟨r, rfl⟩
  · rintro ⟨r, hread⟩
    exact (Reading.openBlocks_iff.mpr ⟨r, hread, rfl⟩).completable

/-! ## Who is blamed -/

/-- The fault that a text has, and its place, are the same with its gaps and without. -/
theorem build_eq_error_of_compile {text name : String} {trim : Bool} {e : TemplateError}
    (h : compile text name trim = .error e) :
    build (Token.ofText text) = .error (e.fault, e.location) ∧ e.template = name := by
  have hblame : (build (if trim then dropGaps false (Token.ofText text) else Token.ofText text)).map
      (fun _ => ()) = (build (Token.ofText text)).map fun _ => () := by
    cases trim with
    | true => exact map_build_dropGaps false (Token.ofText text)
    | false => rfl
  rw [compile] at h
  rcases hbuild : build (if trim then dropGaps false (Token.ofText text) else Token.ofText text) with
    blame | tree
  · rw [hbuild] at h hblame
    cases h
    rcases hall : build (Token.ofText text) with blame' | tree
    · rw [hall] at hblame
      cases hblame
      exact ⟨rfl, rfl⟩
    · rw [hall] at hblame
      cases hblame
  · rw [hbuild] at h
    cases h

/-- A reading that stops at a token stops at a closing tag or an `else`. -/
theorem Reading.of_read_eq_error {r : Reading} {t : Token} {fault : TemplateFault} {l : Location}
    (h : r.read t = .error (fault, l)) :
    (t.form = .tag .elseMark ∨ ∃ kind, t.form = .tag (.close kind)) ∧ l = t.location := by
  rcases t with ⟨form, source, location⟩
  cases form with
  | text => cases h
  | stop => cases h
  | tag tag =>
    rcases htag : r.readTag ⟨.tag tag, source, location⟩ tag with found | next
    · simp only [Reading.read, htag, mapError_error] at h
      cases h
      refine ⟨?_, rfl⟩
      cases tag with
      | elseMark => exact .inl rfl
      | close kind => exact .inr ⟨kind, rfl⟩
      | _ => cases htag
    · simp only [Reading.read, htag, mapError_ok] at h
      cases h

/-- Tokens that cannot be read have a first one at which the reading stops. -/
theorem Reading.exists_of_foldlM_eq_error {r : Reading} {tokens : List Token}
    {blame : TemplateFault × Location} (h : tokens.foldlM Reading.read r = .error blame) :
    ∃ before t after r', tokens = before ++ t :: after ∧
      before.foldlM Reading.read r = .ok r' ∧ r'.read t = .error blame := by
  induction tokens generalizing r with
  | nil => cases h
  | cons t rest ih =>
    rw [List.foldlM_cons] at h
    rcases hnext : r.read t with fault | next
    · rw [hnext] at h
      cases h
      exact ⟨[], t, rest, r, rfl, rfl, hnext⟩
    · rw [hnext] at h
      rcases ih h with ⟨before, u, after, r', rfl, hbefore, hu⟩
      refine ⟨t :: before, u, after, r', rfl, ?_, hu⟩
      rw [List.foldlM_cons, hnext]
      exact hbefore

/-- A reading that cannot be finished is inside blocks, and the outermost is blamed for all. -/
theorem Reading.of_finish_eq_error {r : Reading} {fault : TemplateFault} {l : Location}
    (h : r.finish = .error (fault, l)) :
    ∃ outermost inner, r.outlines = inner ++ [outermost] ∧ l = outermost.tag.location ∧
      fault = .unclosed ((outermost :: inner.reverse).map OpenBlock.kind) := by
  rcases r with ⟨root, blocks⟩
  rcases List.eq_nil_or_concat blocks with rfl | ⟨inner, outermost, rfl⟩
  · cases h
  rw [List.concat_eq_append] at h ⊢
  rw [finish, List.reverse_append] at h
  cases h
  refine ⟨outermost.outline, inner.map PendingBlock.outline, List.map_append, rfl, ?_⟩
  rw [List.map_cons, List.map_cons, ← List.map_reverse, List.map_map]
  rfl

/-- Tokens can be completed to a template up to a token and not through it, and the token is an `else`
or closes a block. -/
def Token.BreaksOff (before : List Token) (t : Token) : Prop :=
  Completable (Token.symbols before) ∧ ¬ Completable (Token.symbols (before ++ [t])) ∧
    (t.form = .tag .elseMark ∨ ∃ kind, t.form = .tag (.close kind))

/-- A text can be completed to a template, and a token opens the outermost of the blocks that are
open at its end; the fault tells their kinds from the outermost to the innermost. -/
def Token.LeavesOpen (text : String) (t : Token) (fault : TemplateFault) : Prop :=
  Completable (symbolsOf text) ∧ ∃ outermost inner, outermost.tag = t ∧
    (∀ blocks, OpenBlocks (Token.ofText text) blocks ↔ blocks = inner ++ [outermost]) ∧
    fault = .unclosed ((outermost :: inner.reverse).map OpenBlock.kind)

/-- A text that is no template is blamed at a tag of it, whose place is told by the text before it.
If there is a tag up to which the text can be completed to a template and through which it cannot,
that tag is blamed; otherwise the outermost of the blocks that are open at the end is. -/
theorem compile_error_blames {text name : String} {trim : Bool} {e : TemplateError}
    (h : compile text name trim = .error e) :
    e.template = name ∧ ∃ before t after, Token.ofText text = before ++ t :: after ∧
      text.toList = Token.sources before ++ (t.source.toList ++ Token.sources after) ∧
      e.location = t.location ∧ e.location = .behind (Token.sources before) ∧
      (Token.BreaksOff before t ∨ Token.LeavesOpen text t e.fault) := by
  rcases build_eq_error_of_compile h with ⟨hbuild, hname⟩
  refine ⟨hname, ?_⟩
  rw [build] at hbuild
  rcases hread : (Token.ofText text).foldlM Reading.read .empty with blame | r
  · -- the reading stops at a token
    rw [hread] at hbuild
    cases hbuild
    rcases Reading.exists_of_foldlM_eq_error hread with ⟨before, t, after, r, heq, hbefore, ht⟩
    rcases Reading.of_read_eq_error ht with ⟨hform, hlocation⟩
    rcases Token.location_eq heq with ⟨htext, hplace⟩
    refine ⟨before, t, after, heq, htext, hlocation, hlocation.trans hplace, .inl ⟨?_, ?_, hform⟩⟩
    · exact completable_iff.mpr ⟨r, hbefore⟩
    · rintro hcompletable
      rcases completable_iff.mp hcompletable with ⟨r', hr'⟩
      rw [List.foldlM_append, hbefore] at hr'
      change List.foldlM Reading.read r [t] = _ at hr'
      rw [List.foldlM_cons, ht] at hr'
      cases hr'
  · -- all tokens are read, and blocks are open at the end
    rw [hread] at hbuild
    rcases Reading.of_finish_eq_error hbuild with ⟨outermost, inner, houtlines, hlocation, hfault⟩
    have hblocks : ∀ blocks, OpenBlocks (Token.ofText text) blocks ↔ blocks = inner ++ [outermost] := by
      intro blocks
      rw [Reading.openBlocks_iff, hread]
      constructor
      · rintro ⟨r', hr', rfl⟩
        cases hr'
        exact houtlines
      · rintro rfl
        exact ⟨r, rfl, houtlines⟩
    have hopen := (hblocks _).mpr rfl
    have hmem := hopen.tag_mem (List.mem_append_right inner (List.mem_singleton_self outermost))
    rcases List.append_of_mem hmem with ⟨before, after, heq⟩
    rcases Token.location_eq heq with ⟨htext, hplace⟩
    exact ⟨before, outermost.tag, after, heq, htext, hlocation, hlocation.trans hplace,
      .inr ⟨hopen.completable, outermost, inner, rfl, hblocks, hfault⟩⟩

/-- A block that is closed by the tag of another kind is a case. -/
theorem compile_error_blames_mismatch :
    compile "\x7b#if x\x7d\x7b/each\x7d" "page" true =
      .error ⟨.mismatch .each .cond ⟨0, 1, 1⟩, ⟨7, 1, 8⟩, "page"⟩ ∧
    ∃ before t after,
      Token.ofText "\x7b#if x\x7d\x7b/each\x7d" = before ++ t :: after ∧
      (⟨7, 1, 8⟩ : Location) = t.location ∧
      (⟨7, 1, 8⟩ : Location) = .behind (Token.sources before) ∧
      (Token.BreaksOff before t ∨ Token.LeavesOpen "\x7b#if x\x7d\x7b/each\x7d" t
        (.mismatch .each .cond ⟨0, 1, 1⟩)) := by
  have hopen : Tag.read? "\x7b#if x\x7d\x7b/each\x7d".toList =
      some ("#if x".toList, .ifOpen "x", "\x7b/each\x7d".toList) := by decide
  have hclose : Tag.read? "\x7b/each\x7d".toList = some ("/each".toList, .close .each, []) := by
    decide
  have herror : compile "\x7b#if x\x7d\x7b/each\x7d" "page" true =
      .error ⟨.mismatch .each .cond ⟨0, 1, 1⟩, ⟨7, 1, 8⟩, "page"⟩ := by
    rw [compile, Token.ofText, pieces_of_read?_eq_some hopen, pieces_of_read?_eq_some hclose,
      pieces_nil]
    rfl
  rcases (compile_error_blames herror).2 with ⟨before, t, after, heq, -, hlocation, hplace, hblame⟩
  exact ⟨herror, before, t, after, heq, hlocation, hplace, hblame⟩

end Curly
