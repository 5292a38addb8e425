import Curly.Cache
import Mathlib.Data.Finset.Card
import Mathlib.Data.List.Nodup

/-!
# The history of a cache

What a cache answers is decided by the calls it has had. For each name the history remembers at
most one source with its result: those of the last compilation that succeeded or the last entry put
in, unless the name was invalidated or everything was cleared after it. A request for a remembered
source is answered without compiling, any other compiles once, and one that fails changes no entry.

The cache is compared with its history by an invariant (`Tracks`), kept by each call
(`Tracks.run`) and so by every sequence of calls (`tracks_replay`). An entry is compared by its
source itself; a digest without collisions tells the same sources apart.
-/

namespace Curly

/-- How a request ends that has to compile. -/
def CacheOutcome.ofResult {ε α : Type} : Except ε α → CacheOutcome ε α
  | .ok value => .compiled value
  | .error error => .failed error

namespace Cache

variable {α ε : Type}

/-! ## How often a request compiles -/

/-- A request whose compilation may have effects. -/
def requestM {m : Type → Type} [Monad m] (c : Cache α) (name source : String)
    (compile : String → m (Except ε α)) : m (CacheOutcome ε α × Cache α) :=
  match c.get? name source with
  | some value => pure (.hit value, { c with hits := c.hits + 1 })
  | none => do
    let c := { c with misses := c.misses + 1 }
    match ← compile source with
    | .ok value => pure (.compiled value, c.put name source value)
    | .error error => pure (.failed error, c)

/-- A compilation that writes down the sources it is called with. -/
def noting (compile : String → Except ε α) (source : String) :
    StateM (List String) (Except ε α) := do
  modify (· ++ [source])
  return compile source

/-- The sources a request calls its compilation with, one after another. -/
def asked (c : Cache α) (name source : String) (compile : String → Except ε α) : List String :=
  ((c.requestM name source (noting compile)).run []).2

/-- Writing the calls down changes nothing else, and a request calls its compilation with its own
source, once, or not at all. -/
theorem requestM_noting (c : Cache α) (name source : String) (compile : String → Except ε α) :
    (c.requestM name source (noting compile)).run [] =
      (c.request name source compile, if (c.get? name source).isSome then [] else [source]) := by
  unfold request requestM
  cases c.get? name source with
  | some value => rfl
  | none => cases h : compile source <;> simp [noting, h] <;> rfl

theorem asked_eq (c : Cache α) (name source : String) (compile : String → Except ε α) :
    c.asked name source compile = if (c.get? name source).isSome then [] else [source] :=
  congrArg Prod.snd (requestM_noting c name source compile)

/-! ## Calls and their answers -/

/-- A call on a cache. A request brings the function it compiles with. -/
inductive Call (ε α : Type) where
  | request (name source : String) (compile : String → Except ε α)
  | get (name source : String)
  | put (name source : String) (value : α)
  | invalidate (name : String)
  | clear
  | contains (name : String)
  | size

/-- What a call answers; a request also the sources it has called its function with. -/
inductive Answer (ε α : Type) where
  | requested (outcome : CacheOutcome ε α) (asked : List String)
  | got (value : Option α)
  | invalidated (present : Bool)
  | contained (present : Bool)
  | counted (entries : Nat)
  | done

/-- What a call answers, and the cache after it. -/
def Call.run (call : Call ε α) (c : Cache α) : Answer ε α × Cache α :=
  match call with
  | .request name source compile =>
    let (outcome, c') := c.request name source compile
    (.requested outcome (c.asked name source compile), c')
  | .get name source => (.got (c.get? name source), c)
  | .put name source value => (.done, c.put name source value)
  | .invalidate name =>
    let (present, c') := c.take name
    (.invalidated present, c')
  | .clear => (.done, c.clear)
  | .contains name => (.contained (c.contains name), c)
  | .size => (.counted c.size, c)

/-- Whether a call is a request. -/
def Call.isRequest : Call ε α → Bool
  | .request .. => true
  | _ => false

/-- Whether an answer is that of a request which did not compile. -/
def Answer.isHit : Answer ε α → Bool
  | .requested (.hit _) _ => true
  | _ => false

/-- Whether an answer is that of a request which compiled, with success or not. -/
def Answer.isMiss : Answer ε α → Bool
  | .requested (.compiled _) _ => true
  | .requested (.failed _) _ => true
  | _ => false

/-! ## Histories -/

/-- Calls with their answers, one after another. -/
abbrev History (ε α : Type) := List (Call ε α × Answer ε α)

/-- What a call has done to the entry of a name: made it that of a source and a result, or taken it
out; `none` if it has let it be. -/
def effect (name : String) : Call ε α × Answer ε α → Option (Option (String × α))
  | (.request other source _, .requested (.compiled value) _) =>
    if name = other then some (some (source, value)) else none
  | (.put other source value, _) => if name = other then some (some (source, value)) else none
  | (.invalidate other, _) => if name = other then some none else none
  | (.clear, _) => some none
  | _ => none

/-- The source and the result that are remembered for a name: what the last call that did anything
to its entry has left. -/
def remembered (h : History ε α) (name : String) : Option (String × α) :=
  (h.reverse.findSome? (effect name)).join

/-- A cache after one more call, and its history. -/
def record (st : History ε α × Cache α) (call : Call ε α) : History ε α × Cache α :=
  (st.1 ++ [(call, (call.run st.2).1)], (call.run st.2).2)

/-- The calls on a new cache with their answers, and the cache after them. -/
def replay (calls : List (Call ε α)) : History ε α × Cache α := calls.foldl record ([], empty)

theorem replay_snoc (calls : List (Call ε α)) (call : Call ε α) :
    replay (calls ++ [call]) = record (replay calls) call := by
  simp [replay]

theorem remembered_snoc (h : History ε α) (event : Call ε α × Answer ε α) (name : String) :
    remembered (h ++ [event]) name = (effect name event).getD (remembered h name) := by
  unfold remembered
  rw [List.reverse_append, List.reverse_singleton, List.singleton_append, List.findSome?_cons]
  cases effect name event <;> rfl

/-! ## A cache and its history -/

/-- The source and the result of the entry of a name. -/
def held (c : Cache α) (name : String) : Option (String × α) :=
  (c.find? name).map fun e => (e.source, e.value)

/-- A cache that is as its history tells: it holds what is remembered, at most one entry for a name,
and has counted the requests that did not compile and those that did. -/
structure Tracks (h : History ε α) (c : Cache α) : Prop where
  held : ∀ name, c.held name = remembered h name
  nodup : (c.entries.map Prod.fst).Nodup
  hits : c.hits = h.countP (·.2.isHit)
  misses : c.misses = h.countP (·.2.isMiss)

theorem held_put (c : Cache α) (name source other : String) (value : α) :
    (c.put name source value).held other =
      (if other = name then some (some (source, value)) else none).getD (c.held other) := by
  unfold held
  rw [find?_put]
  split <;> rfl

theorem held_erase (c : Cache α) (name other : String) :
    (c.erase name).held other =
      (if other = name then some none else none).getD (c.held other) := by
  unfold held
  rw [find?_erase]
  split <;> rfl

theorem get?_eq_some_iff {c : Cache α} {name source : String} {value : α} :
    c.get? name source = some value ↔ c.held name = some (source, value) := by
  unfold get? held
  cases c.find? name with
  | none => simp
  | some e => by_cases hsource : e.source = source <;> simp [hsource]

theorem contains_eq (c : Cache α) (name : String) : c.contains name = (c.held name).isSome := by
  simp [contains, held]

theorem mem_names_iff {c : Cache α} {name : String} :
    name ∈ c.entries.map Prod.fst ↔ (c.held name).isSome := by
  simp [held, find?, List.lookup_isSome_iff]

/-- The names stay apart when an entry is taken out. -/
theorem nodup_erase {c : Cache α} (h : (c.entries.map Prod.fst).Nodup) (name : String) :
    ((c.erase name).entries.map Prod.fst).Nodup :=
  h.sublist (List.filter_sublist.map Prod.fst)

/-- The names stay apart when an entry is put in. -/
theorem nodup_put {c : Cache α} (h : (c.entries.map Prod.fst).Nodup) (name source : String)
    (value : α) : ((c.put name source value).entries.map Prod.fst).Nodup := by
  have hnew : name ∉ (c.erase name).entries.map Prod.fst := by
    rw [mem_names_iff, held_erase]
    simp
  exact List.nodup_cons.mpr ⟨hnew, nodup_erase h name⟩

/-- A request for the source that is held does not compile. -/
theorem run_request_of_held {c : Cache α} {name source : String} {value : α}
    (compile : String → Except ε α) (h : c.held name = some (source, value)) :
    (Call.request name source compile).run c =
      (.requested (.hit value) [], { c with hits := c.hits + 1 }) := by
  have hget := get?_eq_some_iff.mpr h
  simp [Call.run, request, asked_eq, hget]

/-- The cache after a request that has compiled. -/
def settle (c : Cache α) (name source : String) (result : Except ε α) : Cache α :=
  match result with
  | .ok value => { c with misses := c.misses + 1 }.put name source value
  | .error _ => { c with misses := c.misses + 1 }

/-- A request for a source that is not held compiles it once. -/
theorem run_request_of_not_held {c : Cache α} {name source : String}
    (compile : String → Except ε α) (h : ∀ value, c.held name ≠ some (source, value)) :
    (Call.request name source compile).run c =
      (.requested (.ofResult (compile source)) [source],
        c.settle name source (compile source)) := by
  have hget : c.get? name source = none := by
    rw [Option.eq_none_iff_forall_ne_some]
    intro value hvalue
    exact h value (get?_eq_some_iff.mp hvalue)
  cases hcompile : compile source <;>
    simp [Call.run, request, asked_eq, hget, hcompile, CacheOutcome.ofResult, settle]

/-- A request that fails changes no entry. -/
theorem entries_of_failed {c : Cache α} {name source : String} {compile : String → Except ε α}
    {error : ε} {asked : List String}
    (h : ((Call.request name source compile).run c).1 = .requested (.failed error) asked) :
    ((Call.request name source compile).run c).2.entries = c.entries := by
  by_cases hhit : ∃ value, c.held name = some (source, value)
  · rcases hhit with ⟨value, hvalue⟩
    rw [run_request_of_held compile hvalue] at h
    cases h
  · rw [run_request_of_not_held compile (not_exists.mp hhit)] at h ⊢
    cases hcompile : compile source with
    | ok value =>
      rw [hcompile] at h
      cases h
    | error error => rfl

theorem held_congr {c c' : Cache α} (h : c'.entries = c.entries) (name : String) :
    c'.held name = c.held name := by
  unfold held find?
  rw [h]

namespace Tracks

variable {h : History ε α} {c : Cache α}

theorem start : Tracks ([] : History ε α) (empty : Cache α) :=
  ⟨fun _ => rfl, List.nodup_nil, rfl, rfl⟩

/-- One event more: the cache has to change as the event tells. -/
theorem snoc (hc : Tracks h c) {c' : Cache α} {event : Call ε α × Answer ε α}
    (hheld : ∀ name, c'.held name = (effect name event).getD (c.held name))
    (hnodup : (c'.entries.map Prod.fst).Nodup)
    (hhits : c'.hits = c.hits + event.2.isHit.toNat)
    (hmisses : c'.misses = c.misses + event.2.isMiss.toNat) :
    Tracks (h ++ [event]) c' where
  held := by
    intro name
    rw [hheld, remembered_snoc, hc.held]
  nodup := hnodup
  hits := by
    rw [hhits, hc.hits, List.countP_append, List.countP_singleton]
    cases event.2.isHit <;> rfl
  misses := by
    rw [hmisses, hc.misses, List.countP_append, List.countP_singleton]
    cases event.2.isMiss <;> rfl

/-- A request changes the cache as its answer tells. -/
theorem run_request (hc : Tracks h c) (name source : String) (compile : String → Except ε α) :
    Tracks (h ++ [(.request name source compile,
      ((Call.request name source compile).run c).1)])
      ((Call.request name source compile).run c).2 := by
  by_cases hhit : ∃ value, c.held name = some (source, value)
  · rcases hhit with ⟨value, hvalue⟩
    rw [run_request_of_held compile hvalue]
    exact hc.snoc (fun _ => rfl) hc.nodup rfl rfl
  · rw [run_request_of_not_held compile (not_exists.mp hhit)]
    cases hcompile : compile source with
    | ok value =>
      refine hc.snoc ?_ (nodup_put hc.nodup name source value) rfl rfl
      exact fun other => held_put c name source other value
    | error error => exact hc.snoc (fun _ => rfl) hc.nodup rfl rfl

/-- Each call changes the cache as its answer tells. -/
theorem run (hc : Tracks h c) (call : Call ε α) :
    Tracks (h ++ [(call, (call.run c).1)]) (call.run c).2 := by
  cases call with
  | request name source compile => exact hc.run_request name source compile
  | get name source => exact hc.snoc (fun _ => rfl) hc.nodup rfl rfl
  | put name source value =>
    refine hc.snoc ?_ (nodup_put hc.nodup name source value) rfl rfl
    exact fun other => held_put c name source other value
  | invalidate name =>
    refine hc.snoc ?_ (nodup_erase hc.nodup name) rfl rfl
    exact fun other => held_erase c name other
  | clear => exact hc.snoc (fun _ => rfl) List.nodup_nil rfl rfl
  | contains name => exact hc.snoc (fun _ => rfl) hc.nodup rfl rfl
  | size => exact hc.snoc (fun _ => rfl) hc.nodup rfl rfl

end Tracks

theorem tracks_replay (calls : List (Call ε α)) : Tracks (replay calls).1 (replay calls).2 := by
  induction calls using List.reverseRecOn with
  | nil => exact Tracks.start
  | append_singleton calls call ih =>
    rw [replay_snoc]
    exact ih.run call

/-- A request is counted once, any other call is not. -/
theorem run_counts (call : Call ε α) (c : Cache α) :
    (call.run c).2.hits + (call.run c).2.misses = c.hits + c.misses + call.isRequest.toNat := by
  cases call with
  | request name source compile =>
    show (c.request name source compile).2.hits + (c.request name source compile).2.misses = _ + 1
    unfold request
    cases c.get? name source with
    | some value => exact Nat.add_right_comm c.hits 1 c.misses
    | none => cases compile source <;> rfl
  | _ => rfl

theorem counts_replay (calls : List (Call ε α)) :
    (replay calls).2.hits + (replay calls).2.misses = calls.countP Call.isRequest := by
  induction calls using List.reverseRecOn with
  | nil => rfl
  | append_singleton calls call ih =>
    rw [replay_snoc, List.countP_append, List.countP_singleton, ← ih]
    refine (run_counts call (replay calls).2).trans ?_
    cases call.isRequest <;> rfl

/-- The names that are remembered are finitely many, and a cache counts them. -/
theorem Tracks.size_eq {h : History ε α} {c : Cache α} (hc : Tracks h c) :
    ∃ names : Finset String,
      (∀ name, name ∈ names ↔ (remembered h name).isSome) ∧ c.size = names.card := by
  refine ⟨(c.entries.map Prod.fst).toFinset, ?_, ?_⟩
  · intro name
    rw [List.mem_toFinset, mem_names_iff, hc.held]
  · rw [List.toFinset_card_of_nodup hc.nodup, List.length_map]
    rfl

/-- After any calls a cache answers the next one as its history remembers. A request for the source
that is remembered for a name gives its result and compiles nothing; any other compiles its source
once, and if that fails, all entries are as before and still answer for their sources. A look-up
finds the result of the remembered source only. The requests answered from memory are the hits, the
others, failed ones too, the misses. The names that are there, and those that can be taken out, are
those that are remembered. -/
theorem replay_remembers (calls : List (Call ε α)) :
    let h := (replay calls).1
    let c := (replay calls).2
    (∀ (name source : String) (compile : String → Except ε α),
      let call := Call.request name source compile
      (∀ value, remembered h name = some (source, value) →
        (call.run c).1 = .requested (.hit value) []) ∧
      ((∀ value, remembered h name ≠ some (source, value)) →
        (call.run c).1 = .requested (.ofResult (compile source)) [source]) ∧
      ∀ error asked, (call.run c).1 = .requested (.failed error) asked →
        (call.run c).2.entries = c.entries ∧
        ∀ other kept value compile', remembered h other = some (kept, value) →
          ((Call.request other kept compile' : Call ε α).run (call.run c).2).1 =
            .requested (.hit value) []) ∧
    (∀ name source, ∃ result, (Call.get name source : Call ε α).run c = (.got result, c) ∧
      ∀ value, result = some value ↔ remembered h name = some (source, value)) ∧
    (c.hits = h.countP (·.2.isHit) ∧ c.misses = h.countP (·.2.isMiss) ∧
      c.hits + c.misses = calls.countP Call.isRequest) ∧
    (∀ name, ((Call.invalidate name : Call ε α).run c).1 =
      .invalidated (remembered h name).isSome) ∧
    (∀ name, (Call.contains name : Call ε α).run c =
      (.contained (remembered h name).isSome, c)) ∧
    ∃ names : Finset String, (∀ name, name ∈ names ↔ (remembered h name).isSome) ∧
      (Call.size : Call ε α).run c = (.counted names.card, c) := by
  intro h c
  -- the cache tracks its history; each part reads this off for one kind of call
  have hc : Tracks h c := tracks_replay calls
  refine ⟨?_, ?_, ⟨hc.hits, hc.misses, counts_replay calls⟩, ?_, ?_, ?_⟩
  · intro name source compile call
    refine ⟨?_, ?_, ?_⟩
    · intro value hvalue
      rw [← hc.held] at hvalue
      exact congrArg Prod.fst (run_request_of_held compile hvalue)
    · intro hnone
      have hnot : ∀ value, c.held name ≠ some (source, value) := by
        intro value
        rw [hc.held]
        exact hnone value
      exact congrArg Prod.fst (run_request_of_not_held compile hnot)
    · intro error asked hfailed
      have hentries := entries_of_failed hfailed
      refine ⟨hentries, ?_⟩
      intro other kept value compile' hvalue
      rw [← hc.held, ← held_congr hentries] at hvalue
      exact congrArg Prod.fst (run_request_of_held compile' hvalue)
  · intro name source
    refine ⟨c.get? name source, rfl, ?_⟩
    intro value
    rw [get?_eq_some_iff, hc.held]
  · intro name
    rw [← hc.held, ← contains_eq]
    rfl
  · intro name
    rw [← hc.held, ← contains_eq]
    rfl
  · rcases hc.size_eq with ⟨names, hnames, hsize⟩
    refine ⟨names, hnames, ?_⟩
    rw [← hsize]
    rfl

/-- A page that compiled to nothing at all is remembered through a failure, a look-up and a change
of another page. -/
theorem replay_remembers_empty_page :
    let calls : List (Call String (List Char)) :=
      [.request "page" "" fun _ => .ok [], .request "page" "x" fun _ => .error "unclosed",
        .get "page" "x", .put "other" "y" ['y'], .invalidate "other"]
    remembered (replay calls).1 "page" = some ("", []) ∧
      ((Call.request "page" "" fun _ => .error "again").run (replay calls).2).1 =
        .requested (.hit []) [] := by
  intro calls
  have hpage : remembered (replay calls).1 "page" = some ("", []) := by decide +kernel
  refine ⟨hpage, ?_⟩
  exact ((replay_remembers calls).1 "page" "" fun _ => .error "again").1 [] hpage

end Cache

end Curly
