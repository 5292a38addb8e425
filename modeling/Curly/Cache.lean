/-!
# The cache

A cache keeps one entry for a name: the result of a compilation together with the source it was
compiled from. An entry answers only for its own source, so a changed source is compiled again. A
failed compilation is not kept and leaves the entry of the name as it was. Sources are compared as
texts, and requests are made one after another.

Each entry put in gets a version of its own, so two results are one and the same entry exactly if
their versions agree.
-/

namespace Curly

/-- What is kept for a name. -/
structure Stored (α : Type) where
  source : String
  value : α
  version : Nat
deriving Repr

/-- The entries, at most one for a name, and the counts of requests with and without an answer. -/
structure Cache (α : Type) where
  entries : List (String × Stored α)
  hits : Nat
  misses : Nat
  /-- The entries put in so far; the version of the next. -/
  stored : Nat
deriving Repr

/-- How a request to the cache ended. -/
inductive CacheOutcome (ε α : Type) where
  /-- An entry had the answer. -/
  | hit (value : α)
  /-- The answer was compiled, and is an entry now. -/
  | compiled (value : α)
  /-- The compilation failed. -/
  | failed (error : ε)
deriving Repr

namespace Cache

variable {α ε : Type}

/-- A cache without entries. -/
def empty : Cache α := ⟨[], 0, 0, 0⟩

/-- The entry of a name. -/
def find? (c : Cache α) (name : String) : Option (Stored α) := c.entries.lookup name

/-- Whether a name has an entry. -/
def contains (c : Cache α) (name : String) : Bool := (c.find? name).isSome

/-- The number of entries. -/
def size (c : Cache α) : Nat := c.entries.length

/-- The result for a name and a source, if the name has an entry for that source. -/
def get? (c : Cache α) (name source : String) : Option α :=
  (c.find? name).bind fun e => if e.source = source then some e.value else none

/-- The cache without an entry for a name. -/
def erase (c : Cache α) (name : String) : Cache α :=
  { c with entries := c.entries.filter (·.1 ≠ name) }

/-- Makes a result the entry of a name. -/
def put (c : Cache α) (name source : String) (value : α) : Cache α :=
  { c with
    entries := (name, ⟨source, value, c.stored⟩) :: (c.erase name).entries
    stored := c.stored + 1 }

@[simp] theorem find?_empty (name : String) : (empty : Cache α).find? name = none := rfl

/-- Dropping the pairs of one key changes the look-up of no other. -/
theorem lookup_filter_ne {β : Type} (name other : String) (pairs : List (String × β)) :
    (pairs.filter (·.1 ≠ name)).lookup other =
      if other = name then none else pairs.lookup other := by
  induction pairs with
  | nil => simp
  | cons e rest ih =>
    obtain ⟨key, value⟩ := e
    by_cases hk : key = name
    · subst hk
      by_cases ho : other = key
      · subst ho; simpa using ih
      · have hb : (other == key) = false := by simpa using ho
        simpa [List.lookup_cons, ho, hb] using ih
    · by_cases ho : other = key
      · subst ho; simp [hk]
      · have hb : (other == key) = false := by simpa using ho
        simpa [List.lookup_cons, hk, hb] using ih

theorem find?_erase (c : Cache α) (name other : String) :
    (c.erase name).find? other = if other = name then none else c.find? other :=
  lookup_filter_ne name other c.entries

theorem find?_put (c : Cache α) (name source other : String) (value : α) :
    (c.put name source value).find? other =
      if other = name then some ⟨source, value, c.stored⟩ else c.find? other := by
  by_cases ho : other = name
  · subst ho; simp [find?, put]
  · have hb : (other == name) = false := by simpa using ho
    have h := find?_erase c name other
    simp only [find?, put, List.lookup_cons, hb] at h ⊢
    exact h.trans (by simp [ho])

/-- Takes the entry of a name out, and tells whether there was one. -/
def take (c : Cache α) (name : String) : Bool × Cache α := (c.contains name, c.erase name)

/-- Takes all entries out. The counts go on. -/
def clear (c : Cache α) : Cache α := { c with entries := [] }

/-- The result for a name and a source: that of the entry, or a compiled one, which becomes the
entry. -/
def request (c : Cache α) (name source : String) (compile : String → Except ε α) :
    CacheOutcome ε α × Cache α :=
  match c.get? name source with
  | some value => (.hit value, { c with hits := c.hits + 1 })
  | none =>
    let c := { c with misses := c.misses + 1 }
    match compile source with
    | .ok value => (.compiled value, c.put name source value)
    | .error error => (.failed error, c)

end Cache

end Curly
