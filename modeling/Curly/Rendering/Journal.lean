import Curly.Cache
import Curly.Source

/-!
# Journals

What the work on templates leaves behind, besides its result, is a journal: the notices in the
order they were made, the requests to sources, and the cache if there is one, which several engines
may share. A step of the work is a `Run`. One that fails keeps the journal it has written so far.
-/

namespace Curly

/-- A request to a source: the name asked for, and the templates being rendered at that time. -/
structure Load where
  chain : Chain
  name : String
deriving DecidableEq, Repr

/-- What work leaves behind. -/
structure Journal where
  notices : List Notice
  loads : List Load
  cache : Option (Cache Tree)

/-- A step of the work: it reads and writes the journal, and may fail. -/
abbrev Run := ExceptT Failure (StateM Journal)

namespace Journal

/-- Nothing noted yet, with a cache or without one. -/
def start (cache : Option (Cache Tree)) : Journal := ⟨[], [], cache⟩

end Journal

namespace Run

variable {α β : Type}

/-- Does a step of the work on a journal. -/
def exec (work : Run α) (j : Journal) : Except Failure α × Journal := StateT.run (ExceptT.run work) j

@[simp] theorem exec_pure (a : α) (j : Journal) : Run.exec (pure a) j = (.ok a, j) := rfl

@[simp] theorem exec_throw (f : Failure) (j : Journal) :
    Run.exec (throw f : Run α) j = (.error f, j) := rfl

@[simp] theorem exec_get (j : Journal) : Run.exec get j = (.ok j, j) := rfl

@[simp] theorem exec_modify (f : Journal → Journal) (j : Journal) :
    Run.exec (modify f) j = (.ok (), f j) := rfl

@[simp] theorem exec_ofExcept (r : Except Failure α) (j : Journal) :
    Run.exec (MonadExcept.ofExcept r) j = (r, j) := by
  cases r <;> rfl

/-- After a failure nothing more is done. -/
theorem exec_bind (work : Run α) (next : α → Run β) (j : Journal) :
    Run.exec (work >>= next) j = match work.exec j with
      | (.ok a, j') => (next a).exec j'
      | (.error failure, j') => (.error failure, j') := by
  simp only [Run.exec, ExceptT.run_bind, StateT.run_bind]
  rcases StateT.run (ExceptT.run work) j with ⟨_ | _, _⟩ <;> rfl

/-- A failure that is caught leaves the journal as it was at the failure. -/
theorem exec_tryCatch (work : Run α) (handler : Failure → Run α) (j : Journal) :
    Run.exec (tryCatch work handler) j = match work.exec j with
      | (.ok a, j') => (.ok a, j')
      | (.error failure, j') => (handler failure).exec j' := by
  simp only [Run.exec, ExceptT.run_tryCatch, StateT.run_bind]
  rcases StateT.run (ExceptT.run work) j with ⟨_ | _, _⟩ <;> rfl

end Run

/-- Makes notices. -/
def note (ns : List Notice) : Run Unit := modify fun j => { j with notices := j.notices ++ ns }

@[simp] theorem exec_note (ns : List Notice) (j : Journal) :
    Run.exec (note ns) j = (.ok (), { j with notices := j.notices ++ ns }) :=
  rfl

/-- Asks a source for the text of a name while the templates of a chain are being rendered. -/
def fetch (source : Source) (chain : Chain) (name : String) : Run String := do
  let (notices, text) := source.fetch name
  modify fun j => { j with loads := j.loads ++ [⟨chain, name⟩] }
  note notices
  MonadExcept.ofExcept text

theorem exec_fetch (source : Source) (chain : Chain) (name : String) (j : Journal) :
    Run.exec (fetch source chain name) j =
      ((source.fetch name).2,
        { j with
          notices := j.notices ++ (source.fetch name).1
          loads := j.loads ++ [⟨chain, name⟩] }) := by
  simp [fetch, Run.exec_bind]

end Curly
