import Curly.Value.Shown

/-!
# Values that can be shown

A value has a shown text exactly if every key that is written to show it is a scalar, and every whole
number that is written has few enough digits (`Value.shown_decided`). This can be computed
(`Value.isShowable`). Not all that is in a value is written: below the top a read-only mapping is shown
as one string, whatever is in it.
-/

namespace Curly

/-- A key that is written as the name of a member: a scalar, and if it is a whole number one with few
enough digits. -/
def Key.isWritable : Key → Bool
  | .null | .bool _ | .float _ | .str _ => true
  | .int n => Numeral.fits n
  | .tuple _ | .bytes _ | .range .. | .object _ => false

mutual

/-- Whether every key that is written with the value as lenient JSON is a scalar, and no whole number
that is written too long. -/
def Value.isWritable : Value → Bool
  | .list items | .tuple items => Value.allWritable items
  | .dict entries => Value.allEntriesWritable entries
  | .int n => Numeral.fits n
  | .range start stop => Numeral.fits start && Numeral.fits stop
  | _ => true

/-- Whether the items can be written. -/
def Value.allWritable : List Value → Bool
  | [] => true
  | v :: rest => v.isWritable && Value.allWritable rest

/-- Whether the keys of the entries and their values can be written. -/
def Value.allEntriesWritable : List (Key × Value) → Bool
  | [] => true
  | (k, v) :: rest => k.isWritable && (v.isWritable && Value.allEntriesWritable rest)

end

mutual

/-- Whether every key that is written to show the value is a scalar, and no whole number that is
written too long. -/
def Value.isShowable : Value → Bool
  | .list items | .tuple items => Value.allShowable items
  | .dict entries | .view entries => Value.allEntriesWritable entries
  | .int n => Numeral.fits n
  | .range start stop => Numeral.fits start && Numeral.fits stop
  | _ => true

/-- Whether the items can be shown. -/
def Value.allShowable : List Value → Bool
  | [] => true
  | v :: rest => v.isShowable && Value.allShowable rest

end

namespace Json

/-- What is refused when a value is shown: a key that is no scalar, or a whole number with too many
digits. -/
def Fault.IsRefusal (fault : Fault) : Prop :=
  (∃ typeName, fault = .badKey typeName) ∨ fault = .numeral .tooLongToWrite

/-- A result that is there if `fits`, and else is a refusal. -/
def Decided {α : Type} (fits : Bool) : Except Fault α → Prop
  | .ok _ => fits = true
  | .error fault => fits = false ∧ fault.IsRefusal

theorem Decided.bind {α β : Type} {fits fits' : Bool} {result : Except Fault α}
    {next : α → Except Fault β} (h : Decided fits result) (hnext : ∀ a, Decided fits' (next a)) :
    Decided (fits && fits') (result >>= next) := by
  rcases result with fault | a
  · rcases h with ⟨rfl, hfault⟩
    exact ⟨rfl, hfault⟩
  · rw [show fits = true from h, Bool.true_and]
    exact hnext a

theorem Decided.map {α β : Type} {fits : Bool} {result : Except Fault α} (f : α → β)
    (h : Decided fits result) : Decided fits (do return f (← result)) := by
  have hbind : Decided (fits && true) (do return f (← result)) := h.bind fun _ => rfl
  rwa [Bool.and_true] at hbind

/-- A result that is there if `fits`, and else fails because a whole number is too long, as it is told
for JSON. -/
theorem decided_mapError {α : Type} {fits : Bool} {result : Except NumeralFault α}
    (hok : fits = true → ∃ a, result = .ok a)
    (herror : fits = false → result = .error .tooLongToWrite) :
    Decided fits (result.mapError Fault.numeral) := by
  cases fits with
  | true =>
    obtain ⟨a, rfl⟩ := hok rfl
    exact rfl
  | false =>
    rw [herror rfl]
    exact ⟨rfl, .inr rfl⟩

theorem whole_decided (n : Int) : Decided (Numeral.fits n) (whole n) :=
  decided_mapError (fun h => ⟨_, Numeral.write_of_fits h⟩) Numeral.write_of_not_fits

/-- The text of a range is there if both ends can be written. -/
theorem rangeText_decided (start stop : Int) :
    Decided (Numeral.fits start && Numeral.fits stop)
      ((rangeText start stop).mapError Fault.numeral) := by
  refine decided_mapError ?_ ?_
  · intro h
    rw [Bool.and_eq_true] at h
    exact ⟨_, by rw [rangeText, Numeral.write_of_fits h.1, Numeral.write_of_fits h.2]; rfl⟩
  · intro h
    rw [rangeText]
    cases hstart : Numeral.fits start with
    | false =>
      rw [Numeral.write_of_not_fits hstart]
      rfl
    | true =>
      rw [hstart, Bool.true_and] at h
      rw [Numeral.write_of_fits hstart, Numeral.write_of_not_fits h]
      rfl

theorem key_decided (k : Key) : Decided k.isWritable (key .lenient k) := by
  cases k with
  | null | bool _ | str _ => exact rfl
  | int n => exact whole_decided n
  | float x =>
    rw [key, number, if_neg (fun h => nomatch h.1)]
    exact rfl
  | tuple _ | bytes _ | range _ _ | object _ => exact ⟨rfl, .inl ⟨_, rfl⟩⟩

mutual

theorem write_decided : (v : Value) → Decided v.isWritable (write .lenient v)
  | .list items => by
    rw [write, Value.isWritable]
    exact (writeItems_decided items).map _
  | .tuple items => by
    rw [write, Value.isWritable]
    exact (writeItems_decided items).map _
  | .dict entries => by
    rw [write, Value.isWritable]
    exact (writeEntries_decided entries).map _
  | .float x => by
    rw [write, number, if_neg (fun h => nomatch h.1)]
    exact rfl
  | .int n => whole_decided n
  | .range start stop => (rangeText_decided start stop).map string
  | .null | .bool _ | .str _ | .view _ | .bytes _ | .object _ => rfl

theorem writeItems_decided :
    (items : List Value) → Decided (Value.allWritable items) (writeItems .lenient items)
  | [] => rfl
  | v :: rest => by
    rw [writeItems, Value.allWritable]
    exact (write_decided v).bind fun text => (writeItems_decided rest).map (text :: ·)

theorem writeEntries_decided : (entries : List (Key × Value)) →
    Decided (Value.allEntriesWritable entries) (writeEntries .lenient entries)
  | [] => rfl
  | (k, v) :: rest => by
    rw [writeEntries, Value.allEntriesWritable]
    refine (key_decided k).bind fun name => ?_
    refine (write_decided v).bind fun text => ?_
    exact (writeEntries_decided rest).map (_ :: ·)

end

end Json

mutual

/-- A value is shown if it can be, and else one of its keys or numbers is refused. -/
theorem Value.shown_decided : (v : Value) → Json.Decided v.isShowable v.shown
  | .list items => by
    rw [Value.shown, Value.isShowable]
    exact (Value.shownItems_decided items).map _
  | .tuple items => by
    rw [Value.shown, Value.isShowable]
    exact (Value.shownItems_decided items).map _
  | .dict entries => by
    rw [Value.shown]
    exact Json.write_decided (.dict entries)
  | .view entries => by
    rw [Value.shown]
    exact Json.write_decided (.dict entries)
  | .int n => Json.whole_decided n
  | .range start stop => Json.rangeText_decided start stop
  | .null | .bool _ | .float _ | .str _ | .bytes _ | .object _ => rfl

theorem Value.shownItems_decided :
    (items : List Value) → Json.Decided (Value.allShowable items) (Value.shownItems items)
  | [] => rfl
  | v :: rest => by
    rw [Value.shownItems, Value.allShowable]
    exact (Value.shown_decided v).bind fun text => (Value.shownItems_decided rest).map (text :: ·)

end

end Curly
