import Curly.Value.Json

/-!
# What has no JSON text

Strict JSON refuses a value exactly if the value holds, at any depth, something that JSON has no form
for: bytes, a range, an object, a read-only mapping, a number that is not finite, a whole number with
more digits than the limit, or a key that is none of the scalars it writes (`Json.write_fails_iff`).
What a value holds (`Value.Holds`) is reached through the items of lists and tuples and the values of
mappings.
-/

namespace Curly

/-- What stands in a value at any depth: the value itself, and what stands in its items or under its
keys. -/
inductive Value.Holds : Value → Value → Prop where
  | self (v : Value) : Holds v v
  | list {items : List Value} {v w : Value} : v ∈ items → Holds v w → Holds (.list items) w
  | tuple {items : List Value} {v w : Value} : v ∈ items → Holds v w → Holds (.tuple items) w
  | dict {entries : Entries} {k : Key} {v w : Value} : (k, v) ∈ entries → Holds v w →
      Holds (.dict entries) w

/-- A key that can be the name of a member of a JSON object. -/
def Key.IsJsonName : Key → Prop
  | .null | .bool _ | .str _ => True
  | .int n => Numeral.fits n = true
  | .float x => x.isFinite = true
  | .tuple _ | .bytes _ | .range .. | .object _ => False

/-- A value that JSON has no form for, or a mapping with a key that it has none for. -/
def Value.IsForeign : Value → Prop
  | .bytes _ | .range .. | .object _ | .view _ => True
  | .int n => Numeral.fits n = false
  | .float x => x.isFinite = false
  | .dict entries => ∃ e ∈ entries, ¬ e.1.IsJsonName
  | .null | .bool _ | .str _ | .list _ | .tuple _ => False

namespace Json

/-! ## Work that fails -/

/-- A result that is an error. -/
def Fails {α : Type} (result : Except Fault α) : Prop := ∃ fault, result = .error fault

section Fails

variable {α β : Type} {result : Except Fault α}

theorem not_fails_ok (a : α) : ¬ Fails (.ok a : Except Fault α) := by
  rintro ⟨fault, h⟩
  cases h

/-- Work in two steps fails if the first step does, or the second, whatever the first gave. -/
theorem fails_bind_iff {next : α → Except Fault β} {p : Prop} (h : ∀ a, Fails (next a) ↔ p) :
    Fails (result >>= next) ↔ Fails result ∨ p := by
  cases result with
  | error fault => exact iff_of_true ⟨fault, rfl⟩ (.inl ⟨fault, rfl⟩)
  | ok a =>
    have hok : ¬ Fails (.ok a : Except Fault α) := not_fails_ok a
    exact (h a).trans (or_iff_right hok).symm

theorem fails_map_iff (f : α → β) : Fails (do return f (← result)) ↔ Fails result := by
  have hbind : Fails (do return f (← result)) ↔ Fails result ∨ False :=
    fails_bind_iff fun a => iff_of_false (not_fails_ok (f a)) id
  rw [hbind, or_false]

end Fails

theorem number_fails_iff (x : Binary64) : Fails (number .strict x) ↔ x.isFinite = false := by
  rw [number]
  by_cases hx : x.isFinite
  · rw [if_neg fun h => h.2 hx, hx]
    exact iff_of_false (not_fails_ok _) (fun h => nomatch h)
  · rw [if_pos ⟨rfl, hx⟩]
    exact iff_of_true ⟨_, rfl⟩ (Bool.eq_false_iff.mpr hx)

theorem whole_fails_iff (n : Int) : Fails (whole n) ↔ Numeral.fits n = false := by
  rw [whole]
  cases hn : Numeral.fits n with
  | true =>
    rw [Numeral.write_of_fits hn]
    exact iff_of_false (not_fails_ok _) (fun h => nomatch h)
  | false =>
    rw [Numeral.write_of_not_fits hn]
    exact iff_of_true ⟨_, rfl⟩ rfl

theorem key_fails_iff (k : Key) : Fails (key .strict k) ↔ ¬ k.IsJsonName := by
  cases k with
  | null | bool _ | str _ => exact iff_of_false (not_fails_ok _) (fun h => h trivial)
  | int n =>
    refine (whole_fails_iff n).trans ?_
    exact (Bool.not_eq_true _).to_iff.symm
  | float x =>
    refine (number_fails_iff x).trans ?_
    exact (Bool.not_eq_true _).to_iff.symm
  | tuple _ | bytes _ | range _ _ | object _ => exact iff_of_true ⟨_, rfl⟩ id

/-! ## What a value is refused for -/

/-- The value holds something that JSON has no form for. -/
def HoldsForeign (v : Value) : Prop := ∃ w, v.Holds w ∧ w.IsForeign

theorem holdsForeign_list {items : List Value} :
    HoldsForeign (.list items) ↔ ∃ v ∈ items, HoldsForeign v := by
  constructor
  · rintro ⟨w, hw, hforeign⟩
    cases hw with
    | self => exact hforeign.elim
    | list hv hw => exact ⟨_, hv, w, hw, hforeign⟩
  · rintro ⟨v, hv, w, hw, hforeign⟩
    exact ⟨w, .list hv hw, hforeign⟩

theorem holdsForeign_tuple {items : List Value} :
    HoldsForeign (.tuple items) ↔ ∃ v ∈ items, HoldsForeign v := by
  constructor
  · rintro ⟨w, hw, hforeign⟩
    cases hw with
    | self => exact hforeign.elim
    | tuple hv hw => exact ⟨_, hv, w, hw, hforeign⟩
  · rintro ⟨v, hv, w, hw, hforeign⟩
    exact ⟨w, .tuple hv hw, hforeign⟩

theorem holdsForeign_dict {entries : Entries} :
    HoldsForeign (.dict entries) ↔ ∃ e ∈ entries, ¬ e.1.IsJsonName ∨ HoldsForeign e.2 := by
  constructor
  · rintro ⟨w, hw, hforeign⟩
    cases hw with
    | self =>
      obtain ⟨e, he, hkey⟩ := hforeign
      exact ⟨e, he, .inl hkey⟩
    | dict hv hw => exact ⟨_, hv, .inr ⟨w, hw, hforeign⟩⟩
  · rintro ⟨⟨k, v⟩, he, hkey | ⟨w, hw, hforeign⟩⟩
    · exact ⟨.dict entries, .self _, ⟨k, v⟩, he, hkey⟩
    · exact ⟨w, .dict he hw, hforeign⟩

/-- A value that holds itself only is refused if it is foreign itself. -/
theorem holdsForeign_self {v : Value} (h : ∀ w, v.Holds w → w = v) :
    HoldsForeign v ↔ v.IsForeign := by
  constructor
  · rintro ⟨w, hw, hforeign⟩
    exact h w hw ▸ hforeign
  · intro hforeign
    exact ⟨v, .self v, hforeign⟩

mutual

/-- Strict JSON refuses exactly the values that hold something it has no form for. -/
theorem write_fails_iff : (v : Value) → (Fails (write .strict v) ↔ HoldsForeign v)
  | .list items => by
    rw [write, fails_map_iff, holdsForeign_list]
    exact writeItems_fails_iff items
  | .tuple items => by
    rw [write, fails_map_iff, holdsForeign_tuple]
    exact writeItems_fails_iff items
  | .dict entries => by
    rw [write, fails_map_iff, holdsForeign_dict]
    exact writeEntries_fails_iff entries
  | .float x => by
    rw [write, number_fails_iff, holdsForeign_self (by rintro _ ⟨⟩; rfl)]
    exact Iff.rfl
  | .int n => by
    rw [write, whole_fails_iff, holdsForeign_self (by rintro _ ⟨⟩; rfl)]
    exact Iff.rfl
  | .null | .bool _ | .str _ => by
    rw [write, holdsForeign_self (by rintro _ ⟨⟩; rfl)]
    exact iff_of_false (not_fails_ok _) id
  | .view _ | .bytes _ | .range .. | .object _ => by
    rw [write, holdsForeign_self (by rintro _ ⟨⟩; rfl)]
    exact iff_of_true ⟨_, rfl⟩ trivial

theorem writeItems_fails_iff : (items : List Value) →
    (Fails (writeItems .strict items) ↔ ∃ v ∈ items, HoldsForeign v)
  | [] => iff_of_false (not_fails_ok _) (by simp)
  | v :: rest => by
    have hrest := writeItems_fails_iff rest
    rw [writeItems, fails_bind_iff fun text => (fails_map_iff (text :: ·)).trans hrest,
      write_fails_iff v]
    simp only [List.mem_cons, exists_eq_or_imp]

theorem writeEntries_fails_iff : (entries : List (Key × Value)) →
    (Fails (writeEntries .strict entries) ↔
      ∃ e ∈ entries, ¬ e.1.IsJsonName ∨ HoldsForeign e.2)
  | [] => iff_of_false (not_fails_ok _) (by simp)
  | (k, v) :: rest => by
    have hrest := writeEntries_fails_iff rest
    have hvalue : ∀ name : String, Fails (do
        let text ← write .strict v
        return (string name ++ ":" ++ text) :: (← writeEntries .strict rest)) ↔
          HoldsForeign v ∨ ∃ e ∈ rest, ¬ e.1.IsJsonName ∨ HoldsForeign e.2 := by
      intro name
      rw [fails_bind_iff fun text => (fails_map_iff (_ :: ·)).trans hrest, write_fails_iff v]
    rw [writeEntries, fails_bind_iff hvalue, key_fails_iff]
    simp only [List.mem_cons, exists_eq_or_imp, or_assoc]

end

/-- Nothing but strict JSON decides whether there is JSON for a script. -/
theorem scriptSafe_fails_iff (v : Value) : Fails (scriptSafe v) ↔ HoldsForeign (asObject v) := by
  rw [scriptSafe, fails_map_iff, write_fails_iff]

end Json

end Curly
