import Curly.Proofs.Blanks
import Curly.Scope

/-!
# Paths and places

A path is a literal, or a name with steps after it (`Scope.value_eq_bind_get`,
`Scope.value_eq_some_iff`). Steps are taken one after another (`Value.descend?_append`), and a path
that is no literal does not become one by more steps (`Path.literal?_append_eq_none`). The digits of
a place lead to the item at it, if they are few enough to be read (`Value.child?_digitsOf`).
-/

namespace Curly

/-! ## Segments -/

namespace Text

variable {separator : Char}

theorem split_cons (separator c : Char) (rest : List Char) :
    split separator (c :: rest) =
      if c = separator then ([], splitList separator rest)
      else (c :: (split separator rest).1, (split separator rest).2) := by
  rw [split, splitList]

theorem split_of_not_mem {cs : List Char} (h : separator ∉ cs) : split separator cs = (cs, []) := by
  induction cs with
  | nil => rfl
  | cons c rest ih =>
    rw [List.mem_cons, not_or] at h
    rw [split_cons, if_neg (Ne.symm h.1), ih h.2]

/-- A separator ends a part. -/
theorem split_append_cons (cs more : List Char) :
    split separator (cs ++ separator :: more) =
      ((split separator cs).1, (split separator cs).2 ++ splitList separator more) := by
  induction cs with
  | nil => rw [List.nil_append, split_cons, if_pos rfl, split, List.nil_append]
  | cons c rest ih =>
    rw [List.cons_append, split_cons, split_cons, ih]
    by_cases hc : c = separator
    · rw [if_pos hc, if_pos hc, splitList, ih]
      rfl
    · rw [if_neg hc, if_neg hc]

end Text

/-! ## Literals and places -/

namespace Path

theorem toNat_of_isDigit {c : Char} (h : c.isDigit = true) : 0x30 ≤ c.toNat ∧ c.toNat ≤ 0x39 :=
  ((Bool.and_eq_true _ _).mp h).imp of_decide_eq_true of_decide_eq_true

/-- The characters of paths lie between the point and the small letters. -/
theorem toNat_of_isPathChar {c : Char} (h : isPathChar c) : 0x2E ≤ c.toNat ∧ c.toNat ≤ 0x7A := by
  have hdigit : c.isDigit → 0x30 ≤ c.toNat ∧ c.toNat ≤ 0x39 := toNat_of_isDigit
  have hupper : c.isUpper → 0x41 ≤ c.toNat ∧ c.toNat ≤ 0x5A := fun h => of_decide_eq_true h
  have hlower : c.isLower → 0x61 ≤ c.toNat ∧ c.toNat ≤ 0x7A :=
    fun h => ((Bool.and_eq_true _ _).mp h).imp of_decide_eq_true of_decide_eq_true
  have halpha : c.isAlpha → c.isUpper ∨ c.isLower := (Bool.or_eq_true _ _).mp
  have halphanum : c.isAlphanum → c.isAlpha ∨ c.isDigit := (Bool.or_eq_true _ _).mp
  rw [isPathChar, Bool.or_eq_true, Bool.or_eq_true, beq_iff_eq, beq_iff_eq] at h
  rcases h with (h | rfl) | rfl
  · rcases halphanum h with h | h
    · rcases halpha h with h | h
      · have hrange := hupper h
        omega
      · have hrange := hlower h
        omega
    · have hrange := hdigit h
      omega
  · decide
  · decide

theorem isBlank_of_isPathChar {c : Char} (h : isPathChar c) : Text.isBlank c = false := by
  have hrange := toNat_of_isPathChar h
  simp only [Text.isBlank, Bool.or_eq_false_iff, Bool.and_eq_false_iff, decide_eq_false_iff_not,
    beq_eq_false_iff_ne]
  omega

theorem isBlank_of_isDigit {c : Char} (h : c.isDigit = true) : Text.isBlank c = false :=
  isBlank_of_isPathChar (by simp [isPathChar, Char.isAlphanum, h])

/-- A path without a minus before it. -/
def unsigned : List Char → List Char
  | [] => []
  | c :: rest => if c = '-' then rest else c :: rest

/-- Digits, with or without a point and more digits after them. -/
def IsNumeral (cs : List Char) : Prop :=
  cs.takeWhile Char.isDigit ≠ [] ∧
    (cs.dropWhile Char.isDigit = [] ∨ ∃ fraction, cs.dropWhile Char.isDigit = '.' :: fraction ∧
      fraction ≠ [] ∧ fraction.all Char.isDigit)

/-- What a numeral reads as: a whole number with few enough digits to be written, a number with a
point, or a fault, if there are too many digits. -/
inductive Reading : Except NumeralFault Value → Prop where
  | whole {n : Int} : Numeral.fits n → Reading (.ok (.int n))
  | float (x : Binary64) : Reading (.ok (.float x))
  | tooLong (digits : Nat) : Reading (.error (.tooLongToRead digits))

/-- A number is below the power of ten with its digits. -/
theorem digitsValue_lt {cs : List Char} (h : ∀ c ∈ cs, c.isDigit = true) :
    digitsValue cs < Numeral.bound cs.length := by
  have hdigit : ∀ c : Char, c.isDigit = true → c.toNat - '0'.toNat < 10 := by
    intro c hc
    have hrange := toNat_of_isDigit hc
    have hzero : '0'.toNat = 0x30 := rfl
    omega
  -- the digits so far are a number below any that follows
  have hfold : ∀ (cs : List Char) (n : Nat), (∀ c ∈ cs, c.isDigit = true) →
      cs.foldl (fun n c => 10 * n + (c.toNat - '0'.toNat)) n < (n + 1) * Numeral.bound cs.length := by
    intro cs
    induction cs with
    | nil =>
      intro n _
      exact Nat.lt_of_lt_of_eq n.lt_succ_self (Nat.mul_one _).symm
    | cons c rest ih =>
      intro n hcs
      obtain ⟨hc, hrest⟩ := List.forall_mem_cons.mp hcs
      have hstep := ih (10 * n + (c.toNat - '0'.toNat)) hrest
      have hnext : 10 * n + (c.toNat - '0'.toNat) + 1 ≤ (n + 1) * 10 := by
        have := hdigit c hc
        omega
      calc _ < (10 * n + (c.toNat - '0'.toNat) + 1) * Numeral.bound rest.length := hstep
        _ ≤ (n + 1) * 10 * Numeral.bound rest.length := Nat.mul_le_mul_right _ hnext
        _ = (n + 1) * Numeral.bound (rest.length + 1) := by
          rw [Numeral.bound_succ, Nat.mul_assoc, Nat.mul_comm 10]
  have hall := hfold cs 0 h
  rwa [Nat.zero_add, Nat.one_mul] at hall

/-- What can be read can be written. -/
theorem reading_read {cs : List Char} (h : ∀ c ∈ cs, c.isDigit = true) (negative : Bool) :
    Reading ((Numeral.read cs).map fun (size : Nat) =>
      .int (if negative then -(size : Int) else size)) := by
  rw [Numeral.read]
  by_cases hshort : cs.length ≤ digitLimit
  · rw [if_pos hshort]
    refine .whole ((Numeral.fits_iff _).mpr ?_)
    have hlt : digitsValue cs < Numeral.bound digitLimit :=
      Nat.lt_of_lt_of_le (digitsValue_lt h) (Numeral.bound_mono hshort)
    cases negative with
    | true => simpa using hlt
    | false => simpa using hlt
  · rw [if_neg hshort]
    exact .tooLong cs.length

/-- A path reads as a number exactly if it is a numeral after its minus. -/
theorem number?_cases (cs : List Char) :
    (number? cs = none ∧ ¬ IsNumeral (unsigned cs)) ∨
      ∃ read, number? cs = some read ∧ IsNumeral (unsigned cs) ∧ Reading read := by
  unfold number?
  split
  next negative digits heq =>
    have hunsigned : unsigned cs = digits := by
      split at heq
      · cases heq
        rfl
      · next hminus =>
        cases heq
        rcases cs with _ | ⟨c, rest⟩
        · rfl
        · rw [unsigned, if_neg]
          rintro rfl
          exact hminus rest rfl
    -- behind the minus: no digits, digits alone, digits with a fraction, or digits with other text
    rw [hunsigned]
    dsimp only
    by_cases hwhole : digits.takeWhile Char.isDigit = []
    · rw [if_pos hwhole]
      exact .inl ⟨rfl, fun hnumeral => hnumeral.1 hwhole⟩
    · rw [if_neg hwhole]
      split
      · next hrest =>
        have hdigits : ∀ c ∈ digits.takeWhile Char.isDigit, c.isDigit = true :=
          fun c hc => List.mem_takeWhile_imp hc
        exact .inr ⟨_, rfl, ⟨hwhole, .inl hrest⟩, reading_read hdigits negative⟩
      · next fraction hrest =>
        by_cases hfraction : fraction ≠ [] ∧ fraction.all Char.isDigit
        · rw [if_pos hfraction]
          exact .inr ⟨_, rfl, ⟨hwhole, .inr ⟨fraction, hrest, hfraction⟩⟩, .float _⟩
        · rw [if_neg hfraction]
          refine .inl ⟨rfl, ?_⟩
          rintro ⟨-, hnil | ⟨other, hother, hdigits⟩⟩
          · rw [hrest] at hnil
            cases hnil
          · rw [hrest] at hother
            cases hother
            exact hfraction hdigits
      · next hnil hpoint =>
        refine .inl ⟨rfl, ?_⟩
        rintro ⟨-, hrest | ⟨fraction, hrest, -⟩⟩
        · exact hnil hrest
        · exact hpoint fraction hrest

/-- A path that stands for itself reads as a number or is a truth value. -/
theorem literal?_cases {cs : List Char} {read : Except NumeralFault Value}
    (h : literal? cs = some read) : Reading read ∨ ∃ b, read = .ok (.bool b) := by
  rw [literal?] at h
  rcases number?_cases cs with ⟨hnumber, -⟩ | ⟨read', hnumber, -, hread⟩
  · rw [hnumber] at h
    dsimp only at h
    split at h
    · cases h
      exact .inr ⟨true, rfl⟩
    · split at h
      · cases h
        exact .inr ⟨false, rfl⟩
      · cases h
  · rw [hnumber] at h
    cases h
    exact .inl hread

/-- A path that stands for itself has no items. -/
theorem items?_of_literal? {cs : List Char} {v : Value} (h : literal? cs = some (.ok v)) :
    v.items? = none := by
  rcases literal?_cases h with hread | ⟨b, hb⟩
  · cases hread with
    | whole _ => rfl
    | float _ => rfl
  · cases hb
    rfl

/-- A literal that cannot be read is a whole number with too many digits. -/
theorem literal?_eq_error {cs : List Char} {fault : NumeralFault}
    (h : literal? cs = some (.error fault)) : ∃ digits, fault = .tooLongToRead digits := by
  rcases literal?_cases h with hread | ⟨b, hb⟩
  · cases hread
    exact ⟨_, rfl⟩
  · cases hb

/-- Digits beyond the limit are a literal that cannot be read. -/
theorem literal?_of_tooLong {cs : List Char} (hdigits : ∀ c ∈ cs, c.isDigit = true)
    (hlong : digitLimit < cs.length) :
    literal? cs = some (.error (.tooLongToRead cs.length)) := by
  have hne : cs ≠ [] := by
    rintro rfl
    exact Nat.not_lt_zero _ hlong
  have hminus : ∀ rest, cs ≠ '-' :: rest := by
    rintro rest rfl
    exact absurd (hdigits '-' List.mem_cons_self) (by decide)
  have htake : cs.takeWhile Char.isDigit = cs := List.takeWhile_eq_self_iff.mpr hdigits
  have hdrop : cs.dropWhile Char.isDigit = [] := List.dropWhile_eq_nil_iff.mpr hdigits
  have hread : Numeral.read cs = .error (.tooLongToRead cs.length) := if_neg (Nat.not_le.mpr hlong)
  have hnumber : number? cs = some (.error (.tooLongToRead cs.length)) := by
    unfold number?
    split
    next negative digits heq =>
      split at heq
      · next rest => exact (hminus rest rfl).elim
      · cases heq
        dsimp only
        rw [htake, if_neg hne, hdrop, hread]
        rfl
  rw [literal?, hnumber]

theorem unsigned_append_point (cs more : List Char) :
    unsigned (cs ++ '.' :: more) = unsigned cs ++ '.' :: more := by
  cases cs with
  | nil => rfl
  | cons c rest =>
    rw [List.cons_append, unsigned, unsigned]
    by_cases hminus : c = '-'
    · rw [if_pos hminus, if_pos hminus]
    · rw [if_neg hminus, if_neg hminus]
      rfl

/-- A numeral stays one when what begins at a later point is cut off. -/
theorem IsNumeral.of_append_point {cs more : List Char} (h : IsNumeral (cs ++ '.' :: more)) :
    IsNumeral cs := by
  rcases h with ⟨hwhole, hrest⟩
  by_cases hall : cs.all Char.isDigit
  · -- what is cut off is the fraction
    have hdigits : ∀ c ∈ cs, c.isDigit = true := List.all_eq_true.mp hall
    rw [List.takeWhile_append_of_pos hdigits] at hwhole
    refine ⟨?_, .inl (List.dropWhile_eq_nil_iff.mpr hdigits)⟩
    rw [List.takeWhile_eq_self_iff.mpr hdigits]
    rintro rfl
    exact hwhole rfl
  · -- a numeral has nothing but digits after its first point, so it has no later one
    have hne : (cs.dropWhile Char.isDigit).isEmpty = false := by
      rw [List.isEmpty_eq_false_iff]
      intro hnil
      exact hall (List.all_eq_true.mpr (List.dropWhile_eq_nil_iff.mp hnil))
    rw [List.dropWhile_append, hne, if_neg Bool.false_ne_true] at hrest
    rcases hrest with hnil | ⟨fraction, hfraction, -, hdigits⟩
    · exact (List.append_ne_nil_of_right_ne_nil _ (List.cons_ne_nil _ _) hnil).elim
    · rcases hrest : cs.dropWhile Char.isDigit with _ | ⟨c, rest⟩
      · rw [hrest] at hne
        cases hne
      · rw [hrest, List.cons_append] at hfraction
        cases hfraction
        have hpoint : ('.' : Char).isDigit = true :=
          List.all_eq_true.mp hdigits '.' (List.mem_append_right rest List.mem_cons_self)
        cases hpoint

/-- A path that is no literal does not become one by another segment. -/
theorem literal?_append_eq_none {cs : List Char} (h : literal? cs = none) (more : List Char) :
    literal? (cs ++ '.' :: more) = none := by
  have hnumber : number? (cs ++ '.' :: more) = none := by
    rcases number?_cases (cs ++ '.' :: more) with ⟨hnone, -⟩ | ⟨read, -, hnumeral, -⟩
    · exact hnone
    · rw [unsigned_append_point] at hnumeral
      rcases number?_cases cs with ⟨-, hno⟩ | ⟨read', hsome, -, -⟩
      · exact (hno hnumeral.of_append_point).elim
      · rw [literal?, hsome] at h
        cases h
  have hword : ∀ word : List Char, '.' ∉ word → cs ++ '.' :: more ≠ word := by
    rintro word hpoint rfl
    exact hpoint (List.mem_append_right cs List.mem_cons_self)
  rw [literal?, hnumber]
  dsimp only
  rw [if_neg (hword _ (by decide)), if_neg (hword _ (by decide))]

theorem isDigit_of_mem_digitsOf {n : Nat} {c : Char} (h : c ∈ Decimal.digitsOf n) :
    c.isDigit = true :=
  Nat.isDigit_of_mem_toDigits (by decide) (by decide) h

/-- The digits of a place name it. -/
theorem index?_digitsOf (index : Nat) :
    index? (String.ofList (Decimal.digitsOf index)) =
      some (if Numeral.fits index then .ok index
        else .error (.tooLongToRead (Decimal.digitsOf index).length)) := by
  have hdigits : (Decimal.digitsOf index).all Char.isDigit :=
    List.all_eq_true.mpr fun _ hc => isDigit_of_mem_digitsOf hc
  have hvalue : digitsValue (Decimal.digitsOf index) = index := by
    rw [digitsValue, ← Nat.ofDigitChars_eq_foldl]
    exact Nat.ofDigitChars_ten_toDigits
  rw [index?, String.toList_ofList]
  rw [if_pos ⟨Nat.toDigits_ne_nil, hdigits⟩, Numeral.read, hvalue, Numeral.fits, Int.natAbs_natCast]
  simp only [decide_eq_true_eq]

end Path

namespace Value

theorem descend?_append (v : Value) (first second : List String) :
    v.descend? (first ++ second) = (v.descend? first).bind (descendFrom? · second) := by
  induction first generalizing v with
  | nil => rfl
  | cons segment rest ih =>
    rw [List.cons_append, descend?_cons, descend?_cons]
    rcases v.child? segment with fault | _ | w
    · rfl
    · rfl
    · exact ih w

theorem descendFrom?_append (found : Option Value) (first second : List String) :
    descendFrom? found (first ++ second) =
      (descendFrom? found first).bind (descendFrom? · second) := by
  cases found with
  | none => rfl
  | some v => exact v.descend?_append first second

/-- The digits of a place lead to the item at that place, if they can be read. -/
theorem child?_digitsOf {v : Value} {items : List Value} (h : v.items? = some items) {index : Nat}
    (hfits : Numeral.fits index) :
    v.child? (String.ofList (Decimal.digitsOf index)) = .ok items[index]? := by
  have hentries : v.entries? = none := by cases v <;> first | rfl | cases h
  have hsequence : v.isSequence := by cases v <;> first | rfl | cases h
  have hitem : v.item index = .ok items[index]? := by
    cases v <;> first | cases h; rfl | cases h
  rw [child?, hentries]
  dsimp only
  rw [if_pos hsequence, Path.index?_digitsOf, if_pos hfits]
  exact hitem

end Value

namespace Scope

variable {s : Scope} {path : String} {v : Value}

/-- A path that is no literal is looked up by its first segment, and its other segments are steps
from there. -/
theorem value_eq_bind_get (s : Scope) {path : String} {cs : List Char}
    (hcs : Text.trim path.toList = cs) (hne : cs ≠ []) (hliteral : Path.literal? cs = none) :
    s.value path = (s.get (String.ofList (Text.split '.' cs).1)).bind
      (Value.descendFrom? · ((Text.split '.' cs).2.map String.ofList)) := by
  rw [value, hcs, hliteral]
  dsimp only
  rw [if_neg hne]
  rfl

/-- A literal stands for itself, if it can be read. -/
theorem value_of_literal? (s : Scope) {path : String} {read : Except NumeralFault Value}
    (h : Path.literal? (Text.trim path.toList) = some read) :
    s.value path = (read.mapError .numeral).map some := by
  rw [value, h]

/-- The empty path leads nowhere. -/
theorem value_of_trim_eq_nil (s : Scope) {path : String} (h : Text.trim path.toList = []) :
    s.value path = .ok none := by
  have hliteral : Path.literal? [] = none := by decide
  rw [value, h, hliteral]
  rfl

/-- A path leads to a value as a literal, or by the steps that follow a name. -/
theorem value_eq_some_iff {cs : List Char} (hcs : Text.trim path.toList = cs) :
    s.value path = .ok (some v) ↔ Path.literal? cs = some (.ok v) ∨
      Path.literal? cs = none ∧ cs ≠ [] ∧
        ∃ u, s.get (String.ofList (Text.split '.' cs).1) = .ok (some u) ∧
          u.descend? ((Text.split '.' cs).2.map String.ofList) = .ok (some v) := by
  rcases hliteral : Path.literal? cs with _ | read
  · by_cases hne : cs = []
    · subst hne
      rw [s.value_of_trim_eq_nil hcs]
      simp
    · rw [s.value_eq_bind_get hcs hne hliteral]
      rcases s.get (String.ofList (Text.split '.' cs).1) with fault | _ | u
      · simp [Except.bind]
      · simp [Except.bind]
      · simp [Except.bind, hne]
  · rw [s.value_of_literal? (hcs.symm ▸ hliteral)]
    rcases read with fault | w
    · simp [Except.mapError, Except.map]
    · simp [Except.mapError, Except.map]

end Scope

end Curly
