import Curly.Number.Limit
import Curly.Text.Blank
import Curly.Text.Split
import Curly.Value.Basic

/-!
# Paths into data

A path is written as segments between dots. A segment names an entry of a mapping or, in digits,
a place of a sequence. A path that reads as a number or as `true` or `false` is a literal and
stands for itself (`literal?`), whatever the data holds. Blanks around a path do not count.

Looking a path up can fail (`LookupFault`): a whole number in it may have too many digits, and a
range too many items to be counted. That something is missing is no failure.
-/

namespace Curly

namespace Path

/-- A character a path is written with: an ASCII letter or digit, the underscore, the dot. -/
def isPathChar (c : Char) : Bool := c.isAlphanum || c == '_' || c == '.'

/-- The number a path reads as: digits with an optional minus before them, whole, or with a point
and more digits. -/
def number? (cs : List Char) : Option (Except NumeralFault Value) :=
  let (negative, cs) := match cs with
    | '-' :: cs => (true, cs)
    | cs => (false, cs)
  let whole := cs.takeWhile Char.isDigit
  if whole = [] then none
  else match cs.dropWhile Char.isDigit with
    | [] => some <| (Numeral.read whole).map fun (size : Nat) =>
      .int (if negative then -(size : Int) else size)
    | '.' :: fraction =>
      if fraction ≠ [] ∧ fraction.all Char.isDigit then
        some (.ok (.float (Decimal.toBinary64
          ⟨negative, digitsValue (whole ++ fraction), -(fraction.length : Int)⟩)))
      else none
    | _ => none

/-- The value that a path stands for whatever the data. -/
def literal? (cs : List Char) : Option (Except NumeralFault Value) :=
  match number? cs with
  | some value => some value
  | none =>
    if cs = "true".toList then some (.ok (.bool true))
    else if cs = "false".toList then some (.ok (.bool false))
    else none

/-- The place of a sequence that a segment names: ASCII digits and nothing else. -/
def index? (segment : String) : Option (Except NumeralFault Nat) :=
  let cs := segment.toList
  if cs ≠ [] ∧ cs.all Char.isDigit then some (Numeral.read cs) else none

end Path

/-- Why a path, or a name, cannot be looked up. -/
inductive LookupFault where
  /-- A whole number in the path has too many digits. -/
  | numeral (fault : NumeralFault)
  /-- A range has more items than can be counted. -/
  | tooManyItems
  /-- The name is an item of a sequence of a type, which has no names for its items. -/
  | itemNamed (typeName : String)
  /-- The name is a part of a text. -/
  | partNamed
  /-- Bytes have no text in them. -/
  | textInBytes
  /-- A value of a type has nothing in it. -/
  | noItems (typeName : String)
deriving DecidableEq, Repr

/-- The wording of a fault. -/
def LookupFault.message : LookupFault → String
  | numeral fault => fault.message
  | tooManyItems => "Python int too large to convert to C ssize_t"
  | itemNamed typeName => typeName ++ " indices must be integers or slices, not str"
  | partNamed => "string indices must be integers, not 'str'"
  | textInBytes => "a bytes-like object is required, not 'str'"
  | noItems typeName => "argument of type '" ++ typeName ++ "' is not iterable"

/-- The most items of a sequence that can be counted. -/
def countLimit : Nat := Nat.pow 2 63 - 1

namespace Value

/-- Whether the items of a value have places. -/
def isSequence : Value → Bool
  | list _ | tuple _ | range .. => true
  | _ => false

/-- The item at a place of a sequence, if there is one. Before a range is asked for one its items
are counted. -/
def item (v : Value) (index : Nat) : Except LookupFault (Option Value) :=
  match v with
  | range start stop =>
    if rangeLength start stop ≤ countLimit then .ok (v.at? index) else .error .tooManyItems
  | _ => .ok (v.at? index)

/-- One step of a path: the entry of a mapping under the segment, or the item of a sequence at
the place it names. Nothing else can be stepped into. -/
def child? (v : Value) (segment : String) : Except LookupFault (Option Value) :=
  match v.entries? with
  | some entries => .ok (entries.get? segment)
  | none =>
    if v.isSequence then
      match Path.index? segment with
      | some place => do v.item (← place.mapError .numeral)
      | none => .ok none
    else .ok none

/-- The value that several steps lead to. -/
def descend? (v : Value) : List String → Except LookupFault (Option Value)
  | [] => .ok (some v)
  | segment :: rest => do
    match ← v.child? segment with
    | some w => w.descend? rest
    | none => return none

/-- What steps lead to from a value that may be missing. -/
def descendFrom? (found : Option Value) (segments : List String) :
    Except LookupFault (Option Value) :=
  match found with
  | some v => v.descend? segments
  | none => .ok none

@[simp] theorem descend?_nil (v : Value) : v.descend? [] = .ok (some v) := rfl

theorem descend?_cons (v : Value) (segment : String) (rest : List String) :
    v.descend? (segment :: rest) = (v.child? segment).bind (descendFrom? · rest) := by
  rw [descend?]
  rcases v.child? segment with fault | _ | w
  · rfl
  · rfl
  · rfl

@[simp] theorem descendFrom?_some (v : Value) (segments : List String) :
    descendFrom? (some v) segments = v.descend? segments := rfl

@[simp] theorem descendFrom?_none (segments : List String) :
    descendFrom? none segments = .ok none := rfl

theorem child?_of_entries? {v : Value} {entries : Entries} (h : v.entries? = some entries)
    (segment : String) : v.child? segment = .ok (entries.get? segment) := by
  rw [child?, h]

end Value

end Curly
