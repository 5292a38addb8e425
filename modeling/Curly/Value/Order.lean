import Curly.Value.Basic
import Curly.Value.Sorting

/-!
# The order of keys

Keys are put in order by `Key.less`: texts and bytes as in a dictionary, numbers by their size
whatever their kind, tuples by the first items that differ. Keys of other types, or of two types,
are in no order, and then there is no sorted list of them (`sortByKey`).
-/

namespace Curly

/-- Two keys that are in no order, by their types. -/
structure OrderFault where
  left : String
  right : String
deriving DecidableEq, Repr

/-- The wording of a fault. -/
def OrderFault.message (f : OrderFault) : String :=
  "'<' not supported between instances of '" ++ f.left ++ "' and '" ++ f.right ++ "'"

/-- The size of a number: none, beyond all others, or `numerator / 2 ^ places`. -/
inductive Size where
  | none
  | infinite (negative : Bool)
  | finite (numerator : Int) (places : Nat)
deriving DecidableEq, Repr

/-- Whether a size is less than another; none is less than none. -/
def Size.less : Size → Size → Bool
  | finite n places, finite m places' => n * Int.pow 2 places' < m * Int.pow 2 places
  | infinite negative, finite .. => negative
  | finite .., infinite negative => !negative
  | infinite negative, infinite negative' => negative && !negative'
  | _, _ => false

/-- The size of a binary number. -/
def Binary64.size : Binary64 → Size
  | nan => .none
  | infinite negative => .infinite negative
  | finite negative mantissa exponent =>
    let numerator : Int := mantissa * Int.pow 2 exponent.toNat
    .finite (if negative then -numerator else numerator) (-exponent).toNat

namespace Key

/-- The size of a key that is a number. -/
def size? : Key → Option Size
  | bool b => some (.finite (if b then 1 else 0) 0)
  | int n => some (.finite n 0)
  | float x => some x.size
  | _ => none

mutual

/-- Whether a key comes before another. -/
def less : Key → Key → Except OrderFault Bool
  | str s, str t => .ok (s < t)
  | bytes a, bytes b => .ok (a.map UInt8.toNat < b.map UInt8.toNat)
  | tuple xs, tuple ys => lessItems xs ys
  | k, l => match k.size?, l.size? with
    | some a, some b => .ok (a.less b)
    | _, _ => .error ⟨k.typeName, l.typeName⟩

/-- Whether the first of two items that differ comes before the other; a list comes before a longer
one that begins with it. -/
def lessItems : List Key → List Key → Except OrderFault Bool
  | [], ys => .ok (!ys.isEmpty)
  | _, [] => .ok false
  | x :: xs, y :: ys => if x.equal y then lessItems xs ys else less x y

end

end Key

variable {α : Type}

/-- The entries in the order of their keys. -/
def sortByKey (entries : List (Key × α)) : Except OrderFault (List (Key × α)) :=
  Sorting.sort (fun a b => a.1.less b.1) entries

end Curly
