import Curly.Number.Binary64

/-!
# Data values

The values a template is rendered against: scalars, lists and tuples, mappings in insertion order,
and three kinds that a template can show but not step into or write as JSON (bytes, objects) or
only step into (ranges). A mapping is either a plain one (`dict`) or a read-only one (`view`).

A value is finite: nothing holds itself, and it may be nested as deep as one likes. Its texts are of
Unicode scalar values. Whole numbers are of any size; only reading and writing them knows a limit
(`digitLimit`), and only what is longer than `countLimit` cannot be counted. Of an object nothing is
known but a text; a read-only mapping, where it is no more than an object, has one text whatever its
entries are.

Keys have a type of their own, `Key`, the values that may serve as one. Two keys are one key when
they are equal as values (`Key.equal`), so the number 1, the number 1.0 and true name one entry.
-/

namespace Curly

/-- A value that may be the key of a mapping. -/
inductive Key where
  | null
  | bool (b : Bool)
  | int (n : Int)
  | float (x : Binary64)
  | str (s : String)
  | tuple (items : List Key)
  | bytes (octets : List UInt8)
  | range (start stop : Int)
  | object (text : String)
deriving Repr, Inhabited

/-- A value of the data a template is rendered against. -/
inductive Value where
  | null
  | bool (b : Bool)
  | int (n : Int)
  | float (x : Binary64)
  | str (s : String)
  | list (items : List Value)
  | tuple (items : List Value)
  | dict (entries : List (Key × Value))
  | view (entries : List (Key × Value))
  | bytes (octets : List UInt8)
  | range (start stop : Int)
  | object (text : String)
deriving Repr, Inhabited

/-- The number of whole numbers from `start` up to, but without, `stop`. -/
def rangeLength (start stop : Int) : Nat := (stop - start).toNat

namespace Key

/-- The whole number a key is equal to, if it is a whole number of any kind. -/
def whole? : Key → Option Int
  | bool b => some (if b then 1 else 0)
  | int n => some n
  | float x => x.toInt?
  | _ => none

mutual

/-- Whether two keys are one key. Numbers are compared by size whatever their kind, ranges by
the numbers in them; an object is equal to itself only, so no two are. -/
def equal : Key → Key → Bool
  | null, null => true
  | str s, str t => s == t
  | tuple xs, tuple ys => equalAll xs ys
  | bytes a, bytes b => a == b
  | range a b, range c d =>
    rangeLength a b == rangeLength c d && (rangeLength a b == 0 || a == c)
  | float x, float y => x.equal y
  | x, y => match x.whole?, y.whole? with
    | some n, some m => n == m
    | _, _ => false

/-- Whether two lists of keys are equal, key by key. -/
def equalAll : List Key → List Key → Bool
  | [], [] => true
  | x :: xs, y :: ys => equal x y && equalAll xs ys
  | _, _ => false

end

/-- The name of a key's type. -/
def typeName : Key → String
  | null => "NoneType"
  | bool _ => "bool"
  | int _ => "int"
  | float _ => "float"
  | str _ => "str"
  | tuple _ => "tuple"
  | bytes _ => "bytes"
  | range .. => "range"
  | object _ => "Opaque"

end Key

/-- The entries of a mapping, in insertion order. -/
abbrev Entries := List (Key × Value)

namespace Entries

/-- Sets the value under a key: in its place if the key is there, else at the end. -/
def insert (key : Key) (value : Value) : Entries → Entries
  | [] => [(key, value)]
  | (k, v) :: rest =>
    if k.equal key then (k, value) :: rest else (k, v) :: insert key value rest

/-- The mapping that results from setting the entries of a list one after another. -/
def ofList (pairs : List (Key × Value)) : Entries :=
  pairs.foldl (fun entries (key, value) => insert key value entries) []

/-- The value under a text key. -/
def get? (name : String) : Entries → Option Value
  | [] => none
  | (.str s, v) :: rest => if s = name then some v else get? name rest
  | _ :: rest => get? name rest

end Entries

namespace Value

/-- The name of a value's type. -/
def typeName : Value → String
  | null => "NoneType"
  | bool _ => "bool"
  | int _ => "int"
  | float _ => "float"
  | str _ => "str"
  | list _ => "list"
  | tuple _ => "tuple"
  | dict _ => "dict"
  | view _ => "ReadOnlyMap"
  | bytes _ => "bytes"
  | range .. => "range"
  | object _ => "Opaque"

/-- Whether a value counts as true: nothing, false, zero, and what is empty do not. -/
def asBool : Value → Bool
  | null => false
  | bool b => b
  | int n => n != 0
  | float x => !x.isZero
  | str s => s != ""
  | list items => !items.isEmpty
  | tuple items => !items.isEmpty
  | dict entries => !entries.isEmpty
  | view entries => !entries.isEmpty
  | bytes octets => !octets.isEmpty
  | range start stop => rangeLength start stop != 0
  | object _ => true

/-- The items a loop goes over: those of a list or a tuple. -/
def items? : Value → Option (List Value)
  | list items => some items
  | tuple items => some items
  | _ => none

/-- The entries of a mapping of either kind. -/
def entries? : Value → Option Entries
  | dict entries => some entries
  | view entries => some entries
  | _ => none

/-- The value at a place of a list, a tuple or a range. -/
def at? (index : Nat) : Value → Option Value
  | list items => items[index]?
  | tuple items => items[index]?
  | range start stop => if index < rangeLength start stop then some (int (start + index)) else none
  | _ => none

end Value

end Curly
