import Curly.Value.Basic

/-!
# Values as mappings

A value that is no mapping may still hold one: a sequence of pairs, each of them a key and a value.
`Value.asEntries` reads it, and `Value.toKey` tells whether a value may be a key: what can be
changed may not, nor what holds such a thing.
-/

namespace Curly

/-- Why a value is no mapping. -/
inductive MappingFault where
  /-- It has no items; its type. -/
  | noItems (typeName : String)
  /-- The item at a place has no items itself. -/
  | noPair (place : Nat)
  /-- The item at a place has another number of items than two. -/
  | wrongLength (place length : Nat)
  /-- A value of a type that no key has stands for a key. -/
  | badKey (typeName : String)
deriving DecidableEq, Repr

/-- The wording of a fault. -/
def MappingFault.message : MappingFault → String
  | noItems typeName => "'" ++ typeName ++ "' object is not iterable"
  | noPair place =>
    "cannot convert dictionary update sequence element #" ++ toString place ++ " to a sequence"
  | wrongLength place length =>
    "dictionary update sequence element #" ++ toString place ++ " has length " ++
      toString length ++ "; 2 is required"
  | badKey typeName => "unhashable type: '" ++ typeName ++ "'"

mutual

/-- The value that a key is. -/
def Key.toValue : Key → Value
  | .null => .null
  | .bool b => .bool b
  | .int n => .int n
  | .float x => .float x
  | .str s => .str s
  | .tuple items => .tuple (Key.toValues items)
  | .bytes octets => .bytes octets
  | .range start stop => .range start stop
  | .object text => .object text

/-- The values that keys are. -/
def Key.toValues : List Key → List Value
  | [] => []
  | k :: rest => k.toValue :: Key.toValues rest

end

namespace Value

mutual

/-- The key that a value is; the type of what is no key if it is none. -/
def toKey : Value → Except String Key
  | .null => .ok .null
  | .bool b => .ok (.bool b)
  | .int n => .ok (.int n)
  | .float x => .ok (.float x)
  | .str s => .ok (.str s)
  | .tuple items => do return .tuple (← toKeys items)
  | .bytes octets => .ok (.bytes octets)
  | .range start stop => .ok (.range start stop)
  | .object text => .ok (.object text)
  | v => .error v.typeName

/-- The keys that values are. -/
def toKeys : List Value → Except String (List Key)
  | [] => .ok []
  | v :: rest => do
    let k ← toKey v
    return k :: (← toKeys rest)

end

mutual

/-- A key is the key that its value is. -/
@[simp] theorem toKey_toValue (k : Key) : k.toValue.toKey = .ok k := by
  match k with
  | .null | .bool _ | .int _ | .float _ | .str _ | .bytes _ | .range .. | .object _ => rfl
  | .tuple items =>
    simp only [Key.toValue, toKey, toKeys_toValues items]
    rfl

/-- Keys are the keys that their values are. -/
@[simp] theorem toKeys_toValues (ks : List Key) : toKeys (Key.toValues ks) = .ok ks := by
  match ks with
  | [] => rfl
  | k :: rest =>
    simp only [Key.toValues, toKeys, toKey_toValue k, toKeys_toValues rest]
    rfl

end

/-- The items of a value: those of a sequence, the keys of a mapping, the characters of a text. -/
def elements? : Value → Option (List Value)
  | str s => some (s.toList.map fun c => str (String.singleton c))
  | list items => some items
  | tuple items => some items
  | dict entries => some (entries.map fun (k, _) => k.toValue)
  | view entries => some (entries.map fun (k, _) => k.toValue)
  | bytes octets => some (octets.map fun b => int b.toNat)
  | range start stop =>
    some ((List.range (rangeLength start stop)).map fun (n : Nat) => int (start + n))
  | _ => none

/-- The entry that the item at a place holds. -/
def pairAt (place : Nat) (item : Value) : Except MappingFault (Key × Value) :=
  match item.elements? with
  | none => .error (.noPair place)
  | some [k, v] => (k.toKey.mapError .badKey).map (·, v)
  | some items => .error (.wrongLength place items.length)

/-- The mapping that results from setting the entries of items, counted from `place`, one after
another. -/
def pairsFrom (place : Nat) (entries : Entries) : List Value → Except MappingFault Entries
  | [] => .ok entries
  | item :: rest => do
    let (k, v) ← pairAt place item
    pairsFrom (place + 1) (entries.insert k v) rest

/-- The entries of a mapping, or of the mapping that a sequence of pairs holds. -/
def asEntries (v : Value) : Except MappingFault Entries :=
  match v with
  | dict entries => .ok entries
  | view entries => .ok entries
  -- the items of a range have no items themselves
  | range .. => if v.asBool then .error (.noPair 0) else .ok []
  | v => match v.elements? with
    | none => .error (.noItems v.typeName)
    | some items => pairsFrom 0 [] items

end Value

end Curly
