import Curly.Path

/-!
# Scopes

A scope is the data of a rendering with layers of bindings put on it: a loop puts one on for each
item, a layout one for the page it wraps. A name is looked up in the layers from the latest to the
earliest and then in the data. A binding may be to no value at all; it then hides the name.

The data is a mapping as a rule. Other data has no names, and under layers it may even be unfit to
be asked for one (`LookupFault`). `Scope.flat` is the single mapping that a scope amounts to.
-/

namespace Curly

/-- The bindings of one layer. -/
abbrev Bindings := List (Key × Option Value)

namespace Bindings

/-- Sets the binding of a key: in its place if the key is there, else at the end. -/
def insert (key : Key) (value : Option Value) : Bindings → Bindings
  | [] => [(key, value)]
  | (k, v) :: rest =>
    if k.equal key then (k, value) :: rest else (k, v) :: insert key value rest

/-- The binding of a name, if the layer has one. -/
def get? (name : String) : Bindings → Option (Option Value)
  | [] => none
  | (.str s, v) :: rest => if s = name then some v else get? name rest
  | _ :: rest => get? name rest

/-- The bindings of a mapping. -/
def ofEntries (entries : Entries) : Bindings := entries.map fun (k, v) => (k, some v)

/-- The bindings overwritten by those of a later layer. -/
def overwrite (bindings later : Bindings) : Bindings :=
  later.foldl (fun bindings (k, v) => insert k v bindings) bindings

end Bindings

/-- Whether a text stands somewhere in another. -/
def Text.isPart (part : List Char) : List Char → Bool
  | [] => part.isEmpty
  | c :: rest => part.isPrefixOf (c :: rest) || isPart part rest

/-- Whether a value is a certain text. -/
def Value.isText (text : String) : Value → Bool
  | str s => s == text
  | _ => false

/-- What data under layers has under a name. -/
def Value.underlying (v : Value) (name : String) : Except LookupFault (Option Value) :=
  match v.entries? with
  | some entries => .ok (entries.get? name)
  | none => match v with
    | list items => if items.any (isText name) then .error (.itemNamed "list") else .ok none
    | tuple items => if items.any (isText name) then .error (.itemNamed "tuple") else .ok none
    | str s => if Text.isPart name.toList s.toList then .error .partNamed else .ok none
    | bytes _ => .error .textInBytes
    | range .. => .ok none
    | v => .error (.noItems v.typeName)

/-- The data of a rendering under layers of bindings, the latest layer first. -/
structure Scope where
  data : Value
  layers : List Bindings
deriving Repr

namespace Scope

/-- Data without any layer. -/
def ofData (data : Value) : Scope := ⟨data, []⟩

/-- What is given to a rendering as its data. Data that counts as false is as good as none. -/
def ofGiven (data : Option Value) : Scope :=
  match data with
  | some v => ofData (if v.asBool then v else .dict [])
  | none => ofData (.dict [])

/-- The scope with one more layer. -/
def push (s : Scope) (bindings : Bindings) : Scope := { s with layers := bindings :: s.layers }

/-- The value of a name. -/
def get (s : Scope) (name : String) : Except LookupFault (Option Value) :=
  match s.layers.findSome? (Bindings.get? name) with
  | some binding => .ok binding
  | none => if s.layers.isEmpty then s.data.child? name else s.data.underlying name

/-- Data that is a mapping can always be asked for a name. -/
theorem get_eq_ok {s : Scope} {entries : Entries} (h : s.data.entries? = some entries)
    (name : String) :
    s.get name = .ok ((s.layers.findSome? (Bindings.get? name)).getD (entries.get? name)) := by
  simp only [get, Value.child?_of_entries? h, Value.underlying, h]
  cases s.layers.findSome? (Bindings.get? name) <;> simp

/-- The value of a path, if it has one. -/
def value (s : Scope) (path : String) : Except LookupFault (Option Value) :=
  let cs := Text.trim path.toList
  match Path.literal? cs with
  | some value => (value.mapError .numeral).map some
  | none =>
    if cs = [] then .ok none
    else do
      let (first, others) := Text.split '.' cs
      Value.descendFrom? (← s.get (String.ofList first)) (others.map String.ofList)

/-- The single mapping that the scope amounts to. -/
def flat (s : Scope) : Bindings :=
  s.layers.foldr (fun later bindings => bindings.overwrite later)
    (Bindings.ofEntries (s.data.entries?.getD []))

end Scope

/-- Whether a value that may be missing counts as true. -/
def countsAsTrue (v : Option Value) : Bool := v.any Value.asBool

end Curly
