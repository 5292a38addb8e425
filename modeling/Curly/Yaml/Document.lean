import Curly.Value.Mapping
import Curly.Yaml.Node
import Curly.Yaml.Scalar

/-!
# Data files

A data file holds one value, in block form or in brackets; an empty one holds null. No mapping has
two equal keys. A key written `<<` takes the entries of another mapping, or of several, into its
own, where the entries written there win.

`Yaml.read` gives the value of a text.
-/

namespace Curly.Yaml

/-- Whether two keys of a data file are one key; there is one number that is no number. -/
def isSameKey : Key → Key → Bool
  | .float .nan, .float .nan => true
  | k, l => k.equal l

/-- The mapping of entries, of which no two have the same key. -/
def distinct : List (Key × Value) → Except Fault Entries
  | [] => .ok []
  | (k, v) :: rest => do
    let entries ← distinct rest
    if entries.any (fun (l, _) => isSameKey k l) then throw .malformed
    return (k, v) :: entries

/-- The key that a value is. A list is one as a tuple. -/
def keyOf : Value → Except Fault Key
  | .list items => (Value.tuple items).toKey.mapError .badKey
  | .dict _ => .error .malformed
  | v => v.toKey.mapError .badKey

/-- The text of a node that is the key of a mapping and nothing else. -/
def Node.sign? : Node → Option String
  | .plain text => if isReserved text then some text else none
  | _ => none

/-- Whether a node is the key that takes entries from other mappings. -/
def Node.isMerge (n : Node) : Bool := n.sign? == some "<<"

mutual

/-- The value of a node. -/
def Node.value : Node → Except Fault Value
  | .plain text => plainValue text
  | .quoted text => .ok (.str text)
  | .list items => do return .list (← nodeValues items)
  | .map nodes => do
    let (taken, own) ← nodeEntries nodes
    if taken.isEmpty then return .dict (← distinct own)
    else return .dict (Entries.ofList (taken ++ own))

/-- The values of nodes. -/
def nodeValues : List Node → Except Fault (List Value)
  | [] => .ok []
  | n :: rest => do
    let v ← n.value
    return v :: (← nodeValues rest)

/-- The entries that a mapping takes from others, in one place, and its own. -/
def nodeEntries : List (Node × Node) → Except Fault (List (Key × Value) × List (Key × Value))
  | [] => .ok ([], [])
  | (k, v) :: rest => do
    if k.isMerge then
      let more ← takenEntries v
      if !more.isEmpty && rest.any (fun (l, _) => l.isMerge) then throw .malformed
      let (taken, own) ← nodeEntries rest
      return (more ++ taken, own)
    else
      let key ← match k.sign? with
        | some text => pure (.str text)
        | none => keyOf (← k.value)
      let value ← v.value
      let (taken, own) ← nodeEntries rest
      return (taken, (key, value) :: own)

/-- The entries that are taken from a mapping or from the mappings of a list. -/
def takenEntries : Node → Except Fault (List (Key × Value))
  | .map nodes => do
    let (taken, own) ← nodeEntries nodes
    return taken ++ own
  | .list items => takenFromAll items
  | _ => .error .malformed

/-- The entries that are taken from several mappings, of which the first ones win. -/
def takenFromAll : List Node → Except Fault (List (Key × Value))
  | [] => .ok []
  | .map nodes :: rest => do
    let (taken, own) ← nodeEntries nodes
    return (← takenFromAll rest) ++ (taken ++ own)
  | _ => .error .malformed

end

/-- How the text of a data file is read. -/
abbrev Reader := String → Except Fault Value

/-- The value of a data file. -/
def read (text : String) : Except Fault Value :=
  match (marks? text.toList).bind Node.ofMarks? with
  | some node => node.value
  | none => .error .malformed

end Curly.Yaml
