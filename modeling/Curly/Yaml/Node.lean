import Curly.Yaml.Mark

/-!
# Nodes of a data file

Marks form a tree of nodes: scalars, lists and mappings. A list in a block may stand at the column
of the key it belongs to, and then has no marks of its own for its beginning and its end. What is
left out is an empty plain scalar. Inside the brackets of a list, a key with its value is a mapping
of one entry.

`Node.ofMarks?` is the single node of a document. The nesting is bounded by the marks there are.
-/

namespace Curly.Yaml

/-- A part of a document that has a value. -/
inductive Node where
  | plain (text : String)
  | quoted (text : String)
  | list (items : List Node)
  | map (entries : List (Node × Node))
deriving Repr, Inhabited

namespace Node

/-- What has been left out. -/
def empty : Node := .plain ""

/-- Whether the next mark is one of some marks. -/
def nextIs (marks : List Mark) (ms : List Mark) : Bool := ms.head?.any marks.contains

mutual

/-- A node; block collections are read outside brackets only. -/
def read (block : Bool) : Nat → List Mark → Option (Node × List Mark)
  | 0, _ => none
  | _, [] => none
  | fuel + 1, m :: ms => match m with
    | .plain text => some (.plain text, ms)
    | .quoted text => some (.quoted text, ms)
    | .openList => do
      let (items, ms) ← flowItems true fuel ms
      return (.list items, ms)
    | .openMap => do
      let (entries, ms) ← flowEntries true fuel ms
      return (.map entries, ms)
    | .openBlockList => do
      guard block
      let (items, ms) ← blockItems fuel ms
      return (.list items, ms)
    | .openBlockMap => do
      guard block
      let (entries, ms) ← blockEntries fuel ms
      return (.map entries, ms)
    | _ => none

/-- A node, or nothing in front of certain marks. -/
def readOr (block : Bool) (ends : List Mark) : Nat → List Mark → Option (Node × List Mark)
  | 0, _ => none
  | fuel + 1, ms => if nextIs ends ms then some (empty, ms) else read block fuel ms

/-- A key or a value in a block mapping, which may be a list at its own column. -/
def blockPart : Nat → List Mark → Option (Node × List Mark)
  | 0, _ => none
  | fuel + 1, ms =>
    if nextIs [.entry] ms then do
      let (items, ms) ← bareItems fuel ms
      return (.list items, ms)
    else readOr true [.key, .value, .closeBlock] fuel ms

/-- The items of a block list up to its end. -/
def blockItems : Nat → List Mark → Option (List Node × List Mark)
  | 0, _ => none
  | fuel + 1, ms => match ms with
    | .entry :: ms => do
      let (item, ms) ← readOr true [.entry, .closeBlock] fuel ms
      let (items, ms) ← blockItems fuel ms
      return (item :: items, ms)
    | .closeBlock :: ms => some ([], ms)
    | _ => none

/-- The items of a list that stands at the column of its key. -/
def bareItems : Nat → List Mark → Option (List Node × List Mark)
  | 0, _ => none
  | fuel + 1, ms => match ms with
    | .entry :: ms => do
      let (item, ms) ← readOr true [.entry, .key, .value, .closeBlock] fuel ms
      let (items, ms) ← bareItems fuel ms
      return (item :: items, ms)
    | ms => some ([], ms)

/-- The entries of a block mapping up to its end. -/
def blockEntries : Nat → List Mark → Option (List (Node × Node) × List Mark)
  | 0, _ => none
  | fuel + 1, ms => match ms with
    | .closeBlock :: ms => some ([], ms)
    | ms => do
      let (key, ms) ← match ms with
        | .key :: ms => blockPart fuel ms
        | .value :: ms => some (empty, .value :: ms)
        | _ => none
      let (value, ms) ← match ms with
        | .value :: ms => blockPart fuel ms
        | ms => some (empty, ms)
      let (entries, ms) ← blockEntries fuel ms
      return ((key, value) :: entries, ms)

/-- The items of a list in brackets up to its end; all but the first follow a comma. -/
def flowItems (first : Bool) : Nat → List Mark → Option (List Node × List Mark)
  | 0, _ => none
  | fuel + 1, ms => match first, ms with
    | _, .closeList :: ms => some ([], ms)
    | false, .comma :: .closeList :: ms => some ([], ms)
    | false, .comma :: ms | true, ms => do
      let (item, ms) ← match ms with
        | .key :: ms => do
          let (entry, ms) ← flowEntry [.comma, .closeList] fuel ms
          pure (Node.map [entry], ms)
        | ms => read false fuel ms
      let (items, ms) ← flowItems false fuel ms
      return (item :: items, ms)
    | _, _ => none

/-- The entries of a mapping in brackets up to its end; all but the first follow a comma. -/
def flowEntries (first : Bool) : Nat → List Mark → Option (List (Node × Node) × List Mark)
  | 0, _ => none
  | fuel + 1, ms => match first, ms with
    | _, .closeMap :: ms => some ([], ms)
    | false, .comma :: .closeMap :: ms => some ([], ms)
    | false, .comma :: ms | true, ms => do
      let (entry, ms) ← match ms with
        | .key :: ms => flowEntry [.comma, .closeMap] fuel ms
        | .value :: ms => flowEntry [.comma, .closeMap] fuel (.value :: ms)
        | ms => do
          let (key, ms) ← read false fuel ms
          pure ((key, empty), ms)
      let (entries, ms) ← flowEntries false fuel ms
      return (entry :: entries, ms)
    | _, _ => none

/-- A key and its value in brackets, up to one of the marks that end an item there. -/
def flowEntry (ends : List Mark) : Nat → List Mark → Option ((Node × Node) × List Mark)
  | 0, _ => none
  | fuel + 1, ms => do
    let (key, ms) ← readOr false (.value :: ends) fuel ms
    let (value, ms) ← match ms with
      | .value :: ms => readOr false ends fuel ms
      | ms => some (empty, ms)
    return ((key, value), ms)

end

/-- The node of a document, which may stand between markers. There is none in an empty text. -/
def ofMarks? (ms : List Mark) : Option Node := do
  let steps := 4 * ms.length + 4
  let (node, after) ← match ms with
    | [] => some (empty, [])
    | .document :: ms =>
      if ms = [] ∨ nextIs [.document, .documentEnd] ms then some (empty, ms)
      else read true steps ms
    | ms => read true steps ms
  guard (after = [] ∨ after = [.documentEnd])
  return node

end Node

end Curly.Yaml
