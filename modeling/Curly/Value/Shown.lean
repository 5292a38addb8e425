import Curly.Value.Json

/-!
# Values as shown text

The text that a value tag puts into a page: nothing for nothing, whole numbers without a point, the
items of a list between commas, a mapping as JSON.
-/

namespace Curly.Value

/-- A number without a fraction is shown without a point below this size. -/
def wholeLimit : Nat := Nat.pow 10 21

mutual

/-- The text a value is shown as. It has none if it holds a mapping with a key that is no scalar, or
a whole number with more digits than the limit. -/
def shown : Value → Except Json.Fault String
  | .null => .ok ""
  | .bool b => .ok (if b then "true" else "false")
  | .str s => .ok s
  | .float x => .ok <| match x.toInt? with
    | some n => if n.natAbs < wholeLimit then toString n else x.plain
    | none => x.plain
  | .list items => do return ",".intercalate (← shownItems items)
  | .tuple items => do return ",".intercalate (← shownItems items)
  | .dict entries => Json.write .lenient (.dict entries)
  | .view entries => Json.write .lenient (.dict entries)
  | v => v.plain.mapError .numeral

/-- The texts the items of a list are shown as. -/
def shownItems : List Value → Except Json.Fault (List String)
  | [] => .ok []
  | v :: rest => do
    let text ← shown v
    return text :: (← shownItems rest)

end

end Curly.Value
