/-!
# Sets of characters by their boundaries

A large set of characters is written as the increasing list of code points at which membership
changes: the first is the first member, the second the first character after that run, and so on.
-/

namespace Curly.Text

/-- Whether `n` lies in the set whose membership changes at each of the `boundaries`. -/
def inside (n : Nat) : List Nat → Bool
  | [] => false
  | b :: boundaries => if n < b then false else !inside n boundaries

end Curly.Text
