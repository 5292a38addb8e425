import Curly.Scope
import Curly.Notice

/-!
# Conditions

A condition is a path, or a path after one exclamation mark, with blanks anywhere between. What
does not fit is kept as an invalid condition with the reason, and does not hold.

`Condition.tokens` cuts a text into tokens, `Condition.read` reads it strictly, and
`Condition.ofText` makes an invalid condition of what `read` refuses.
-/

namespace Curly

/-- A condition of an `if` block. -/
inductive Condition where
  /-- The value at the path counts as true. -/
  | path (path : String)
  /-- The value at the path does not count as true. -/
  | negated (path : String)
  /-- A text that is no condition, and why. -/
  | invalid (text reason : String)
deriving DecidableEq, Repr

namespace Condition

/-- The kinds of tokens in a condition. -/
inductive TokenKind where
  | bang
  | path
  | unknown
  | stop
deriving DecidableEq, Repr

/-- A token of a condition and the place of its first character. -/
structure Token where
  kind : TokenKind
  text : String
  position : Nat
deriving DecidableEq, Repr

/-- The name of a kind of token. -/
def TokenKind.name : TokenKind → String
  | bang => "SYMBOL"
  | path => "PATH"
  | unknown => "UNKNOWN"
  | stop => "EOF"

/-- A token with its kind and place, on one line. -/
def Token.describe (t : Token) : String :=
  "Token(" ++ t.kind.name ++ ", '" ++ t.text ++ "', pos=" ++ toString t.position ++ ")"

/-- The first token of a text that does not begin with a blank, and how many characters more than
one it takes: a path may begin with a minus, and any character that begins nothing else is an
unknown token of its own. -/
def firstToken (c : Char) (rest : List Char) : TokenKind × Nat :=
  let run := (rest.takeWhile Path.isPathChar).length
  if c = '!' then (.bang, 0)
  else if Path.isPathChar c ∨ (c = '-' ∧ run ≠ 0) then (.path, run)
  else (.unknown, 0)

/-- The tokens of a text that begins at `position`; the last one marks the end. -/
def tokensFrom (position : Nat) (cs : List Char) : List Token :=
  match cs with
  | [] => [⟨.stop, "", position⟩]
  | c :: rest =>
    if Text.isBlank c then tokensFrom (position + 1) rest
    else
      let (kind, more) := firstToken c rest
      ⟨kind, String.ofList (c :: rest.take more), position⟩ ::
        tokensFrom (position + 1 + more) (rest.drop more)
  termination_by cs.length
  decreasing_by all_goals simp_wf; try omega

/-- The tokens of a condition's text. -/
def tokens (text : String) : List Token := tokensFrom 0 text.toList

/-- Why a text is no condition. -/
inductive Fault where
  | empty
  | doubleBang
  | noPath
  | unexpected (token : String)
deriving DecidableEq, Repr

/-- The wording of a fault. -/
def Fault.message : Fault → String
  | empty => "Empty condition"
  | doubleBang => "Only a single leading '!' is supported"
  | noPath => "Expected path"
  | unexpected token => "Unexpected token '" ++ token ++ "'"

/-- A fault and the place in the text that it is about. -/
structure Refusal where
  fault : Fault
  position : Nat
deriving DecidableEq, Repr

/-- The wording of a refusal. -/
def Refusal.message (r : Refusal) : String :=
  "Parse error at position " ++ toString r.position ++ ": " ++ r.fault.message

/-- Reads a path and then the end of the text. -/
def pathThenStop (make : String → Condition) : List Token → Except Refusal Condition
  | [] => .error ⟨.noPath, 0⟩
  | t :: rest =>
    match t.kind with
    | .path =>
      match rest with
      | [] => .ok (make t.text)
      | next :: _ =>
        if next.kind = .stop then .ok (make t.text)
        else .error ⟨.unexpected next.text, next.position⟩
    | .stop => .error ⟨.noPath, t.position⟩
    | _ => .error ⟨.unexpected t.text, t.position⟩

/-- Reads a condition from its tokens. -/
def ofTokens : List Token → Except Refusal Condition
  | [] => .error ⟨.empty, 0⟩
  | t :: rest =>
    match t.kind with
    | .stop => .error ⟨.empty, 0⟩
    | .bang =>
      match rest with
      | ⟨.bang, _, position⟩ :: _ => .error ⟨.doubleBang, position⟩
      | _ => pathThenStop .negated rest
    | _ => pathThenStop .path (t :: rest)

/-- Reads a condition. -/
def read (text : String) : Except Refusal Condition := ofTokens (tokens text)

/-- Reads a condition, keeping a text that is none as an invalid one. -/
def ofText (text : String) : Condition :=
  match read text with
  | .ok condition => condition
  | .error refusal => .invalid text refusal.message

/-- The text of a condition. -/
def print : Condition → String
  | path p => p
  | negated p => "!" ++ p
  | invalid text _ => text

/-- Whether a condition holds; an invalid one does not. -/
def holds (s : Scope) : Condition → Except LookupFault Bool
  | path p => (s.value p).map countsAsTrue
  | negated p => (s.value p).map fun v => !countsAsTrue v
  | invalid .. => .ok false

/-- What is reported each time a condition is tried. -/
def notices : Condition → List Notice
  | invalid text reason => [.invalidCondition text reason]
  | _ => []

end Condition

end Curly
