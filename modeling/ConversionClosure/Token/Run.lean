/-
Runs of tokens.

A run is a stretch at the front of a token list: a group between matching brackets, a
parameter list between angle brackets, a type up to the mark that ends it, the rest of an
item.  Each function here splits a list after such a run.  Inside a run brackets are
counted without regard to their kind, which is enough where they match.
-/
import ConversionClosure.Token.Brackets

namespace ConversionClosure

namespace Token

/-- The token opens a bracket. -/
def isOpener (t : Token) : Bool := t.opens?.isSome

/-- The token closes a bracket. -/
def isCloser (t : Token) : Bool := t.closes?.isSome

/-- The token is a name, a lifetime or a literal. -/
def isWord (t : Token) : Bool := t.kind != .punct

/-- Two neighbours are written with a blank between them. -/
def needsBlank (left right : Token) : Bool :=
  (left.isWord && right.isWord) || left.isPunct "->" || right.isPunct "->" ||
    left.isPunct "+" || right.isPunct "+" || left.isPunct "," ||
    left.isPunct "=" || right.isPunct "="

/-- The text of a run, with blanks where neighbours need them. -/
def join : List Token → String
  | [] => ""
  | [t] => t.text
  | t :: u :: ts => t.text ++ (if needsBlank t u then " " else "") ++ join (u :: ts)

end Token

namespace Run

/-- Puts a token in front of the first half of a split. -/
def onto (t : Token) (split : List Token × List Token) : List Token × List Token :=
  (t :: split.1, split.2)

/-- Splits after the closer that ends `depth` open brackets. -/
def closing : Nat → List Token → Option (List Token × List Token)
  | _, [] => none
  | depth, t :: ts =>
    if t.isOpener then (closing (depth + 1) ts).map (onto t)
    else if t.isCloser then
      if depth ≤ 1 then some ([t], ts) else (closing (depth - 1) ts).map (onto t)
    else (closing depth ts).map (onto t)

/-- Splits after the group that the first token opens. -/
def group? : List Token → Option (List Token × List Token)
  | [] => none
  | t :: ts => if t.isOpener then (closing 1 ts).map (onto t) else none

/-- The tokens between the delimiters of a group. -/
def inside (group : List Token) : List Token := group.tail.dropLast

/-- Splits after the `>` that ends `angles` open angle brackets; what stands in `brackets` open
brackets is passed over. -/
def angles? : (brackets angles : Nat) → List Token → Option (List Token × List Token)
  | _, _, [] => none
  | brackets, angles, t :: ts =>
    if t.isOpener then (angles? (brackets + 1) angles ts).map (onto t)
    else if 0 < brackets then
      (angles? (if t.isCloser then brackets - 1 else brackets) angles ts).map (onto t)
    else if t.isPunct "<" then (angles? 0 (angles + 1) ts).map (onto t)
    else if t.isPunct ">" then
      if angles ≤ 1 then some ([t], ts) else (angles? 0 (angles - 1) ts).map (onto t)
    else (angles? 0 angles ts).map (onto t)

/-- A token that ends a type, outside angle brackets: a comma, a semicolon, an equals sign, an
opening brace, a closing angle bracket, or `where`. -/
def endsType (t : Token) : Bool :=
  t.isPunct "," || t.isPunct ";" || t.isPunct "=" || t.opens? == some .curly || t.isPunct ">" ||
    t.isIdent "where"

/-- Splits before the first token that ends a type, outside brackets and angle brackets. -/
def untilEnd : (brackets angles : Nat) → List Token → List Token × List Token
  | _, _, [] => ([], [])
  | brackets, angles, t :: ts =>
    if brackets = 0 ∧ angles = 0 ∧ endsType t then ([], t :: ts)
    else if t.isOpener then onto t (untilEnd (brackets + 1) angles ts)
    else if 0 < brackets then
      onto t (untilEnd (if t.isCloser then brackets - 1 else brackets) angles ts)
    else if t.isPunct "<" then onto t (untilEnd 0 (angles + 1) ts)
    else if t.isPunct ">" then onto t (untilEnd 0 (angles - 1) ts)
    else onto t (untilEnd 0 angles ts)

/-- What follows an item: the tokens after the first semicolon or brace group outside
brackets.  `braces` tells whether the outermost of the `brackets` open ones is a brace. -/
def afterItem : (brackets : Nat) → (braces : Bool) → List Token → List Token
  | _, _, [] => []
  | brackets, braces, t :: ts =>
    if t.isOpener then
      afterItem (brackets + 1) (if brackets = 0 then t.opens? == some .curly else braces) ts
    else if brackets = 0 then
      if t.isPunct ";" then ts else afterItem 0 false ts
    else if t.isCloser then
      if brackets = 1 ∧ braces then ts else afterItem (brackets - 1) braces ts
    else afterItem brackets braces ts

end Run

end ConversionClosure
