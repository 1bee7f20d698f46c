/-
Matching brackets.

The delimiters among the tokens of a text have to match: every closing delimiter belongs
to the last opening one that is still open, and is of its kind.  `groups` lists the pairs by
their places in the token list.
-/
import ConversionClosure.Token.Lexer

namespace ConversionClosure

/-- An opening delimiter that is still open. -/
structure Opening where
  index : Nat
  line : Nat
  bracket : Bracket
deriving DecidableEq, Repr

/-- The pairs of places that match in the tokens from place `index` on, innermost and leftmost
closing first, where `stack` is open already. -/
def groupsFrom (index : Nat) (stack : List Opening) :
    List Token → Except LexFault (List (Nat × Nat))
  | [] =>
    match stack with
    | [] => .ok []
    | o :: _ => .error ⟨.unclosed o.bracket, o.line⟩
  | t :: ts =>
    match t.opens?, t.closes? with
    | some b, _ => groupsFrom (index + 1) (⟨index, t.line, b⟩ :: stack) ts
    | none, none => groupsFrom (index + 1) stack ts
    | none, some b =>
      match stack with
      | [] => .error ⟨.unmatched b, t.line⟩
      | o :: stack =>
        if o.bracket = b then
          (groupsFrom (index + 1) stack ts).map ((o.index, index) :: ·)
        else .error ⟨.mismatched o.bracket o.line b, t.line⟩

/-- The places of every opening delimiter and of the delimiter that closes it, in the order of
the opening ones. -/
def groups (ts : List Token) : Except LexFault (List (Nat × Nat)) :=
  (groupsFrom 0 [] ts).map fun pairs => pairs.mergeSort fun a b => a.1 ≤ b.1

/-- The tokens of a text whose brackets match. -/
def tokenize (text : String) : Except LexFault (List Token) := do
  let ts ← lex text
  let _ ← groupsFrom 0 [] ts
  return ts

end ConversionClosure
