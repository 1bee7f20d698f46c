/-
Tokens of source text.

Only as much of the lexical grammar is told apart as the scanning of items needs: names,
lifetimes, literals (whose contents never become tokens of their own) and punctuation.
A token remembers the line on which it begins.

`LexFault` lists everything that can be wrong with a text before its items are looked at:
a comment or literal that does not end, and brackets that do not match.
-/
import ConversionClosure.Text.Quoted

namespace ConversionClosure

/-- What a token is. -/
inductive TokenKind
  | ident
  | lifetime
  | literal
  | punct
deriving DecidableEq, Repr

/-- A token with its text as written and the line on which it begins. -/
structure Token where
  kind : TokenKind
  text : String
  line : Nat
deriving DecidableEq, Repr

namespace Token

/-- The token is the punctuation `text`. -/
def isPunct (t : Token) (text : String) : Bool := t.kind == .punct && t.text == text

/-- The token is the name `text`. -/
def isIdent (t : Token) (text : String) : Bool := t.kind == .ident && t.text == text

/-- The token `count` lines further down. -/
def shift (count : Nat) (t : Token) : Token := { t with line := t.line + count }

end Token

/-- The three pairs of delimiters. -/
inductive Bracket
  | round
  | square
  | curly
deriving DecidableEq, Repr

namespace Bracket

/-- The text of the opening delimiter. -/
def opener : Bracket → String
  | round => "("
  | square => "["
  | curly => "\x7b"

/-- The text of the closing delimiter. -/
def closer : Bracket → String
  | round => ")"
  | square => "]"
  | curly => "\x7d"

/-- The bracket that a text opens. -/
def ofOpener? (text : String) : Option Bracket :=
  if text = round.opener then some round
  else if text = square.opener then some square
  else if text = curly.opener then some curly
  else none

/-- The bracket that a text closes. -/
def ofCloser? (text : String) : Option Bracket :=
  if text = round.closer then some round
  else if text = square.closer then some square
  else if text = curly.closer then some curly
  else none

end Bracket

namespace Token

/-- The bracket that a token opens. -/
def opens? (t : Token) : Option Bracket :=
  if t.kind = .punct then Bracket.ofOpener? t.text else none

/-- The bracket that a token closes. -/
def closes? (t : Token) : Option Bracket :=
  if t.kind = .punct then Bracket.ofCloser? t.text else none

end Token

/-- Why a text has no tokens, or tokens whose brackets do not match. -/
inductive LexCause
  | openComment
  | openString
  | malformedRawString
  | openRawString
  | openCharacter
  | strayQuote
  | unmatched (closer : Bracket)
  | mismatched (opener : Bracket) (openedOn : Nat) (closer : Bracket)
  | unclosed (opener : Bracket)
deriving DecidableEq, Repr

namespace LexCause

/-- The cause in words. -/
def message : LexCause → String
  | openComment => "unterminated block comment"
  | openString => "unterminated string literal"
  | malformedRawString => "malformed raw string literal"
  | openRawString => "unterminated raw string literal"
  | openCharacter => "unterminated character literal"
  | strayQuote => "stray quote"
  | unmatched closer => "unmatched " ++ Text.quoted closer.closer
  | mismatched opener openedOn closer =>
    Text.quoted opener.opener ++ " from line " ++ toString openedOn ++ " closed by " ++
      Text.quoted closer.closer
  | unclosed opener => "unclosed " ++ Text.quoted opener.opener

end LexCause

/-- A cause and the line it is found on. -/
structure LexFault where
  cause : LexCause
  line : Nat
deriving DecidableEq, Repr

namespace LexFault

/-- The fault in words. -/
def message (f : LexFault) : String := "line " ++ toString f.line ++ ": " ++ f.cause.message

/-- The fault `count` lines further down. -/
def shift (count : Nat) (f : LexFault) : LexFault := { f with line := f.line + count }

end LexFault

end ConversionClosure
