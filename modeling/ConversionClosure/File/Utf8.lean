/-
Text in bytes.

Files hold UTF-8.  Decoding refuses every sequence that the standard refuses, and tells
where the first bad run of bytes is and what is wrong with it.  Line ends are made uniform
when a file is read as text.
-/
import ConversionClosure.Text.Quoted

namespace ConversionClosure

/-- What is wrong with a run of bytes. -/
inductive Utf8Cause
  | badStart
  | badContinuation
  | endOfData
deriving DecidableEq, Repr

/-- The first run of bytes that is no character: its place, its length and its first byte. -/
structure Utf8Fault where
  cause : Utf8Cause
  start : Nat
  length : Nat
  byte : UInt8
deriving DecidableEq, Repr

namespace Utf8Fault

/-- The cause in words. -/
def causeMessage : Utf8Cause → String
  | .badStart => "invalid start byte"
  | .badContinuation => "invalid continuation byte"
  | .endOfData => "unexpected end of data"

/-- The fault in words. -/
def message (f : Utf8Fault) : String :=
  let run :=
    if f.length ≤ 1 then
      "byte 0x" ++ String.ofList (Text.hex 2 f.byte.toNat) ++ " in position " ++ toString f.start
    else "bytes in position " ++ toString f.start ++ "-" ++ toString (f.start + f.length - 1)
  "'utf-8' codec can't decode " ++ run ++ ": " ++ causeMessage f.cause

end Utf8Fault

namespace Utf8

/-- The bounds of the second byte and the number of bytes after the first one. -/
structure Lead where
  low : Nat
  high : Nat
  count : Nat

/-- What the first byte of a character beyond ASCII says about the bytes after it. -/
def lead? (byte : Nat) : Option Lead :=
  if byte < 0xc2 then none
  else if byte < 0xe0 then some ⟨0x80, 0xbf, 1⟩
  else if byte = 0xe0 then some ⟨0xa0, 0xbf, 2⟩
  else if byte = 0xed then some ⟨0x80, 0x9f, 2⟩
  else if byte < 0xf0 then some ⟨0x80, 0xbf, 2⟩
  else if byte = 0xf0 then some ⟨0x90, 0xbf, 3⟩
  else if byte < 0xf4 then some ⟨0x80, 0xbf, 3⟩
  else if byte = 0xf4 then some ⟨0x80, 0x8f, 3⟩
  else none

/-- The bits of a first byte that belong to the character. -/
def leadBits (byte count : Nat) : Nat := byte % Nat.pow 2 (6 - count)

/-- The continuation bytes of a character: its code, or what is wrong and how many bytes are
right. -/
def continue? (code read : Nat) : (low high count : Nat) → List UInt8 → Except (Utf8Cause × Nat) Nat
  | _, _, 0, _ => .ok code
  | _, _, _ + 1, [] => .error (.endOfData, read)
  | low, high, count + 1, b :: bs =>
    if low ≤ b.toNat ∧ b.toNat ≤ high then
      continue? (code * 64 + b.toNat % 64) (read + 1) 0x80 0xbf count bs
    else .error (.badContinuation, read)

/-- The characters of bytes, the first of which stands at `position`; `skip` bytes belong to the
character before them. -/
def decodeFrom (position skip : Nat) : List UInt8 → Except Utf8Fault (List Char)
  | [] => .ok []
  | b :: bs =>
    if 0 < skip then decodeFrom (position + 1) (skip - 1) bs
    else if b.toNat < 0x80 then
      (decodeFrom (position + 1) 0 bs).map (Char.ofNat b.toNat :: ·)
    else
      match lead? b.toNat with
      | none => .error ⟨.badStart, position, 1, b⟩
      | some lead =>
        match continue? (leadBits b.toNat lead.count) 1 lead.low lead.high lead.count bs with
        | .error (cause, length) => .error ⟨cause, position, length, b⟩
        | .ok code => (decodeFrom (position + 1) lead.count bs).map (Char.ofNat code :: ·)

/-- The characters of bytes. -/
def decode (bytes : List UInt8) : Except Utf8Fault (List Char) := decodeFrom 0 0 bytes

/-- Characters with every carriage return, and a line feed after it, made one line feed. -/
def uniformBreaks : List Char → List Char
  | [] => []
  | '\r' :: '\n' :: cs => '\n' :: uniformBreaks cs
  | '\r' :: cs => '\n' :: uniformBreaks cs
  | c :: cs => c :: uniformBreaks cs

/-- The text of a file. -/
def readText (bytes : List UInt8) : Except Utf8Fault String :=
  (decode bytes).map fun cs => String.ofList (uniformBreaks cs)

/-- The bytes of a text. -/
def encode (text : String) : List UInt8 := text.toUTF8.toList

end Utf8

end ConversionClosure
