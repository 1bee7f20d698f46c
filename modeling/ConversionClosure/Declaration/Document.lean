/-
Declaration documents.

A document lists declarations that were extracted beforehand, as a table with an optional
path, types and conversions.  Reading checks the shape of everything before it gives
anything: either all fields are of their kind, or every field that is not is a fault with
its place.  Texts are never made from other values; a number of parameters may also be
written as a truth value, a whole decimal or a numeral.
-/
import ConversionClosure.Data.Json
import ConversionClosure.Declaration.Basic
import ConversionClosure.Text.Numeral

namespace ConversionClosure

/-- One step on the way to a value inside a document. -/
inductive Step
  | key (name : String)
  | index (place : Nat)
deriving DecidableEq, Repr

/-- What is wrong with a value of a document. -/
inductive DocumentCause
  | notJson
  | notTable
  | notList
  | notText
  | missing
  | fraction
  | notFinite
  | notNumeral
  | tooLarge
  | notInteger
deriving DecidableEq, Repr

namespace DocumentCause

/-- The short name of a cause. -/
def code : DocumentCause → String
  | notJson => "json_invalid"
  | notTable => "model_type"
  | notList => "list_type"
  | notText => "string_type"
  | missing => "missing"
  | fraction => "int_from_float"
  | notFinite => "finite_number"
  | notNumeral => "int_parsing"
  | tooLarge => "int_parsing_size"
  | notInteger => "int_type"

/-- The cause in words. -/
def message : DocumentCause → String
  | notJson => ""
  | notTable => "Input should be an object"
  | notList => "Input should be a valid array"
  | notText => "Input should be a valid string"
  | missing => "Field required"
  | fraction => "Input should be a valid integer, got a number with a fractional part"
  | notFinite => "Input should be a finite number"
  | notNumeral => "Input should be a valid integer, unable to parse string as an integer"
  | tooLarge => "Unable to parse input string as an integer, exceeded maximum size"
  | notInteger => "Input should be a valid integer"

end DocumentCause

/-- A cause and the way to the value that it is about. -/
structure DocumentFault where
  place : List Step
  cause : DocumentCause
deriving DecidableEq, Repr

/-- A conversion as a document writes it. -/
structure Entry where
  trait : String := "From"
  source : String
  target : String
  params : List String := []
deriving DecidableEq, Repr

/-- A declaration document. -/
structure Document where
  path : Option String := none
  types : List TypeDecl := []
  entries : List Entry := []
deriving DecidableEq, Repr

namespace Document

/-- A value, or all the faults found where it should be. -/
abbrev Checked (α : Type) := Except (List DocumentFault) α

/-- Two checked values together, with the faults of both. -/
def both {α β : Type} : Checked α → Checked β → Checked (α × β)
  | .ok a, .ok b => .ok (a, b)
  | .ok _, .error fs => .error fs
  | .error fs, .ok _ => .error fs
  | .error fs, .error gs => .error (fs ++ gs)

/-- One fault. -/
def fault {α : Type} (place : List Step) (cause : DocumentCause) : Checked α :=
  .error [⟨place, cause⟩]

/-- A check of a value at a place. -/
abbrev Check (α : Type) := List Step → Value → Checked α

/-- A text. -/
def text : Check String
  | _, .text s => .ok s
  | place, _ => fault place .notText

/-- A text, or null. -/
def optionalText : Check (Option String)
  | _, .null => .ok none
  | place, value => (text place value).map some

/-- The characters of a numeral without the zeros that follow its point. -/
def withoutZeroFraction (cs : List Char) : List Char :=
  let zeros := cs.reverse.takeWhile (· == '0')
  match cs.reverse.dropWhile (· == '0') with
  | '.' :: whole => if zeros.isEmpty then cs else whole.reverse
  | _ => cs

/-- The number that digits write.  Zeros at the start count for nothing, and any number of
underscores may stand among them, as long as a digit follows. -/
def whole? : List Char → Option Nat
  | '0' :: cs =>
    let rest := cs.dropWhile fun c => c == '0' || c == '_'
    if rest.isEmpty then if cs.getLast? == some '_' then none else some 0
    else Text.digits? rest
  | cs => Text.digits? cs

/-- The integer that a numeral of ASCII digits writes; a minus counts as one of its digits. -/
def numeral (s : String) : Except DocumentCause Int :=
  let (negative, cs) :=
    Text.sign (withoutZeroFraction (Text.stripChars Text.isNumeralBlank s.toList))
  match whole? cs with
  | some n =>
    if !cs.all (·.val < 128) then .error .notNumeral
    else if Text.maxDigits < (Nat.toDigits 10 n).length + negative.toNat then .error .tooLarge
    else .ok (Text.withSign negative n)
  | none => .error .notNumeral

/-- The bound on the size of a number with a point: it has to be below two to the power 63. -/
def decimalBound : Int := Nat.pow 2 63

/-- The integer that a number with a point is, if it has no fraction. -/
def wholeDecimal (d : Decimal) : Except DocumentCause Int :=
  match d.truncate? with
  | none => .error .notFinite
  | some n =>
    if !d.isWhole then .error .fraction
    else if -decimalBound < n ∧ n < decimalBound then .ok n
    else .error .tooLarge

/-- An integer. -/
def integer : Check Int
  | _, .int n => .ok n
  | _, .bool b => .ok (if b then 1 else 0)
  | place, .decimal d => (wholeDecimal d).mapError fun cause => [⟨place, cause⟩]
  | place, .text s => (numeral s).mapError fun cause => [⟨place, cause⟩]
  | place, .other _ => fault place .notFinite
  | place, _ => fault place .notInteger

/-- The items from place `index` on. -/
def itemsFrom {α : Type} (item : Check α) (place : List Step) (index : Nat) :
    List Value → Checked (List α)
  | [] => .ok []
  | v :: vs =>
    (both (item (place ++ [.index index]) v) (itemsFrom item place (index + 1) vs)).map
      fun (a, as) => a :: as

/-- A list of items. -/
def list {α : Type} (item : Check α) : Check (List α)
  | place, .list vs => itemsFrom item place 0 vs
  | place, _ => fault place .notList

/-- The field of a table; a field that is absent has its default, or is a fault without one. -/
def field {α : Type} (place : List Step) (fields : List (String × Value)) (key : String)
    (absent : Option α) (check : Check α) : Checked α :=
  match Value.lookup key fields, absent with
  | some v, _ => check (place ++ [.key key]) v
  | none, some a => .ok a
  | none, none => fault (place ++ [.key key]) .missing

/-- A type. -/
def typeDecl : Check TypeDecl
  | place, .table fields =>
    (both (field place fields "name" none text)
      (both (field place fields "kind" (some "struct") text)
        (field place fields "arity" (some 0) integer))).map
      fun (name, kind, arity) => { name, kind, arity }
  | place, _ => fault place .notTable

/-- A conversion. -/
def entry : Check Entry
  | place, .table fields =>
    (both (field place fields "trait" (some "From") text)
      (both (field place fields "source" none text)
        (both (field place fields "target" none text)
          (field place fields "impl_params" (some []) (list text))))).map
      fun (trait, source, target, params) => { trait, source, target, params }
  | place, _ => fault place .notTable

/-- A whole document as a value. -/
def ofValue : Value → Checked Document
  | .table fields =>
    (both (field [] fields "path" (some none) optionalText)
      (both (field [] fields "types" (some []) (list typeDecl))
        (field [] fields "conversions" (some []) (list entry)))).map
      fun (path, types, entries) => { path, types, entries }
  | _ => fault [] .notTable

/-- The document that a text writes. -/
def read (s : String) : Checked Document :=
  match Json.read? s with
  | some value => ofValue value
  | none => fault [] .notJson

end Document

end ConversionClosure
