/-
The tokens of a written reference.

`Reference.tokens` follows `Reference.render` form by form and gives the tokens of what that
writes.  The lexer makes just these of the text, whatever separates words behind it, when the
texts inside the reference stand alone: such a reference is `Legible`.

`Plain` is narrower.  A plain reference has no part that is known by its text alone, so that its
tokens also tell how it was built.
-/
import ConversionClosure.Proofs.Balance
import ConversionClosure.Reference.Render

namespace ConversionClosure

open Text Piece Token

variable {line : Nat} {rest : List Char}

namespace Reference

/-! ### Tokens -/

/-- The token of a lifetime, if there is one. -/
def lifetimeTokens (line : Nat) (lifetime : String) : List Token :=
  if lifetime = "" then [] else [⟨.lifetime, lifetime, line⟩]

/-- Runs with a comma between them. -/
def commaTokens (line : Nat) (runs : List (List Token)) : List Token :=
  [mark line ","].intercalate runs

/-- The segments of a path. -/
def segmentTokens (line : Nat) (segments : List String) : List Token :=
  [mark line "::"].intercalate (segments.map (Token.ofText line))

/-- The arguments of a path, if there are any. -/
def argumentTokens (line : Nat) (runs : List (List Token)) : List Token :=
  if runs.isEmpty then [] else mark line "<" :: commaTokens line runs ++ [mark line ">"]

/-- The elements of a tuple; a single one has a comma behind it. -/
def elementTokens (line : Nat) (runs : List (List Token)) : List Token :=
  if runs.length = 1 then runs.headD [] ++ [mark line ","] else commaTokens line runs

theorem mem_of_mem_intercalate {t u : Token} {runs : List (List Token)}
    (h : t ∈ [u].intercalate runs) : t = u ∨ ∃ run ∈ runs, t ∈ run := by
  induction runs with
  | nil => simp at h
  | cons run runs ih =>
      cases runs with
      | nil => exact .inr ⟨run, by simp, by simpa using h⟩
      | cons next runs =>
          rw [List.intercalate_cons_cons, List.mem_append, List.mem_append,
            List.mem_singleton] at h
          rcases h with (hrun | rfl) | hmore
          · exact .inr ⟨run, by simp, hrun⟩
          · exact .inl rfl
          · refine (ih hmore).imp_right fun hex => ?_
            obtain ⟨run', hrun', ht⟩ := hex
            exact ⟨run', by simp [hrun'], ht⟩

theorem mem_intercalate_of_mem {t u : Token} {run : List Token} {runs : List (List Token)}
    (hrun : run ∈ runs) (ht : t ∈ run) : t ∈ [u].intercalate runs := by
  induction runs with
  | nil => simp at hrun
  | cons first runs ih =>
      cases runs with
      | nil =>
          obtain rfl := List.mem_singleton.mp hrun
          simpa using ht
      | cons next runs =>
          rw [List.intercalate_cons_cons, List.append_assoc]
          rcases List.mem_cons.mp hrun with rfl | hmore
          · simp [ht]
          · simp [ih hmore]

mutual

/-- The tokens of a reference that is written on one line. -/
def tokens (line : Nat) : Reference → List Token
  | ⟨modifier, segments, args, length, lifetime⟩ =>
    let inner := tokensAll line args
    let first := inner.headD []
    match modifier with
    | .path => segmentTokens line segments ++ argumentTokens line inner
    | .shared => mark line "&" :: lifetimeTokens line lifetime ++ first
    | .exclusive => mark line "&" :: lifetimeTokens line lifetime ++ name line "mut" :: first
    | .constPointer => mark line "*" :: name line "const" :: first
    | .mutPointer => mark line "*" :: name line "mut" :: first
    | .tuple => mark line "(" :: elementTokens line inner ++ [mark line ")"]
    | .slice => mark line "[" :: first ++ [mark line "]"]
    | .array =>
      mark line "[" :: (first ++ mark line ";" :: Token.ofText line length) ++ [mark line "]"]
    | .verbatim | .custom _ => Token.ofText line (segments.headD "")

/-- The tokens of each reference of a list. -/
def tokensAll (line : Nat) : List Reference → List (List Token)
  | [] => []
  | r :: rs => r.tokens line :: tokensAll line rs

end

@[simp] theorem tokensAll_eq_map (line : Nat) (rs : List Reference) :
    tokensAll line rs = rs.map (tokens line) := by
  induction rs with
  | nil => rfl
  | cons r rs ih => rw [tokensAll, ih, List.map_cons]

/-- The tokens of an implementation of a trait for a type; its head is on one line. -/
def implTokens (line line' : Nat) (run : List Token) (trait target : Reference)
    (body : List Token) : List Token :=
  name line "impl" :: (run ++ mark line "::" :: (trait.tokens line ++ name line "for" ::
    (target.tokens line ++ mark line "\x7b" :: (body ++ [mark line' "\x7d"]))))

/-! ### References whose texts stand alone -/

/-- The form of a reference behind an ampersand. -/
def ampersand (exclusive : Bool) : Modifier := if exclusive then .exclusive else .shared

/-- The form of a reference behind a star. -/
def star (exclusive : Bool) : Modifier := if exclusive then .mutPointer else .constPointer

/-- Every text inside the reference stands alone, and no node lacks a part of its form. -/
inductive Legible : Reference → Prop
  | path {segments : List String} {args : List Reference}
      (hsegments : ∀ s ∈ segments, StandsAlone s) (hargs : ∀ a ∈ args, Legible a) :
      Legible { segments, args }
  | ampersand (exclusive : Bool) {lifetime : String} {inner : Reference}
      (hlifetime : lifetime = "" ∨ isLifetime lifetime = true) (hinner : Legible inner) :
      Legible { modifier := ampersand exclusive, args := [inner], lifetime }
  | star (exclusive : Bool) {inner : Reference} (hinner : Legible inner) :
      Legible { modifier := star exclusive, args := [inner] }
  | tuple {args : List Reference} (hargs : ∀ a ∈ args, Legible a) :
      Legible { modifier := .tuple, args }
  | slice {inner : Reference} (hinner : Legible inner) :
      Legible { modifier := .slice, args := [inner] }
  | array {inner : Reference} {length : String} (hlength : StandsAlone length)
      (hinner : Legible inner) : Legible { modifier := .array, args := [inner], length }
  | verbatim {text : String} (htext : StandsAlone text) : Legible (ofText text)

end Reference

/-- A text between two marks, which may end lines. -/
theorem LexesTo.between {left right : String} {line' : Nat} {cs : List Char} {ts : List Token}
    (hleft : isMark left = true) (hright : isMark right = true)
    (h : LexesTo line cs ts line' (right.toList ++ rest)) :
    LexesTo line (left.toList ++ cs ++ right.toList) (mark line left :: ts ++ [mark line' right])
      line' rest := by
  have hopen : LexesTo line left.toList [mark line left] line (cs ++ (right.toList ++ rest)) :=
    Lexes.punct hleft
  have hclose : LexesTo line' right.toList [mark line' right] line' rest := Lexes.punct hright
  exact (hopen.append h).append hclose

namespace Lexes

open Reference

variable {args : List Reference}

theorem comma : Lexes line ", ".toList [mark line ","] rest := by
  show Lexes line (",".toList ++ [' ']) ([mark line ","] ++ []) rest
  exact append (punct (by decide)) blank

theorem arguments (hargs : ∀ a ∈ args, ∀ rest, Separates rest →
      Lexes line a.render.toList (a.tokens line) rest) (hrest : Separates rest) :
    Lexes line (commaSeparated (args.map render)).toList (commaTokens line (args.map (tokens line)))
      rest :=
  intercalate (fun _ => comma) (fun _ => separates_cons.mpr (by decide)) hargs hrest

theorem segments {segments : List String} (h : ∀ s ∈ segments, StandsAlone s)
    (hrest : Separates rest) :
    Lexes line ("::".intercalate segments).toList (segmentTokens line segments) rest := by
  have hlexes : Lexes line ("::".intercalate (segments.map id)).toList
      (segmentTokens line segments) rest :=
    intercalate (fun _ => punct (by decide)) (fun _ => separates_cons.mpr (by decide))
      (fun s hs => h s hs line) hrest
  rwa [List.map_id] at hlexes

theorem lifetimeText {lifetime : String} (h : lifetime = "" ∨ isLifetime lifetime = true) :
    Lexes line (lifetimeText lifetime).toList (lifetimeTokens line lifetime) rest := by
  unfold Reference.lifetimeText lifetimeTokens
  by_cases hempty : lifetime = ""
  · rw [if_pos hempty, if_pos hempty]
    exact nil
  · rw [if_neg hempty, if_neg hempty, String.toList_append]
    have hname : isLifetime lifetime = true := h.resolve_left hempty
    exact append (Lexes.lifetime hname (separates_cons.mpr (by decide))) blank

/-- A name with a blank behind it. -/
theorem word {text : String} (h : isIdentifier text = true) :
    Lexes line (text.toList ++ [' ']) [name line text] rest :=
  append (identifier h (separates_cons.mpr (by decide))) blank

/-- A text between two marks. -/
theorem between {left right : String} {cs : List Char} {ts : List Token}
    (hleft : isMark left = true) (hright : isMark right = true)
    (h : Lexes line cs ts (right.toList ++ rest)) :
    Lexes line (left.toList ++ cs ++ right.toList) (mark line left :: ts ++ [mark line right])
      rest := LexesTo.between hleft hright h

/-- **The lexer makes the tokens of a legible reference of its text.** -/
theorem render {r : Reference} (h : r.Legible) (hrest : Separates rest) :
    Lexes line r.render.toList (r.tokens line) rest := by
  induction h generalizing rest with
  | @path segs args hsegments _ ih =>
      have hargs : ∀ a ∈ args, ∀ rest, Separates rest →
          Lexes line a.render.toList (a.tokens line) rest := fun a ha _ hrest => ih a ha hrest
      rw [Reference.render, tokens, renderAll_eq_map, tokensAll_eq_map]
      simp only [argumentTokens, List.isEmpty_map, String.toList_append]
      cases args with
      | nil =>
          simp only [List.isEmpty_nil, if_true, String.toList_empty, List.append_nil]
          exact segments hsegments hrest
      | cons a args =>
          simp only [List.isEmpty_cons, Bool.false_eq_true, if_false, String.toList_append]
          refine append (segments hsegments (separates_cons.mpr (by decide))) ?_
          exact between (by decide) (by decide) (arguments hargs (separates_cons.mpr (by decide)))
  | @ampersand exclusive lifetime inner hlifetime _ ih =>
      cases exclusive with
      | false =>
          rw [Reference.ampersand, if_neg Bool.false_ne_true, Reference.render, tokens]
          simp only [String.toList_append]
          exact append (append (punct (by decide)) (lifetimeText hlifetime)) (ih hrest)
      | true =>
          have hrender : ("&" ++ Reference.lifetimeText lifetime ++ "mut " ++ inner.render).toList =
              "&".toList ++ (Reference.lifetimeText lifetime).toList ++
                ("mut".toList ++ [' '] ++ inner.render.toList) := by simp
          have hmut : Lexes line ("mut".toList ++ [' ']) [name line "mut"]
              (inner.render.toList ++ rest) := word (by decide)
          rw [Reference.ampersand, if_pos rfl, Reference.render, tokens]
          simp only [renderAll_eq_map, List.map_cons, List.map_nil, List.headD_cons, hrender]
          exact append (append (punct (by decide)) (lifetimeText hlifetime))
            (append hmut (ih hrest))
  | @star exclusive inner _ ih =>
      cases exclusive with
      | false =>
          rw [Reference.star, if_neg Bool.false_ne_true, Reference.render, tokens,
            String.toList_append]
          show Lexes line ("*".toList ++ ("const".toList ++ [' ']) ++ inner.render.toList)
            ([mark line "*"] ++ [name line "const"] ++ inner.tokens line) rest
          exact append (append (punct (by decide)) (word (by decide))) (ih hrest)
      | true =>
          rw [Reference.star, if_pos rfl, Reference.render, tokens, String.toList_append]
          show Lexes line ("*".toList ++ ("mut".toList ++ [' ']) ++ inner.render.toList)
            ([mark line "*"] ++ [name line "mut"] ++ inner.tokens line) rest
          exact append (append (punct (by decide)) (word (by decide))) (ih hrest)
  | @tuple args _ ih =>
      have hargs : ∀ a ∈ args, ∀ rest, Separates rest →
          Lexes line a.render.toList (a.tokens line) rest := fun a ha _ hrest => ih a ha hrest
      rw [Reference.render, tokens, renderAll_eq_map, tokensAll_eq_map]
      simp only [elementTokens, List.length_map]
      by_cases hone : args.length = 1
      · rw [if_pos hone, if_pos hone]
        obtain ⟨element, rfl⟩ := List.length_eq_one_iff.mp hone
        have hrender : ("(" ++ element.render ++ ",)").toList =
            "(".toList ++ (element.render.toList ++ ",".toList) ++ ")".toList := by simp
        have hcomma : Lexes line ",".toList [mark line ","] (")".toList ++ rest) :=
          punct (by decide)
        have helement : Lexes line element.render.toList (element.tokens line)
            (",".toList ++ (")".toList ++ rest)) :=
          hargs element (by simp) _ (separates_cons.mpr (by decide))
        simp only [List.map_cons, List.map_nil, List.headD_cons, hrender]
        exact between (by decide) (by decide) (append helement hcomma)
      · rw [if_neg hone, if_neg hone]
        simp only [String.toList_append]
        exact between (by decide) (by decide) (arguments hargs (separates_cons.mpr (by decide)))
  | slice _ ih =>
      rw [Reference.render, tokens]
      simp only [String.toList_append]
      exact between (by decide) (by decide) (ih (separates_cons.mpr (by decide)))
  | @array inner length hlength _ ih =>
      have hrender : ("[" ++ inner.render ++ "; " ++ length ++ "]").toList =
          "[".toList ++ (inner.render.toList ++ (";".toList ++ [' '] ++ length.toList)) ++
            "]".toList := by simp
      have hsemicolon : Lexes line (";".toList ++ [' ']) [mark line ";"]
          (length.toList ++ ("]".toList ++ rest)) := append (punct (by decide)) blank
      have htail := append hsemicolon (hlength line _ (separates_cons.mpr (by decide)))
      rw [Reference.render, tokens]
      simp only [renderAll_eq_map, List.map_cons, List.map_nil, List.headD_cons, hrender]
      exact between (by decide) (by decide)
        (append (ih (separates_cons.mpr (by decide))) htail)
  | verbatim htext => exact htext _ _ hrest

/-- A reference, and then more. -/
theorem render_append {ds : List Char} {us : List Token} {r : Reference} (h : r.Legible)
    (hsep : Separates (ds ++ rest)) (hmore : Lexes line ds us rest) :
    Lexes line (r.render.toList ++ ds) (r.tokens line ++ us) rest :=
  append (render h hsep) hmore

end Lexes

namespace Reference

/-! ### References without texts of their own -/

/-- The names that no path of a plain reference starts with. -/
def reservedStarts : List String :=
  ["_", "mut", "dyn", "impl", "fn", "unsafe", "extern", "for"]

/-- The reference is made of paths of names, references, pointers, tuples, slices, and arrays
whose length is one name or number, and no node has a part that its form has no use for. -/
inductive Plain : Reference → Prop
  | path {first : String} {more : List String} {args : List Reference}
      (hsegments : ∀ s ∈ first :: more, isIdentifier s = true) (hstart : first ∉ reservedStarts)
      (hargs : ∀ a ∈ args, Plain a) :
      Plain { segments := first :: more, args }
  | ampersand (exclusive : Bool) {lifetime : String} {inner : Reference}
      (hlifetime : lifetime = "" ∨ isLifetime lifetime = true) (hinner : Plain inner) :
      Plain { modifier := ampersand exclusive, args := [inner], lifetime }
  | star (exclusive : Bool) {inner : Reference} (hinner : Plain inner) :
      Plain { modifier := star exclusive, args := [inner] }
  | tuple {args : List Reference} (hargs : ∀ a ∈ args, Plain a) :
      Plain { modifier := .tuple, args }
  | slice {inner : Reference} (hinner : Plain inner) :
      Plain { modifier := .slice, args := [inner] }
  | array {inner : Reference} {length : String}
      (hlength : isIdentifier length = true ∨ isNumber length = true) (hinner : Plain inner) :
      Plain { modifier := .array, args := [inner], length }

namespace Plain

variable {r : Reference} {length : String}

theorem standsAlone_length (h : isIdentifier length = true ∨ isNumber length = true) :
    StandsAlone length := by
  cases h with
  | inl hname => exact standsAlone_identifier hname
  | inr hnumber => exact standsAlone_number hnumber

theorem legible (h : r.Plain) : r.Legible := by
  induction h with
  | path hsegments _ _ ih => exact .path (fun s hs => standsAlone_identifier (hsegments s hs)) ih
  | ampersand exclusive hlifetime _ ih => exact .ampersand exclusive hlifetime ih
  | star exclusive _ ih => exact .star exclusive ih
  | tuple _ ih => exact .tuple ih
  | slice _ ih => exact .slice ih
  | array hlength _ ih => exact .array (standsAlone_length hlength) ih

/-- What every node of a plain reference has in common. -/
theorem node (h : r.Plain) : (r.modifier ≠ .verbatim ∧ ∀ text, r.modifier ≠ .custom text) ∧
    (r.lifetime = "" ∨ isLifetime r.lifetime = true) ∧ ∀ a ∈ r.args, a.Plain := by
  cases h with
  | path _ _ hargs => exact ⟨⟨nofun, nofun⟩, .inl rfl, hargs⟩
  | ampersand exclusive hlifetime hinner =>
      refine ⟨?_, hlifetime, by simpa using hinner⟩
      cases exclusive with
      | false => exact ⟨nofun, nofun⟩
      | true => exact ⟨nofun, nofun⟩
  | star exclusive hinner =>
      refine ⟨?_, .inl rfl, by simpa using hinner⟩
      cases exclusive with
      | false => exact ⟨nofun, nofun⟩
      | true => exact ⟨nofun, nofun⟩
  | tuple hargs => exact ⟨⟨nofun, nofun⟩, .inl rfl, hargs⟩
  | slice hinner => exact ⟨⟨nofun, nofun⟩, .inl rfl, by simpa using hinner⟩
  | array _ hinner => exact ⟨⟨nofun, nofun⟩, .inl rfl, by simpa using hinner⟩

theorem exists_ofText_length (h : isIdentifier length = true ∨ isNumber length = true) :
    ∃ t : Token, Token.ofText line length = [t] ∧ t.text = length ∧ t.kind ≠ .punct := by
  cases h with
  | inl hname => exact ⟨_, ofText_identifier hname, rfl, by simp⟩
  | inr hnumber => exact ⟨_, ofText_number hnumber, rfl, by simp⟩

theorem segmentTokens_eq {segments : List String} (h : ∀ s ∈ segments, isIdentifier s = true) :
    segmentTokens line segments =
      [mark line "::"].intercalate (segments.map fun s => [name line s]) := by
  unfold segmentTokens
  congr 1
  exact List.map_congr_left fun s hs => ofText_identifier (h s hs)

end Plain

/-! ### Balance -/

theorem balanced_lifetimeTokens {lifetime : String} :
    Balanced (lifetimeTokens line lifetime) := by
  unfold lifetimeTokens
  by_cases hempty : lifetime = ""
  · rw [if_pos hempty]
    exact .nil
  · rw [if_neg hempty]
    exact .singleton (isInner_of_kind_ne (by simp))

end Reference

end ConversionClosure
