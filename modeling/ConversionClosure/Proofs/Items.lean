/-
Files of well-formed items.

`WellFormed ts found` tells a file by its shape: items one after the other, each with attributes and
words in front of it, and for each the one thing that it declares, if it declares something.  The
runs inside of an item are only told to match in their brackets, so they may hold whole items of
their own.

The scanner finds just what such a file declares.  Nothing that stands inside of a body, a group or
parameters gets out, and no item takes a part of the next one with it.
-/
import ConversionClosure.Language
import ConversionClosure.Proofs.Scanning
import Mathlib.Control.Monad.Basic

namespace ConversionClosure

open Token Reference

variable {ts : List Token} {found : List Finding}

namespace Scanner

/-- The tokens are an item from its keyword on, and `found` is what it declares: a type with its
parameters, the implementation of a trait with arguments, or anything else. -/
inductive Item : List Token → Option Finding → Prop
  | type {l l' : Nat} {keyword text : String} {run tail ending : List Token}
      (hkeyword : keyword = "struct" ∨ keyword = "enum") (hrun : Parameters run)
      (htail : Ongoing tail) (hless : ∀ t ∈ tail.head?, t.isPunct "<" = false)
      (hending : ItemEnd ending) :
      Item (name l keyword :: name l' text :: (run ++ (tail ++ ending)))
        (some (.type ⟨text, keyword, (params run).length⟩))
  | impl {l l' k k' : Nat} {run ts us clause body : List Token} {segments : List String}
      {source target : Reference} {args : List Reference} (hrun : Parameters run)
      (htrait : Spells ts { segments, args := source :: args })
      (hconst : ∀ t ∈ ts.head?, t.isIdent "const" = false) (htarget : Spells us target)
      (hclause : Clause clause) (hbody : Balanced body) :
      Item (name l "impl" :: (run ++ (ts ++ name l' "for" :: (us ++ (clause ++
          mark k "\x7b" :: (body ++ [mark k' "\x7d"]))))))
        (some (.conversion ⟨{ segments, args := source :: args }, source, target, params run⟩))
  | other {l : Nat} {text : String} {tail ending : List Token}
      (htext : text ∉ "struct" :: "enum" :: "impl" :: itemWords) (htail : Ongoing tail)
      (hending : ItemEnd ending) : Item (name l text :: (tail ++ ending)) none

/-- The tokens are items, each with attributes and words in front of it, and `found` is what they
declare, in their order. -/
inductive WellFormed : List Token → List Finding → Prop
  | nil : WellFormed [] []
  | cons {as ws ts us : List Token} {found : Option Finding} {more : List Finding}
      (hattributes : Attributes as) (hwords : Words ws) (hitem : Item ts found)
      (h : WellFormed us more) : WellFormed (as ++ (ws ++ ts) ++ us) (found.toList ++ more)

namespace Item

variable {found : Option Finding}

theorem takes (h : Item ts found) : Takes ts found := by
  cases h with
  | type hkeyword hrun htail hless hending =>
      exact takes_type hkeyword hrun htail hless hending
  | impl hrun htrait hconst htarget hclause hbody =>
      exact takes_impl hrun htrait.reads hconst rfl rfl htarget.reads hclause hbody
  | other htext htail hending => exact takes_other htext htail hending

theorem balanced (h : Item ts found) : Balanced ts := by
  cases h with
  | type _ hrun htail _ hending =>
      exact .inner isInner_name (.inner isInner_name
        (hrun.balanced.append (htail.balanced.append hending.balanced)))
  | @impl l l' k k' run ts us clause body _ _ _ _ hrun htrait _ htarget hclause hbody =>
      have hbraces : Balanced (mark k "\x7b" :: body ++ [mark k' "\x7d"]) :=
        .bracketed rfl rfl hbody
      have hfor : Balanced (name l' "for" :: (us ++ (clause ++ (mark k "\x7b" :: body ++
          [mark k' "\x7d"])))) :=
        .inner isInner_name
          (htarget.reads.balanced.append (hclause.ongoing.balanced.append hbraces))
      exact .inner isInner_name (hrun.balanced.append (htrait.reads.balanced.append hfor))
  | other _ htail hending => exact .inner isInner_name (htail.balanced.append hending.balanced)

/-- Every item is one that the scanner understands. -/
theorem note?_eq_none (h : Item ts found) : ∀ f ∈ found, f.note? = none := by
  cases h with
  | type => simp [Finding.note?]
  | impl => simp [Finding.note?]
  | other => simp

end Item

namespace WellFormed

theorem finds (h : WellFormed ts found) : Finds ts found := by
  induction h with
  | nil => exact .nil
  | cons hattributes hwords hitem _ ih => exact (hitem.takes.finds hattributes hwords).append ih

theorem balanced (h : WellFormed ts found) : Balanced ts := by
  induction h with
  | nil => exact .nil
  | cons hattributes hwords hitem _ ih =>
      exact (hattributes.balanced.append (hwords.balanced.append hitem.balanced)).append ih

theorem notes_eq_nil (h : WellFormed ts found) : found.filterMap Finding.note? = [] := by
  induction h with
  | nil => rfl
  | cons _ _ hitem _ ih =>
      rw [List.filterMap_append, ih, List.append_nil, List.filterMap_eq_nil_iff]
      exact fun f hf => hitem.note?_eq_none f (Option.mem_toList.mp hf)

/-- A text of such items is read, and what it declares is what the scanner finds. -/
theorem parseSource_eq (h : WellFormed ts found) (path : Path) (text : String)
    (hlex : lex text = .ok ts) : Format.parseSource path text = .ok (.ofFindings path found) := by
  rw [Format.parseSource, h.balanced.tokenize_eq hlex]
  simp only [h.finds.scan_eq]

end WellFormed

/-- **The scanner finds in well-formed items what they declare, and nothing else**: each declared
type and each conversion, in their order, and no note.  A text of such items is read that way. -/
theorem scan_wellFormed (h : WellFormed ts found) :
    scan ts = .ok found ∧ found.filterMap Finding.note? = [] ∧
      ∀ path text, lex text = .ok ts →
        Format.parseSource path text = .ok (.ofFindings path found) :=
  ⟨h.finds.scan_eq, h.notes_eq_nil, h.parseSource_eq⟩

/-! A file with a type, a conversion whose body holds a type, and a module that holds a conversion.
-/

def nested : String := "#[a] pub struct S<T>;\n" ++
  "impl From<A> for S<B> \x7b struct C; \x7d\nmod m \x7b impl From<S> for A \x7b\x7d \x7d"

/-- The type of the file, behind its attribute and its word. -/
theorem item_nestedType : Item
    [name 1 "struct", name 1 "S", mark 1 "<", name 1 "T", mark 1 ">", mark 1 ";"]
    (some (.type ⟨"S", "struct", 1⟩)) := by
  have hrun : Parameters [mark 1 "<", name 1 "T", mark 1 ">"] :=
    @Parameters.run 1 1 [name 1 "T"] (.inner isInner_name rfl rfl .nil)
  have harity : (params [mark 1 "<", name 1 "T", mark 1 ">"]).length = 1 := by decide
  have hitem := @Item.type 1 1 "struct" "S" _ [] _ (.inl rfl) hrun .nil (by simp)
    (.semicolon (l := 1))
  rwa [harity] at hitem

/-- The conversion of the file, with its body. -/
theorem item_nestedConversion : Item
    [name 2 "impl", name 2 "From", mark 2 "<", name 2 "A", mark 2 ">", name 2 "for", name 2 "S",
      mark 2 "<", name 2 "B", mark 2 ">", mark 2 "\x7b", name 2 "struct", name 2 "C", mark 2 ";",
      mark 2 "\x7d"]
    (some (.conversion ⟨{ segments := ["From"], args := [.ofSegments ["A"]] }, .ofSegments ["A"],
      { segments := ["S"], args := [.ofSegments ["B"]] }, []⟩)) := by
  have hpath : ∀ {first argument : String}, first ∉ reservedStarts → argument ∉ reservedStarts →
      Spells [name 2 first, mark 2 "<", name 2 argument, mark 2 ">"]
        { segments := [first], args := [.ofSegments [argument]] } := by
    intro first argument hfirst hargument
    have hplain : Spells [name 2 argument] (.ofSegments [argument]) :=
      Spells.bare (.inl rfl) hargument .nil
    exact (SpellsAll.last hplain).path (.inl rfl) hfirst .nil
  have hbody : Balanced [name 2 "struct", name 2 "C", mark 2 ";"] :=
    .inner isInner_name (.inner isInner_name (.singleton (isInner_mark rfl rfl)))
  exact @Item.impl 2 2 2 2 [] _ _ [] _ _ _ _ _ .none (hpath (by decide) (by decide)) (by simp)
    (hpath (by decide) (by decide)) .none hbody

/-- The module of the file, which the scanner does not look into. -/
theorem item_nestedModule : Item
    [name 3 "mod", name 3 "m", mark 3 "\x7b", name 3 "impl", name 3 "From", mark 3 "<",
      name 3 "S", mark 3 ">", name 3 "for", name 3 "A", mark 3 "\x7b", mark 3 "\x7d",
      mark 3 "\x7d"] none := by
  have hgroup : Balanced [name 3 "for", name 3 "A", mark 3 "\x7b", mark 3 "\x7d"] :=
    .inner isInner_name (.inner isInner_name (@Balanced.bracketed _ _ _ [] rfl rfl .nil))
  have hbody : Balanced [name 3 "impl", name 3 "From", mark 3 "<", name 3 "S", mark 3 ">",
      name 3 "for", name 3 "A", mark 3 "\x7b", mark 3 "\x7d"] :=
    .inner isInner_name (.inner isInner_name (.inner (isInner_mark rfl rfl)
      (.inner isInner_name (.inner (isInner_mark rfl rfl) hgroup))))
  exact @Item.other 3 "mod" [name 3 "m"] _ (by decide) (.inner isInner_name rfl .nil)
    (.braces hbody)

theorem scan_wellFormed_nested :
    ∃ unit, Format.parseSource (.ofText "a.rs") nested = .ok unit ∧
      unit.types = [⟨"S", "struct", 1⟩] ∧
      unit.conversions = [⟨{ segments := ["From"], args := [.ofSegments ["A"]] },
        .ofSegments ["A"], { segments := ["S"], args := [.ofSegments ["B"]] }, []⟩] ∧
      unit.skipped = [] := by
  have hattribute : Attributes [mark 1 "#", mark 1 "[", name 1 "a", mark 1 "]"] :=
    @Attributes.cons 1 1 1 [] [name 1 "a"] [] (.inl rfl) (.singleton isInner_name) .nil
  have hword : Words [name 1 "pub"] :=
    @Words.cons [name 1 "pub"] [] (.plain (by decide)) .nil
  have hfile := WellFormed.cons hattribute hword item_nestedType
    (.cons .nil .nil item_nestedConversion (.cons .nil .nil item_nestedModule .nil))
  obtain ⟨-, -, hparse⟩ := scan_wellFormed hfile
  exact ⟨_, hparse _ nested (by decide +kernel), rfl, rfl, rfl⟩

end Scanner

end ConversionClosure
