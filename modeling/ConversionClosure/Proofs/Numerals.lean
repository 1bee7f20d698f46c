/-
Texts of digits, and which of them write an integer.

A text of digits is made of digits and of nothing else, apart from blanks around them.  That is a
wider notion than that of a numeral in three ways.  There are digits without a decimal value, such
as superscripts.  The four ASCII separators are blanks, but not around a numeral.  And a numeral has
a greatest number of digits.  Nothing else keeps a text of digits from writing an integer.
-/
import ConversionClosure.Text.Numeral
import ConversionClosure.Text.Trim
import Mathlib.Data.List.DropRight

namespace ConversionClosure.Text

variable {drop drop' : Char → Bool} {cs cs' : List Char} {c : Char} {s : String} {n : Int}
  {value m : Nat}

/-! ### Stripped lists -/

theorem dropWhile_congr (h : ∀ c ∈ cs, drop c = drop' c) :
    cs.dropWhile drop = cs.dropWhile drop' := by
  induction cs with
  | nil => rfl
  | cons c cs ih =>
      obtain ⟨hc, hcs⟩ := List.forall_mem_cons.mp h
      rw [List.dropWhile_cons, List.dropWhile_cons, hc, ih hcs]

theorem mem_dropWhile (hmem : c ∈ cs) (hc : drop c = false) : c ∈ cs.dropWhile drop := by
  rw [← List.takeWhile_append_dropWhile (p := drop) (l := cs), List.mem_append] at hmem
  refine hmem.resolve_left fun hdropped => ?_
  simp [List.mem_takeWhile_imp hdropped] at hc

/-- What has nothing to drop at its start has nothing to drop at the start of a part of it. -/
theorem dropWhile_eq_self_of_prefix (hpart : cs <+: cs') (h : cs'.dropWhile drop = cs') :
    cs.dropWhile drop = cs := by
  rw [List.dropWhile_eq_self_iff] at h ⊢
  intro hpos
  rw [hpart.getElem hpos]
  exact h (hpos.trans_le hpart.length_le)

theorem stripChars_congr (h : ∀ c ∈ cs, drop c = drop' c) :
    stripChars drop cs = stripChars drop' cs := by
  have hrest : ∀ c ∈ (cs.dropWhile drop').reverse, drop c = drop' c := fun c hc =>
    h c ((List.dropWhile_sublist drop').subset (List.mem_reverse.mp hc))
  rw [stripChars, stripChars, dropWhile_congr h, dropWhile_congr hrest]

theorem mem_stripChars (hmem : c ∈ cs) (hc : drop c = false) : c ∈ stripChars drop cs := by
  rw [stripChars, List.mem_reverse]
  exact mem_dropWhile (List.mem_reverse.mpr (mem_dropWhile hmem hc)) hc

theorem stripChars_stripChars (drop : Char → Bool) (cs : List Char) :
    stripChars drop (stripChars drop cs) = stripChars drop cs := by
  have hstart : (stripChars drop cs).dropWhile drop = stripChars drop cs :=
    dropWhile_eq_self_of_prefix (List.rdropWhile_prefix drop (cs.dropWhile drop))
      (List.dropWhile_idempotent drop cs)
  show ((stripChars drop cs).dropWhile drop).rdropWhile drop = _
  rw [hstart]
  exact List.rdropWhile_idempotent drop (cs.dropWhile drop)

theorem trim_eq (s : String) : trim s = String.ofList (stripChars isBlank s.toList) := rfl

theorem trim_trim (s : String) : trim (trim s) = trim s := by
  rw [trim_eq, trim_eq, String.toList_ofList, stripChars_stripChars]

/-! ### Digits -/

/-- The digits of every script have greater codes than the signs and the separators. -/
theorem decimalValue?_of_lt (h : c.toNat < '0'.toNat) : decimalValue? c = none := by
  have hzeros : ∀ first ∈ decimalZeros, '0'.toNat ≤ first := by decide
  have hascii : c.isDigit = false := by
    rw [Bool.eq_false_iff, Ne, Char.isDigit_iff_toNat]
    exact fun hdigit => Nat.not_lt.mpr hdigit.1 h
  rw [decimalValue?, if_neg (by simp [hascii]), Option.map_eq_none_iff, List.find?_eq_none]
  intro first hfirst
  have := hzeros first hfirst
  simp only [Bool.and_eq_true, decide_eq_true_eq, not_and]
  omega

theorem digitsFrom?_cons (hc : c ≠ '_') : digitsFrom? value (c :: cs) =
    (decimalValue? c).bind fun d => digitsFrom? (10 * value + d) cs := by
  rw [digitsFrom?]
  · rfl
  · exact fun _ _ h _ => hc h

theorem ne_underscore_of_decimal (h : (decimalValue? c).isSome = true) : c ≠ '_' := by
  rintro rfl
  revert h
  decide

theorem isSome_digitsFrom? (h : ∀ c ∈ cs, (decimalValue? c).isSome = true) :
    (digitsFrom? value cs).isSome = true := by
  induction cs generalizing value with
  | nil => rfl
  | cons c cs ih =>
      obtain ⟨hc, hcs⟩ := List.forall_mem_cons.mp h
      obtain ⟨d, hd⟩ := Option.isSome_iff_exists.mp hc
      rw [digitsFrom?_cons (ne_underscore_of_decimal hc), hd]
      exact ih hcs

theorem exists_digits? (h : ∀ c ∈ cs, (decimalValue? c).isSome = true) (hne : cs ≠ []) :
    ∃ m, digits? cs = some m := by
  cases cs with
  | nil => exact absurd rfl hne
  | cons c cs =>
      obtain ⟨hc, hcs⟩ := List.forall_mem_cons.mp h
      obtain ⟨d, hd⟩ := Option.isSome_iff_exists.mp hc
      rw [digits?, hd]
      exact Option.isSome_iff_exists.mp (isSome_digitsFrom? hcs)

/-- Digits are read only if nothing but underscores is among them. -/
theorem mem_of_digitsFrom? (h : digitsFrom? value cs = some m) (hc : c ∈ cs) :
    c = '_' ∨ (decimalValue? c).isSome = true := by
  fun_induction digitsFrom? value cs with
  | case1 value => cases hc
  | case2 value d cs ih =>
      obtain ⟨v, hd, hcs⟩ := Option.bind_eq_some_iff.mp h
      rcases List.mem_cons.mp hc with rfl | hc
      · exact .inl rfl
      rcases List.mem_cons.mp hc with rfl | hc
      · exact .inr (hd ▸ rfl)
      · exact ih v hcs hc
  | case3 value d cs _ ih =>
      obtain ⟨v, hd, hcs⟩ := Option.bind_eq_some_iff.mp h
      rcases List.mem_cons.mp hc with rfl | hc
      · exact .inr (hd ▸ rfl)
      · exact ih v hcs hc

theorem mem_of_digits? (h : digits? cs = some m) (hc : c ∈ cs) :
    c = '_' ∨ (decimalValue? c).isSome = true := by
  cases cs with
  | nil => cases hc
  | cons d cs =>
      obtain ⟨v, hd, hcs⟩ := Option.bind_eq_some_iff.mp h
      rcases List.mem_cons.mp hc with rfl | hc
      · exact .inr (hd ▸ rfl)
      · exact mem_of_digitsFrom? hcs hc

/-! ### Integers -/

theorem leadingDigits_of_digits? (h : digits? cs = some m) : leadingDigits cs = cs := by
  refine List.takeWhile_eq_self_iff.mpr fun c hc => ?_
  simpa using mem_of_digits? h hc

/-- A text writes an integer if digits are what its sign leaves, and not too many. -/
theorem integer_eq_ok_iff {negative : Bool}
    (hsign : sign (stripChars isNumeralBlank s.toList) = (negative, cs)) :
    integer s = .ok n ↔
      ∃ m, digits? cs = some m ∧ cs.countP (· != '_') ≤ maxDigits ∧ withSign negative m = n := by
  simp only [integer, hsign]
  cases hdigits : digits? cs with
  | none =>
      refine iff_of_false (fun h => ?_) nofun
      split at h <;> cases h
  | some m =>
      rw [leadingDigits_of_digits? hdigits, hdigits]
      by_cases hcount : maxDigits < cs.countP (· != '_')
      · simp [hcount, Nat.not_le.mpr hcount]
      · simp [hcount, Nat.not_lt.mp hcount]

/-- What may stand in a numeral besides digits. -/
def marks : List Char := ['-', '+', '_']

theorem mem_sign (hc : c ∈ cs) : c ∈ marks ∨ c ∈ (sign cs).2 := by
  unfold sign
  split
  · exact (List.mem_cons.mp hc).imp_left fun hminus => by simp [marks, hminus]
  · exact (List.mem_cons.mp hc).imp_left fun hplus => by simp [marks, hplus]
  · exact .inr hc

theorem mem_of_integer (h : integer s = .ok n) (hc : c ∈ stripChars isNumeralBlank s.toList) :
    c ∈ marks ∨ (decimalValue? c).isSome = true := by
  obtain ⟨m, hdigits, -⟩ := (integer_eq_ok_iff rfl).mp h
  rcases mem_sign hc with hmark | hc
  · exact .inl hmark
  · exact (mem_of_digits? hdigits hc).imp_left fun hunderscore => by simp [marks, hunderscore]

theorem sign_of_digits (h : ∀ c ∈ cs, isDigit c = true) : sign cs = (false, cs) := by
  unfold sign
  split
  · exact absurd (h '-' List.mem_cons_self) (by decide)
  · exact absurd (h '+' List.mem_cons_self) (by decide)
  · rfl

/-! ### Texts of digits -/

/-- The four ASCII separators. -/
abbrev IsSeparator (c : Char) : Prop := 0x1c ≤ c.toNat ∧ c.toNat ≤ 0x1f

/-- What keeps a text of digits from being refused as an integer. -/
structure IsCountable (s : String) : Prop where
  /-- All its digits have decimal values. -/
  decimal : ∀ c ∈ (trim s).toList, (decimalValue? c).isSome = true
  /-- There are not too many of them. -/
  length_le : (trim s).length ≤ maxDigits
  /-- None of the blanks around them is one of the four separators. -/
  blanks : ∀ c ∈ s.toList, ¬IsSeparator c

theorem stripChars_eq_trim (h : ∀ c ∈ s.toList, ¬IsSeparator c) :
    stripChars isNumeralBlank s.toList = (trim s).toList := by
  rw [trim_eq, String.toList_ofList]
  refine stripChars_congr fun c hc => ?_
  have hcode : (decide (0x1c ≤ c.toNat) && decide (c.toNat ≤ 0x1f)) = false := by
    rw [← Bool.decide_and]
    exact decide_eq_false (h c hc)
  simp [isNumeralBlank, hcode]

/-- The separators are no blanks around a numeral, and no numeral has one inside. -/
theorem not_separator_of_integer (h : integer s = .ok n) (hc : c ∈ s.toList) :
    ¬IsSeparator c := by
  intro hcode
  have hkept : isNumeralBlank c = false := by simp [isNumeralBlank, hcode]
  rcases mem_of_integer h (mem_stripChars hc hkept) with hmark | hdecimal
  · have hmarks : (marks.all fun c => !decide (IsSeparator c)) = true := by decide
    simpa [hcode] using List.all_eq_true.mp hmarks c hmark
  · rw [decimalValue?_of_lt (Nat.lt_of_le_of_lt hcode.2 (by decide))] at hdecimal
    cases hdecimal

theorem decimal_of_integer (h : integer s = .ok n) (hc : c ∈ stripChars isNumeralBlank s.toList)
    (hdigit : isDigit c = true) : (decimalValue? c).isSome = true := by
  refine (mem_of_integer h hc).resolve_left fun hmark => ?_
  have hmarks : marks.all (!isDigit ·) = true := by decide
  simpa [hdigit] using List.all_eq_true.mp hmarks c hmark

/-- Without separators, nothing is left to the sign of a text of digits. -/
theorem integer_digits_iff (hblanks : ∀ c ∈ s.toList, ¬IsSeparator c)
    (hdigits : ∀ c ∈ (trim s).toList, isDigit c = true) :
    integer s = .ok n ↔
      ∃ m, digits? (trim s).toList = some m ∧ (trim s).length ≤ maxDigits ∧ (m : Int) = n := by
  have hsign : sign (stripChars isNumeralBlank s.toList) = (false, (trim s).toList) := by
    rw [stripChars_eq_trim hblanks, sign_of_digits hdigits]
  have hcount : (trim s).toList.countP (· != '_') = (trim s).length := by
    rw [← String.length_toList, List.countP_eq_length]
    intro c hc
    refine bne_iff_ne.mpr ?_
    rintro rfl
    exact absurd (hdigits '_' hc) (by decide)
  rw [integer_eq_ok_iff hsign, hcount]
  rfl

/-- Which texts of digits write an integer. -/
theorem exists_integer_iff (hne : trim s ≠ "") (hdigits : ∀ c ∈ (trim s).toList, isDigit c = true) :
    (∃ n, integer s = .ok n) ↔ IsCountable s := by
  constructor
  · rintro ⟨n, h⟩
    have hblanks := fun c hc => not_separator_of_integer (c := c) h hc
    obtain ⟨m, -, hle, -⟩ := (integer_digits_iff hblanks hdigits).mp h
    refine ⟨fun c hc => ?_, hle, hblanks⟩
    rw [← stripChars_eq_trim hblanks] at hc hdigits
    exact decimal_of_integer h hc (hdigits c hc)
  · intro h
    have hchars : (trim s).toList ≠ [] := fun hnil => hne (String.toList_eq_nil_iff.mp hnil)
    obtain ⟨m, hm⟩ := exists_digits? h.decimal hchars
    exact ⟨m, (integer_digits_iff h.blanks hdigits).mpr ⟨m, hm, h.length_le, rfl⟩⟩

end ConversionClosure.Text
