/-
The parameters of an implementation.

Behind its keyword an implementation may name parameters, between angle brackets and with commas
between them.  The scanner takes such a run whole, and the names that it tells are those that were
written, in their order.
-/
import ConversionClosure.Proofs.Emitting
import ConversionClosure.Proofs.Reading
import ConversionClosure.Proofs.Runs

namespace ConversionClosure

open Text Piece Token Reference

variable {line : Nat} {text : String} {t : Token} {ts : List Token} {params : List String}

/-- The text names a parameter: it is a lifetime, or a name other than `const`. -/
def NamesParameter (text : String) : Prop :=
  isLifetime text = true ∨ isIdentifier text = true ∧ text ≠ "const"

namespace NamesParameter

theorem standsAlone (h : NamesParameter text) : StandsAlone text := by
  rcases h with hlifetime | ⟨hname, -⟩
  · exact standsAlone_lifetime hlifetime
  · exact standsAlone_identifier hname

/-- Such a text is one token, and that is not the word for a constant. -/
theorem exists_ofText (h : NamesParameter text) (line : Nat) :
    ∃ t : Token, Token.ofText line text = [t] ∧ t.text = text ∧
      (t.kind = .ident ∨ t.kind = .lifetime) ∧ t.isIdent "const" = false := by
  rcases h with hlifetime | ⟨hname, hconst⟩
  · exact ⟨_, ofText_lifetime hlifetime, rfl, .inr rfl, rfl⟩
  · exact ⟨_, ofText_identifier hname, rfl, .inl rfl, by simpa using hconst⟩

end NamesParameter

theorem kind_ne_punct (h : t.kind = .ident ∨ t.kind = .lifetime) : t.kind ≠ .punct := by
  rcases h with hkind | hkind
  · simp [hkind]
  · simp [hkind]

theorem isPunct_of_kind_ne (h : t.kind ≠ .punct) : t.isPunct text = false := by
  simp [Token.isPunct, h]

namespace Emission

/-- Written parameters hold no bracket but those around them. -/
theorem parameters_parameterTokens (h : ∀ p ∈ params, NamesParameter p) :
    Parameters (parameterTokens line params) := by
  unfold parameterTokens argumentTokens
  by_cases hempty : (params.map (Token.ofText line)).isEmpty = true
  · rw [if_pos hempty]
    exact .none
  · rw [if_neg hempty]
    refine .run (.of_inner fun t ht => ?_)
    rcases mem_of_mem_intercalate ht with rfl | ⟨run, hrun, htrun⟩
    · exact ⟨isInner_mark rfl rfl, rfl, rfl⟩
    · obtain ⟨p, hp, rfl⟩ := List.mem_map.mp hrun
      obtain ⟨u, htokens, -, hkind, -⟩ := (h p hp).exists_ofText line
      obtain rfl : t = u := by simpa [htokens] using htrun
      have hne : t.kind ≠ .punct := kind_ne_punct hkind
      exact ⟨isInner_of_kind_ne hne, isPunct_of_kind_ne hne, isPunct_of_kind_ne hne⟩

end Emission

namespace Scanner

open Emission

/-- A name where a parameter begins is taken. -/
theorem paramNames_name (hkind : t.kind = .ident ∨ t.kind = .lifetime)
    (hconst : t.isIdent "const" = false) :
    paramNames 1 true (t :: ts) = t.text :: paramNames 1 false ts := by
  rw [paramNames]
  · simp [isPunct_of_kind_ne (kind_ne_punct hkind), hkind]
  · simp [hconst]

theorem paramNames_comma {expecting : Bool} :
    paramNames 1 expecting (mark line "," :: ts) = paramNames 1 true ts := by
  rw [paramNames]
  · simp
  · simp

theorem paramNames_commaTokens (hne : params ≠ []) (h : ∀ p ∈ params, NamesParameter p) :
    paramNames 1 true (commaTokens line (params.map (Token.ofText line)) ++ [mark line ">"]) =
      params := by
  induction params with
  | nil => exact absurd rfl hne
  | cons p params ih =>
      obtain ⟨t, htokens, rfl, hkind, hconst⟩ := (h p (by simp)).exists_ofText line
      cases params with
      | nil =>
          rw [List.map_cons, List.map_nil, commaTokens_singleton, htokens, List.singleton_append,
            paramNames_name hkind hconst]
          rfl
      | cons q params =>
          have hrec := ih (by simp) fun p hp => h p (by simp [hp])
          rw [List.map_cons] at hrec
          rw [List.map_cons, List.map_cons, commaTokens_cons_cons, htokens, List.append_assoc,
            List.singleton_append, paramNames_name hkind hconst, List.cons_append,
            paramNames_comma, hrec]

/-- **The names of written parameters are told in their order.** -/
theorem params_parameterTokens (h : ∀ p ∈ params, NamesParameter p) :
    Scanner.params (parameterTokens line params) = params := by
  cases params with
  | nil => rfl
  | cons p params => exact paramNames_commaTokens (by simp) h

end Scanner

end ConversionClosure
