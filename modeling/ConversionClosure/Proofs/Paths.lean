/-
Paths and their texts.

The components that a text writes hold no slash and are neither empty nor a single dot.  A path with
such components is read back from its text, so texts tell these paths apart.
-/
import ConversionClosure.File.Path

namespace ConversionClosure.Path

variable {p q : Path} {cs begun : List Char}

/-- Every component of the path could stand in a text. -/
def IsNormal (p : Path) : Prop :=
  ∀ part ∈ p.parts, isIdle part.toList = false ∧ '/' ∉ part.toList

/-! ### Splitting at slashes -/

theorem splitSlashes_of_not_mem (h : '/' ∉ cs) : splitSlashes begun cs = [begun ++ cs] := by
  induction cs generalizing begun with
  | nil => rw [splitSlashes, List.append_nil]
  | cons c cs ih =>
      rw [List.mem_cons, not_or] at h
      rw [splitSlashes, ih h.2, List.append_assoc]
      · rfl
      · exact fun hc => h.1 hc.symm

theorem splitSlashes_append (h : '/' ∉ cs) (rest : List Char) :
    splitSlashes begun (cs ++ '/' :: rest) = (begun ++ cs) :: splitSlashes [] rest := by
  induction cs generalizing begun with
  | nil => rw [List.nil_append, splitSlashes, List.append_nil]
  | cons c cs ih =>
      rw [List.mem_cons, not_or] at h
      rw [List.cons_append, splitSlashes, ih h.2, List.append_assoc]
      · rfl
      · exact fun hc => h.1 hc.symm

/-- No piece between slashes holds one. -/
theorem not_mem_of_mem_splitSlashes (hbegun : '/' ∉ begun) {piece : List Char}
    (h : piece ∈ splitSlashes begun cs) : '/' ∉ piece := by
  induction cs generalizing begun with
  | nil =>
      rw [splitSlashes, List.mem_singleton] at h
      rwa [h]
  | cons c cs ih =>
      by_cases hc : c = '/'
      · subst hc
        rw [splitSlashes, List.mem_cons] at h
        rcases h with rfl | h
        · exact hbegun
        · exact ih List.not_mem_nil h
      · rw [splitSlashes] at h
        · exact ih (by simp [hbegun, Ne.symm hc]) h
        · exact hc

theorem toList_intercalate_cons (part next : String) (parts : List String) :
    ("/".intercalate (part :: next :: parts)).toList =
      part.toList ++ '/' :: ("/".intercalate (next :: parts)).toList := by
  rw [String.intercalate_cons_cons, String.toList_append, String.toList_append, List.append_assoc]
  rfl

theorem splitSlashes_intercalate {part : String} {parts : List String}
    (h : ∀ s ∈ part :: parts, '/' ∉ s.toList) :
    splitSlashes [] ("/".intercalate (part :: parts)).toList =
      (part :: parts).map String.toList := by
  induction parts generalizing part with
  | nil =>
      rw [String.intercalate_singleton]
      exact splitSlashes_of_not_mem (h part (by simp))
  | cons next parts ih =>
      obtain ⟨hpart, hrest⟩ := List.forall_mem_cons.mp h
      rw [toList_intercalate_cons, splitSlashes_append hpart, ih hrest]
      rfl

theorem splitSlashes_replicate (n : Nat) (cs : List Char) :
    splitSlashes [] (List.replicate n '/' ++ cs) = List.replicate n [] ++ splitSlashes [] cs := by
  induction n with
  | zero => rfl
  | succ n ih => rw [List.replicate_succ, List.cons_append, splitSlashes, ih]; rfl

/-! ### Reading a path back -/

theorem isNormal_ofText (text : String) : (ofText text).IsNormal := by
  intro part hpart
  obtain ⟨piece, hpiece, rfl⟩ := List.mem_map.mp hpart
  obtain ⟨hmem, hidle⟩ := List.mem_filter.mp hpiece
  rw [String.toList_ofList]
  exact ⟨by simpa using hidle, not_mem_of_mem_splitSlashes List.not_mem_nil hmem⟩

/-- What the components write does not start with a slash. -/
theorem exists_cons_intercalate {part : String} (hidle : isIdle part.toList = false)
    (hslash : '/' ∉ part.toList) (parts : List String) :
    ∃ c cs, ("/".intercalate (part :: parts)).toList = c :: cs ∧ c ≠ '/' := by
  cases hpart : part.toList with
  | nil => simp [hpart, isIdle] at hidle
  | cons c cs =>
      have hc : c ≠ '/' := by
        rintro rfl
        simp [hpart] at hslash
      cases parts with
      | nil => exact ⟨c, cs, by rw [String.intercalate_singleton, hpart], hc⟩
      | cons next parts => exact ⟨c, _, by rw [toList_intercalate_cons, hpart]; rfl, hc⟩

theorem exists_rootText_eq (root : PathRoot) :
    ∃ n, (rootText root).toList = List.replicate n '/' ∧ rootOf n = root := by
  cases root with
  | relative => exact ⟨0, rfl, rfl⟩
  | absolute => exact ⟨1, rfl, rfl⟩
  | doubled => exact ⟨2, rfl, rfl⟩

/-- **A path is read back from its text.** -/
theorem ofText_toText (h : p.IsNormal) : ofText p.toText = p := by
  obtain ⟨root, parts⟩ := p
  cases parts with
  | nil => cases root <;> decide
  | cons part parts =>
      obtain ⟨n, hroot, hn⟩ := exists_rootText_eq root
      obtain ⟨hidle, hslash⟩ := h part (by simp)
      obtain ⟨c, cs, hbody, hc⟩ := exists_cons_intercalate hidle hslash parts
      have htext : (toText ⟨root, part :: parts⟩).toList =
          List.replicate n '/' ++ ("/".intercalate (part :: parts)).toList := by
        rw [toText, if_neg (by simp), String.toList_append, hroot]
      have hcount : ((toText ⟨root, part :: parts⟩).toList.takeWhile (· == '/')).length = n := by
        rw [htext, List.takeWhile_append_of_pos (by simp), hbody,
          List.takeWhile_cons_of_neg (by simpa using hc), List.append_nil, List.length_replicate]
      have hparts : (splitSlashes [] (toText ⟨root, part :: parts⟩).toList).filter (!isIdle ·) =
          (part :: parts).map String.toList := by
        rw [htext, splitSlashes_replicate, splitSlashes_intercalate fun s hs => (h s hs).2,
          List.filter_append, List.filter_replicate, if_neg (by decide), List.nil_append,
          List.filter_eq_self]
        intro piece hpiece
        obtain ⟨s, hs, rfl⟩ := List.mem_map.mp hpiece
        simp [(h s hs).1]
      show Path.mk _ _ = _
      rw [hcount, hn, hparts, List.map_map]
      simp [Function.comp_def]

theorem eq_of_toText_eq (hp : p.IsNormal) (hq : q.IsNormal) (h : p.toText = q.toText) : p = q := by
  rw [← ofText_toText hp, h, ofText_toText hq]

end ConversionClosure.Path
