/-
Settings from any table.

Each setting is read from the entry of its name, and from nothing else.  An entry of the wrong kind,
or one that has nothing in it, counts as absent, so that the settings can always be used: the numbers
are positive, which is what a pass asks of them, and the texts have something in them and no blanks
around it.

One thing can go wrong.  A number may be given as a text of digits, and not every text of digits
writes an integer.  Such a text is refused, where every other entry that gives no number falls back
to the default.
-/
import ConversionClosure.Proofs.Numerals
import ConversionClosure.Proofs.Staging

namespace ConversionClosure.Settings

variable {default n : Int} {entry : Option Value} {fields fields' : List (String × Value)}
  {settings settings' : Settings} {text : String}

/-! ### Texts -/

/-- A text with something in it, and no blanks around it. -/
structure IsTrimmed (text : String) : Prop where
  ne_empty : text ≠ ""
  trim_self : Text.trim text = text

theorem isTrimmed_iff : IsTrimmed text ↔ text ≠ "" ∧ Text.trim text = text :=
  ⟨fun h => ⟨h.ne_empty, h.trim_self⟩, fun h => ⟨h.1, h.2⟩⟩

instance (text : String) : Decidable (IsTrimmed text) := decidable_of_iff' _ isTrimmed_iff

theorem isTrimmed_of_trimmed? {s : String} (h : trimmed? s = some text) : IsTrimmed text := by
  simp only [trimmed?, Option.ite_none_left_eq_some, Option.some.injEq] at h
  obtain ⟨hne, rfl⟩ := h
  exact ⟨hne, Text.trim_trim s⟩

theorem isTrimmed_textOr {default : String} (hdefault : IsTrimmed default) (entry : Option Value) :
    IsTrimmed (textOr default entry) := by
  unfold textOr
  split
  case h_1 s =>
      cases h : trimmed? s with
      | none => exact hdefault
      | some text => exact isTrimmed_of_trimmed? h
  case h_2 => exact hdefault

theorem isTrimmed_of_mem_nameList {value : Value} (h : text ∈ nameList value) :
    IsTrimmed text := by
  unfold nameList at h
  split at h
  case h_1 =>
      obtain ⟨part, -, hpart⟩ := List.mem_filterMap.mp h
      exact isTrimmed_of_trimmed? hpart
  case h_2 =>
      obtain ⟨item, -, hitem⟩ := List.mem_filterMap.mp h
      split at hitem
      · exact isTrimmed_of_trimmed? hitem
      · cases hitem
  case h_3 => cases h

/-! ### Numbers -/

/-- An entry that is an integer, or a text of digits that writes one. -/
inductive Writes : Option Value → Int → Prop
  | number (n : Int) : Writes (some (.int n)) n
  | text {s : String} {n : Int} (hdigits : isDigits s = true) (h : Text.integer s = .ok n) :
      Writes (some (.text s)) n

theorem Writes.unique {m : Int} (hn : Writes entry n) (hm : Writes entry m) : n = m := by
  cases hn with
  | number => cases hm; rfl
  | text _ h =>
      cases hm with
      | text _ h' => exact Except.ok.inj (h.symm.trans h')

/-- An entry that is no text of digits, or one that writes an integer. -/
def Readable (entry : Option Value) : Prop :=
  ∀ s, entry = some (.text s) → isDigits s = true → Text.IsCountable s

theorem exists_integer_iff_of_digits {s : String} (h : isDigits s = true) :
    (∃ n, Text.integer s = .ok n) ↔ Text.IsCountable s := by
  simp only [isDigits, Bool.and_eq_true, bne_iff_ne, List.all_eq_true] at h
  exact Text.exists_integer_iff h.1 h.2

theorem positiveOr_of_writes (default : Int) (h : Writes entry n) :
    positiveOr default entry = .ok (if 0 < n then n else default) := by
  cases h with
  | number => rfl
  | text hdigits h => simp only [positiveOr, if_pos hdigits, h]

theorem positiveOr_of_not_writes (default : Int) (h : ∀ n, ¬Writes entry n)
    (hreadable : Readable entry) : positiveOr default entry = .ok default := by
  unfold positiveOr
  split
  case h_1 n => exact absurd (.number n) (h n)
  case h_2 s =>
      refine if_neg fun hdigits => ?_
      obtain ⟨n, hn⟩ := (exists_integer_iff_of_digits hdigits).mpr (hreadable s rfl hdigits)
      exact h n (.text hdigits hn)
  case h_3 => rfl

theorem readable_of_positiveOr (h : positiveOr default entry = .ok n) : Readable entry := by
  rintro s rfl hdigits
  rw [← exists_integer_iff_of_digits hdigits]
  simp only [positiveOr, if_pos hdigits] at h
  split at h
  case h_1 m hm => exact ⟨m, hm⟩
  case h_2 => cases h

theorem exists_positiveOr (default : Int) (h : Readable entry) :
    ∃ n, positiveOr default entry = .ok n := by
  by_cases hwrites : ∃ n, Writes entry n
  · obtain ⟨n, hn⟩ := hwrites
    exact ⟨_, positiveOr_of_writes default hn⟩
  · exact ⟨_, positiveOr_of_not_writes default (not_exists.mp hwrites) h⟩

/-- A number that is read from an entry: the one that the entry writes if that is positive, and
otherwise the default. -/
structure IsRead (default : Int) (entry : Option Value) (n : Int) : Prop where
  given : ∀ m, Writes entry m → 0 < m → n = m
  absent : (∀ m, Writes entry m → m ≤ 0) → n = default

theorem isRead_of_positiveOr (h : positiveOr default entry = .ok n) : IsRead default entry n := by
  by_cases hwrites : ∃ m, Writes entry m
  · obtain ⟨m, hm⟩ := hwrites
    obtain rfl := Except.ok.inj ((positiveOr_of_writes default hm).symm.trans h)
    exact {
      given := fun m' hm' hpos => by rw [hm.unique hm', if_pos hpos]
      absent := fun hnone => if_neg (Int.not_lt.mpr (hnone m hm)) }
  · have hnone := not_exists.mp hwrites
    have hdefault := positiveOr_of_not_writes default hnone (readable_of_positiveOr h)
    obtain rfl := Except.ok.inj (hdefault.symm.trans h)
    exact ⟨fun m hm => absurd hm (hnone m), fun _ => rfl⟩

theorem IsRead.pos (h : IsRead default entry n) (hdefault : 0 < default) : 0 < n := by
  by_cases hgives : ∃ m, Writes entry m ∧ 0 < m
  · obtain ⟨m, hm, hpos⟩ := hgives
    rwa [h.given m hm hpos]
  · rwa [h.absent fun m hm => Int.not_lt.mp fun hpos => hgives ⟨m, hm, hpos⟩]

/-! ### Tables -/

/-- How settings are read from a table: each from its own entry. -/
structure ReadFrom (fields : List (String × Value)) (settings : Settings) : Prop where
  traitName : settings.traitName =
    textOr ({} : Settings).traitName (Value.lookup "construct_name" fields)
  traitPath : settings.traitPath = textOr ({} : Settings).traitPath (Value.lookup "trait_path" fields)
  prelude : settings.prelude =
    ((Value.lookup "prelude" fields).map nameList).getD ({} : Settings).prelude
  header : settings.header =
    match Value.lookup "header" fields with
    | some (.text s) => s
    | _ => ""
  timeoutMs : positiveOr ({} : Settings).timeoutMs (Value.lookup "timeout_ms" fields) =
    .ok settings.timeoutMs
  workLimit : positiveOr ({} : Settings).workLimit (Value.lookup "gas_limit" fields) =
    .ok settings.workLimit

theorem ofValue_table_iff : ofValue (.table fields) = .ok settings ↔ ReadFrom fields settings := by
  constructor
  · intro h
    cases htime : positiveOr ({} : Settings).timeoutMs (Value.lookup "timeout_ms" fields) with
    | error =>
        simp only [ofValue, htime] at h
        cases h
    | ok timeoutMs =>
        cases hwork : positiveOr ({} : Settings).workLimit (Value.lookup "gas_limit" fields) with
        | error =>
            simp only [ofValue, htime, hwork] at h
            cases h
        | ok workLimit =>
            simp only [ofValue, htime, hwork] at h
            obtain rfl := Except.ok.inj h
            exact ⟨rfl, rfl, rfl, rfl, htime, hwork⟩
  · obtain ⟨traitName, traitPath, prelude, header, timeoutMs, workLimit⟩ := settings
    rintro ⟨rfl, rfl, rfl, rfl, htime, hwork⟩
    simp only [ofValue, htime, hwork]
    rfl

/-- Settings are refused if one of the two numbers is a text of digits that writes none. -/
theorem exists_ofValue_iff : (∃ settings, ofValue (.table fields) = .ok settings) ↔
    Readable (Value.lookup "timeout_ms" fields) ∧ Readable (Value.lookup "gas_limit" fields) := by
  constructor
  · rintro ⟨settings, h⟩
    have hread := ofValue_table_iff.mp h
    exact ⟨readable_of_positiveOr hread.timeoutMs, readable_of_positiveOr hread.workLimit⟩
  · rintro ⟨htime, hwork⟩
    obtain ⟨timeoutMs, htime⟩ := exists_positiveOr ({} : Settings).timeoutMs htime
    obtain ⟨workLimit, hwork⟩ := exists_positiveOr ({} : Settings).workLimit hwork
    have hread : ReadFrom fields ⟨_, _, _, _, timeoutMs, workLimit⟩ :=
      ⟨rfl, rfl, rfl, rfl, htime, hwork⟩
    exact ⟨_, ofValue_table_iff.mpr hread⟩

/-- Settings that a pass can be run with, and that conversions can be written with. -/
structure IsUsable (settings : Settings) : Prop where
  timeoutMs_pos : 0 < settings.timeoutMs
  workLimit_pos : 0 < settings.workLimit
  traitName : IsTrimmed settings.traitName
  traitPath : IsTrimmed settings.traitPath
  prelude : ∀ line ∈ settings.prelude, IsTrimmed line

/-- The settings that are used when nothing is said. -/
theorem isUsable_default : IsUsable {} where
  timeoutMs_pos := by decide
  workLimit_pos := by decide
  traitName := by decide
  traitPath := by decide
  prelude := by decide

theorem ReadFrom.isUsable (h : ReadFrom fields settings) : IsUsable settings where
  timeoutMs_pos := (isRead_of_positiveOr h.timeoutMs).pos isUsable_default.timeoutMs_pos
  workLimit_pos := (isRead_of_positiveOr h.workLimit).pos isUsable_default.workLimit_pos
  traitName := h.traitName ▸ isTrimmed_textOr isUsable_default.traitName _
  traitPath := h.traitPath ▸ isTrimmed_textOr isUsable_default.traitPath _
  prelude := by
    rw [h.prelude]
    cases Value.lookup "prelude" fields with
    | none => exact isUsable_default.prelude
    | some value => exact fun _ => isTrimmed_of_mem_nameList

theorem IsUsable.exists_withBudget {α : Type} (h : IsUsable settings) (stage : Stage)
    (x : Metered α) : ∃ r, Pass.withBudget settings stage x = .ok r :=
  ⟨_, Pass.withBudget_eq_ok_iff.mpr ⟨Int.le_of_lt h.timeoutMs_pos, h.workLimit_pos, rfl⟩⟩

/-- Two tables with the same entry of a name give the same setting of that name. -/
structure AgreeByName (fields fields' : List (String × Value)) (settings settings' : Settings) :
    Prop where
  traitName : Value.lookup "construct_name" fields = Value.lookup "construct_name" fields' →
    settings.traitName = settings'.traitName
  traitPath : Value.lookup "trait_path" fields = Value.lookup "trait_path" fields' →
    settings.traitPath = settings'.traitPath
  prelude : Value.lookup "prelude" fields = Value.lookup "prelude" fields' →
    settings.prelude = settings'.prelude
  header : Value.lookup "header" fields = Value.lookup "header" fields' →
    settings.header = settings'.header
  timeoutMs : Value.lookup "timeout_ms" fields = Value.lookup "timeout_ms" fields' →
    settings.timeoutMs = settings'.timeoutMs
  workLimit : Value.lookup "gas_limit" fields = Value.lookup "gas_limit" fields' →
    settings.workLimit = settings'.workLimit

theorem ReadFrom.agreeByName (h : ReadFrom fields settings) (h' : ReadFrom fields' settings') :
    AgreeByName fields fields' settings settings' where
  traitName heq := by rw [h.traitName, h'.traitName, heq]
  traitPath heq := by rw [h.traitPath, h'.traitPath, heq]
  prelude heq := by rw [h.prelude, h'.prelude, heq]
  header heq := by rw [h.header, h'.header, heq]
  timeoutMs heq := Except.ok.inj (h.timeoutMs.symm.trans (heq ▸ h'.timeoutMs))
  workLimit heq := Except.ok.inj (h.workLimit.symm.trans (heq ▸ h'.workLimit))

/-- A table gives settings unless one of its two numbers is a text of digits that writes no integer.
The settings can be used, so a pass with them always starts; each is settled by the entry of its own
name; and each number is what its entry writes, if that is a positive integer, and the default if the
entry writes none. -/
theorem ofValue_usable (fields : List (String × Value)) :
    ((∃ settings, ofValue (.table fields) = .ok settings) ↔
        Readable (Value.lookup "timeout_ms" fields) ∧
          Readable (Value.lookup "gas_limit" fields)) ∧
      ∀ settings, ofValue (.table fields) = .ok settings →
        IsUsable settings ∧
        (∀ (α : Type) (stage : Stage) (x : Metered α),
          ∃ r, Pass.withBudget settings stage x = .ok r) ∧
        IsRead 120000 (Value.lookup "timeout_ms" fields) settings.timeoutMs ∧
        IsRead 50000000 (Value.lookup "gas_limit" fields) settings.workLimit ∧
        ∀ fields' settings', ofValue (.table fields') = .ok settings' →
          AgreeByName fields fields' settings settings' := by
  refine ⟨exists_ofValue_iff, fun settings h => ?_⟩
  have hread := ofValue_table_iff.mp h
  exact ⟨hread.isUsable, fun _ => hread.isUsable.exists_withBudget,
    isRead_of_positiveOr hread.timeoutMs, isRead_of_positiveOr hread.workLimit,
    fun fields' settings' h' => hread.agreeByName (ofValue_table_iff.mp h')⟩

/-- A table with something odd in all of its entries. -/
def sloppy : List (String × Value) :=
  [("construct_name", .text "  Into "), ("trait_path", .int 7), ("prelude", .text "use a;, ,use b; "),
    ("timeout_ms", .text " 250 "), ("gas_limit", .bool true)]

theorem readable_sloppy : Readable (Value.lookup "timeout_ms" sloppy) := by
  rintro s ⟨⟩ -
  have hdecimal : ((Text.trim " 250 ").toList.all fun c => (Text.decimalValue? c).isSome) = true := by
    decide
  have hblanks : (" 250 ".toList.all fun c => !decide (Text.IsSeparator c)) = true := by decide
  refine ⟨List.all_eq_true.mp hdecimal, by decide, fun c hc => ?_⟩
  simpa only [Bool.not_eq_true', decide_eq_false_iff_not] using List.all_eq_true.mp hblanks c hc

theorem ofValue_usable_sloppy : ∃ settings, ofValue (.table sloppy) = .ok settings ∧
    IsUsable settings ∧ settings.timeoutMs = 250 ∧ settings.workLimit = 50000000 ∧
      settings.header = "" := by
  obtain ⟨hexists, hall⟩ := ofValue_usable sloppy
  obtain ⟨settings, h⟩ := hexists.mpr ⟨readable_sloppy, nofun⟩
  obtain ⟨husable, -, htime, hwork, hagree⟩ := hall settings h
  exact ⟨settings, h, husable, htime.given 250 (.text (by decide) (by decide)) (by decide),
    hwork.absent nofun, (hagree [] {} rfl).header rfl⟩

/-- A superscript is a digit, but writes no integer. -/
theorem ofValue_refused_superscript :
    ¬∃ settings, ofValue (.table [("timeout_ms", .text "²")]) = .ok settings := by
  rintro ⟨settings, h⟩
  cases h

end ConversionClosure.Settings
