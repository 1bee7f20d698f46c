/-
Lists of parameters.

Behind the name of a type or the keyword of an implementation stands a list of parameters between
angle brackets.  A parameter is a lifetime, a name, or `const` and a name, and behind it there may
be bounds, a type and a default, with brackets of all kinds in them.

`params` walks over the tokens and counts angle brackets only.  So it takes a comma for the end of a
parameter wherever no further angle bracket is open, and that is also the case inside of the other
brackets: what stands behind the comma in `F: Fn(A, B)` is read as a parameter.  Where no name and
no lifetime stands there, nothing is read that was not declared (`Scanner.item_parameterList`).
-/
import ConversionClosure.Proofs.Parameters
import ConversionClosure.Proofs.Recovery

namespace ConversionClosure

open Token

variable {calm : Bool} {ts us rest run : List Token} {t : Token} {l : Nat} {names : List String}

/-! ### What stands behind the name of a parameter -/

/-- The kind of bracket that a token of a parameter stands in: none, brackets other than angle
brackets, or also an angle bracket. -/
inductive Enclosure
  | outside
  | bracket
  | angle
deriving DecidableEq

namespace Enclosure

/-- The place inside of a bracket other than an angle bracket. -/
def within : Enclosure → Enclosure
  | angle => angle
  | _ => bracket

theorem within_of_ne_angle {place : Enclosure} (h : place ≠ angle) : place.within = bracket := by
  cases place with
  | outside | bracket => rfl
  | angle => exact absurd rfl h

end Enclosure

/-- The token is no angle bracket and no comma. -/
def Token.IsUnmarked (t : Token) : Prop := ∀ text ∈ ["<", ">", ","], t.isPunct text = false

instance (t : Token) : Decidable t.IsUnmarked :=
  inferInstanceAs (Decidable (∀ text ∈ ["<", ">", ","], t.isPunct text = false))

theorem Token.isUnmarked_of_opens? {o : Token} {k : Bracket} (ho : o.opens? = some k) :
    o.IsUnmarked := by
  obtain ⟨l, rfl⟩ := eq_mark_of_opens? ho
  cases k <;> simp [IsUnmarked, Bracket.opener]

theorem Token.isUnmarked_of_closes? {c : Token} {k : Bracket} (hc : c.closes? = some k) :
    c.IsUnmarked := by
  obtain ⟨l, rfl⟩ := eq_mark_of_closes? hc
  cases k <;> simp [IsUnmarked, Bracket.closer]

/-- The token is a name or a lifetime, as the name of a parameter is. -/
def Token.IsParameterName (t : Token) : Prop := t.kind = .ident ∨ t.kind = .lifetime

instance (t : Token) : Decidable t.IsParameterName :=
  inferInstanceAs (Decidable (t.kind = .ident ∨ t.kind = .lifetime))

theorem Token.not_isParameterName_mark {text : String} : ¬ (mark l text).IsParameterName := by
  simp [IsParameterName]

/-- The brackets of the run match, angle brackets among them, and no comma stands outside of them.
A calm run has no name and no lifetime behind a comma that stands outside of angle brackets. -/
inductive Nested (calm : Bool) : Enclosure → List Token → Prop
  | nil {place : Enclosure} : Nested calm place []
  | inner {place : Enclosure} {t : Token} {ts : List Token} (ht : t.IsInner)
      (hmark : t.IsUnmarked) (h : Nested calm place ts) :
      Nested calm place (t :: ts)
  | comma {place : Enclosure} {l : Nat} {ts : List Token} (hplace : place ≠ .outside)
      (hcalm : calm = true → place = .bracket → ∀ t ∈ ts.head?, ¬ t.IsParameterName)
      (h : Nested calm place ts) : Nested calm place (mark l "," :: ts)
  | group {place : Enclosure} {o c : Token} {k : Bracket} {inner ts : List Token}
      (ho : o.opens? = some k) (hc : c.closes? = some k) (hinner : Nested calm place.within inner)
      (h : Nested calm place ts) : Nested calm place (o :: inner ++ c :: ts)
  | angles {place : Enclosure} {l l' : Nat} {inner ts : List Token}
      (hinner : Nested calm .angle inner) (h : Nested calm place ts) :
      Nested calm place (mark l "<" :: (inner ++ mark l' ">" :: ts))

/-- A parameter and its name. -/
inductive Parameter (calm : Bool) : List Token → String → Prop
  | plain {t : Token} {ts : List Token} (ht : t.IsParameterName)
      (hconst : t.isIdent "const" = false) (h : Nested calm .outside ts) :
      Parameter calm (t :: ts) t.text
  | const {l : Nat} {t : Token} {ts : List Token} (ht : t.kind = .ident)
      (h : Nested calm .outside ts) : Parameter calm (name l "const" :: t :: ts) t.text

/-- Parameters with commas between them, and their names. -/
inductive ParametersBetween (calm : Bool) : List Token → List String → Prop
  | one {ts : List Token} {name : String} (h : Parameter calm ts name) :
      ParametersBetween calm ts [name]
  | more {l : Nat} {ts us : List Token} {name : String} {names : List String}
      (h : Parameter calm ts name) (hmore : ParametersBetween calm us names) :
      ParametersBetween calm (ts ++ mark l "," :: us) (name :: names)

/-- A list of parameters with its angle brackets, and the names.  It may be empty, and it may have a
comma at its end. -/
inductive ParameterList (calm : Bool) : List Token → List String → Prop
  | none {l l' : Nat} : ParameterList calm [mark l "<", mark l' ">"] []
  | some {l l' : Nat} {ts : List Token} {names : List String}
      (h : ParametersBetween calm ts names) :
      ParameterList calm (mark l "<" :: (ts ++ [mark l' ">"])) names
  | comma {l l' l'' : Nat} {ts : List Token} {names : List String}
      (h : ParametersBetween calm ts names) :
      ParameterList calm (mark l "<" :: (ts ++ [mark l'' ",", mark l' ">"])) names

namespace Nested

variable {place : Enclosure}

/-- The other brackets of the run match as well. -/
theorem angled (h : Nested calm place ts) : Angled ts := by
  induction h with
  | nil => exact .nil
  | inner ht hmark _ ih => exact .inner ht (hmark "<" (by simp)) (hmark ">" (by simp)) ih
  | comma _ _ _ ih => exact .inner (isInner_mark rfl rfl) rfl rfl ih
  | group ho hc _ _ ihinner ih => exact .group ho hc ihinner.balanced ih
  | angles _ _ ihinner ih => exact .angles ihinner ih

end Nested

theorem Parameter.angled {name : String} (h : Parameter calm ts name) : Angled ts := by
  have hhead : ∀ {t : Token} {us : List Token}, t.kind ≠ .punct → Angled us → Angled (t :: us) :=
    fun hkind hus =>
      .inner (isInner_of_kind_ne hkind) (isPunct_of_kind hkind _) (isPunct_of_kind hkind _) hus
  cases h with
  | plain ht _ h => exact hhead (kind_ne_punct ht) h.angled
  | const ht h => exact hhead (by simp) (hhead (by simp [ht]) h.angled)

/-- A comma between two runs leaves their brackets alone. -/
theorem Angled.comma (h : Angled ts) (hus : Angled us) : Angled (ts ++ mark l "," :: us) :=
  h.append (.inner (isInner_mark rfl rfl) rfl rfl hus)

theorem ParametersBetween.angled (h : ParametersBetween calm ts names) : Angled ts := by
  induction h with
  | one h => exact h.angled
  | more h _ ih => exact h.angled.comma ih

/-! ### What is read of a list -/

namespace Scanner

variable {place : Enclosure} {depth : Int} {expecting : Bool}

theorem paramNames_open : paramNames depth expecting (mark l "<" :: ts) =
    paramNames (depth + 1) (depth == 0) ts := by
  rw [paramNames]
  · simp
  · simp

theorem paramNames_close : paramNames depth expecting (mark l ">" :: ts) =
    paramNames (depth - 1) expecting ts := by
  rw [paramNames]
  · simp
  · simp

/-- Where no parameter begins, a token that is no angle bracket and no comma is passed over. -/
theorem paramNames_pass (hmark : t.IsUnmarked) :
    paramNames depth false (t :: ts) = paramNames depth false ts := by
  have hmarks : t.isPunct "<" = false ∧ t.isPunct ">" = false ∧ t.isPunct "," = false := by
    simpa [Token.IsUnmarked] using hmark
  rw [paramNames.eq_def]
  simp [hmarks]

/-- Where a parameter begins, such a token is passed over if it is no name and no lifetime. -/
theorem paramNames_unnamed (hmark : t.IsUnmarked)
    (hname : expecting = true → ¬ t.IsParameterName) :
    paramNames 1 expecting (t :: ts) = paramNames 1 false ts := by
  cases expecting with
  | false => exact paramNames_pass hmark
  | true =>
      have hmarks : t.isPunct "<" = false ∧ t.isPunct ">" = false ∧ t.isPunct "," = false := by
        simpa [Token.IsUnmarked] using hmark
      have hkinds : t.kind ≠ .ident ∧ t.kind ≠ .lifetime := by
        simpa [Token.IsParameterName] using hname rfl
      have hconst : t.isIdent "const" = false := Bool.eq_false_iff.mpr fun h =>
        hkinds.1 (kind_of_isIdent h)
      rw [paramNames]
      · simp [hmarks, hkinds]
      · simp [hconst]

/-- Brackets other than angle brackets are passed over. -/
theorem paramNames_bracket {k : Bracket} (h : t.opens? = some k ∨ t.closes? = some k) :
    paramNames 1 expecting (t :: ts) = paramNames 1 false ts := by
  rcases h with ho | hc
  · obtain ⟨l, rfl⟩ := eq_mark_of_opens? ho
    exact paramNames_unnamed (isUnmarked_of_opens? ho) fun _ => not_isParameterName_mark
  · obtain ⟨l, rfl⟩ := eq_mark_of_closes? hc
    exact paramNames_unnamed (isUnmarked_of_closes? hc) fun _ => not_isParameterName_mark

theorem paramNames_const :
    paramNames 1 true (name l "const" :: t :: ts) = t.text :: paramNames 1 false ts := by
  rw [paramNames]
  · simp
  · simp

/-- Inside of a further angle bracket nothing is read. -/
theorem paramNames_nested (h : Nested calm place ts) (hdepth : 1 < depth) (rest : List Token) :
    paramNames depth false (ts ++ rest) = paramNames depth false rest := by
  induction h generalizing depth rest with
  | nil => rfl
  | inner _ hmark _ ih => rw [List.cons_append, paramNames_pass hmark, ih hdepth]
  | comma _ _ _ ih =>
      rw [List.cons_append, paramNames.eq_def]
      have hne : ¬ depth = 1 := by omega
      simpa [hne] using ih hdepth rest
  | group ho hc _ _ ihinner ih =>
      rw [List.append_assoc, List.cons_append, paramNames_pass (isUnmarked_of_opens? ho),
        ihinner hdepth, List.cons_append, paramNames_pass (isUnmarked_of_closes? hc), ih hdepth]
  | angles _ _ ihinner ih =>
      have hzero : (depth == 0) = false := beq_eq_false_iff_ne.mpr (by omega)
      rw [List.cons_append, paramNames_open, hzero, List.append_assoc, ihinner (by omega),
        List.cons_append, paramNames_close, Int.add_sub_cancel, ih hdepth]

/-- Nothing is read of a calm run, whether or not a parameter is expected in front of it, as long as
no name stands there.  In brackets it may leave off where one is expected. -/
theorem paramNames_calm (h : Nested true place ts) (hplace : place ≠ .angle) (expecting : Bool)
    (hexpecting : expecting = true → place = .bracket ∧ ∀ t ∈ ts.head?, ¬ t.IsParameterName) :
    ∃ after, (after = true → place = .bracket) ∧
      ∀ rest, paramNames 1 expecting (ts ++ rest) = paramNames 1 after rest := by
  induction h generalizing expecting with
  | nil => exact ⟨expecting, fun h => (hexpecting h).1, fun rest => rfl⟩
  | inner _ hmark _ ih =>
      obtain ⟨after, hafter, hall⟩ := ih hplace false (by simp)
      have hname := fun h => (hexpecting h).2 _ rfl
      exact ⟨after, hafter, fun rest => by
        rw [List.cons_append, paramNames_unnamed hmark hname, hall]⟩
  | @comma place l ts houtside hcalm _ ih =>
      have hbracket : place = .bracket := by
        cases place with
        | outside => exact absurd rfl houtside
        | bracket => rfl
        | angle => exact absurd rfl hplace
      obtain ⟨after, hafter, hall⟩ := ih hplace true fun _ => ⟨hbracket, hcalm rfl hbracket⟩
      exact ⟨after, hafter, fun rest => by rw [List.cons_append, paramNames_comma, hall]⟩
  | group ho hc _ _ ihinner ih =>
      have hwithin := Enclosure.within_of_ne_angle hplace
      obtain ⟨_, -, hinner⟩ := ihinner (by simp [hwithin]) false (by simp)
      obtain ⟨after, hafter, hall⟩ := ih hplace false (by simp)
      refine ⟨after, hafter, fun rest => ?_⟩
      rw [List.append_assoc, List.cons_append, paramNames_bracket (.inl ho), hinner,
        List.cons_append, paramNames_bracket (.inr hc), hall]
  | angles hinner _ _ ih =>
      obtain ⟨after, hafter, hall⟩ := ih hplace false (by simp)
      refine ⟨after, hafter, fun rest => ?_⟩
      rw [List.cons_append, paramNames_open, List.append_assoc]
      exact (paramNames_nested hinner (by decide) _).trans (hall rest)

/-- A parameter is read where it begins, and nothing behind its name. -/
theorem paramNames_parameter {name : String} (h : Parameter true ts name) (rest : List Token) :
    paramNames 1 true (ts ++ rest) = name :: paramNames 1 false rest := by
  have hbehind : ∀ {us : List Token}, Nested true .outside us →
      paramNames 1 false (us ++ rest) = paramNames 1 false rest := by
    intro us hus
    obtain ⟨after, hafter, hall⟩ := paramNames_calm hus (by simp) false (by simp)
    cases after with
    | false => exact hall rest
    | true => exact absurd (hafter rfl) (by simp)
  cases h with
  | plain ht hconst hus => rw [List.cons_append, paramNames_name ht hconst, hbehind hus]
  | const _ hus => rw [List.cons_append, List.cons_append, paramNames_const, hbehind hus]

theorem paramNames_parametersBetween (h : ParametersBetween true ts names) (rest : List Token) :
    paramNames 1 true (ts ++ rest) = names ++ paramNames 1 false rest := by
  induction h generalizing rest with
  | one h => exact paramNames_parameter h rest
  | more h _ ih =>
      rw [List.append_assoc, paramNames_parameter h, List.cons_append, paramNames_comma, ih,
        List.cons_append]

/-- The names of the parameters of a calm list are read in their order. -/
theorem params_parameterList (h : ParameterList true run names) : params run = names := by
  cases h with
  | none => rfl
  | some h =>
      rw [params, paramNames_open]
      exact (paramNames_parametersBetween h _).trans (by simp [paramNames_close, paramNames])
  | comma h =>
      rw [params, paramNames_open]
      exact (paramNames_parametersBetween h _).trans
        (by simp [paramNames_comma, paramNames_close, paramNames])

end Scanner

/-! ### Items with a list of parameters -/

namespace Scanner

open TokenReader

/-- A list of parameters starts with an angle bracket and is taken whole. -/
theorem angles_parameterList (h : ParameterList calm run names) (rest : List Token) :
    (run ++ rest)[0]?.any (·.isPunct "<") = true ∧ angles (run ++ rest) = .ok run rest := by
  cases h with
  | none => exact ⟨rfl, angles_append .nil⟩
  | some h =>
      rw [List.cons_append, List.append_assoc]
      exact ⟨rfl, angles_append h.angled⟩
  | @comma l l' l'' ts _ h =>
      have hcomma : Angled (ts ++ [mark l'' ","]) := h.angled.comma .nil
      have htaken := @angles_append _ rest l l' hcomma
      simp only [List.append_assoc, List.cons_append, List.nil_append] at htaken ⊢
      exact ⟨rfl, htaken⟩

/-- A declared type has as many parameters as are read, whatever follows the list. -/
theorem item_type {keyword text : String} (h : ParameterList calm run names) (line line' : Nat)
    (hkeyword : keyword = "struct" ∨ keyword = "enum") (rest : List Token) :
    item (name line keyword :: name line' text :: (run ++ rest)) =
      .ok (some (.type ⟨text, keyword, (params run).length⟩)) (Run.afterItem 0 false rest) := by
  obtain ⟨hless, htaken⟩ := angles_parameterList h rest
  have htype : typeItem keyword line (name line' text :: (run ++ rest)) =
      .ok (.type ⟨text, keyword, (params run).length⟩) (Run.afterItem 0 false rest) := by
    rw [typeItem]
    simp [hless, htaken]
  rw [item]
  rcases hkeyword with rfl | rfl
  · simp [htype]
  · simp [htype]

/-- The header of an implementation tells the parameters that are read. -/
theorem names_of_implHeader {declared : List String} {trait target : Reference}
    {rest' : List Token} (h : ParameterList calm run names)
    (hheader : implHeader (run ++ rest) = .ok (some (declared, trait, target)) rest') :
    declared = params run := by
  obtain ⟨hless, htaken⟩ := angles_parameterList h rest
  rw [implHeader] at hheader
  simp only [bind_apply, atPunct_apply, hless, branch_apply, if_true, htaken, pure_apply,
    atIdent_apply] at hheader
  -- only the last of the ways through the header tells anything
  repeat' split at hheader
  all_goals cases hheader
  all_goals rfl

/-- A conversion that an implementation declares has the parameters that are read. -/
theorem params_of_item {line : Nat} {d : ConversionDecl} {rest' : List Token}
    (h : ParameterList calm run names)
    (hitem : item (name line "impl" :: (run ++ rest)) = .ok (some (.conversion d)) rest') :
    d.params = params run := by
  have himpl : implItem line (run ++ rest) = .ok (some (.conversion d)) rest' := by
    rw [item] at hitem
    simpa using hitem
  unfold implItem at himpl
  cases hheader : implHeader (run ++ rest) with
  | error fault us =>
      rw [hheader] at himpl
      cases fault <;> cases himpl
  | ok told us =>
      rw [hheader] at himpl
      rcases told with _ | ⟨declared, trait, target⟩
      · cases himpl
      · simp only [EStateM.Result.ok.injEq, Option.map_eq_some_iff] at himpl
        obtain ⟨⟨d', hd', hsame⟩, -⟩ := himpl
        cases hsame
        obtain rfl := names_of_implHeader h hheader
        unfold conversion? at hd'
        split at hd'
        · obtain ⟨source, -, rfl⟩ := Option.map_eq_some_iff.mp hd'
          rfl
        · cases hd'

/-- **Lists of parameters are read exactly.**  In a calm list the names are those of its parameters,
in their order.  So a declared type has as many parameters as were written, and a conversion that is
found has just those that were declared, whatever follows the list. -/
theorem item_parameterList (h : ParameterList true run names) :
    params run = names ∧
    (∀ keyword text line line' rest, keyword = "struct" ∨ keyword = "enum" →
      item (name line keyword :: name line' text :: (run ++ rest)) =
        .ok (some (.type ⟨text, keyword, names.length⟩)) (Run.afterItem 0 false rest)) ∧
    ∀ line rest d rest', item (name line "impl" :: (run ++ rest)) =
      .ok (some (.conversion d)) rest' → d.params = names := by
  have hparams := params_parameterList h
  refine ⟨hparams, fun keyword text line line' rest hkeyword => ?_,
    fun line rest d rest' hitem => ?_⟩
  · rw [← hparams]
    exact item_type h line line' hkeyword rest
  · rw [← hparams]
    exact params_of_item h hitem

/-- `<F: Fn(&A, &B), T: Into<Map<K, V>>, const N: usize,>` -/
def calmRun : List Token :=
  [mark 1 "<",
    name 1 "F", mark 1 ":", name 1 "Fn",
      mark 1 "(", mark 1 "&", name 1 "A", mark 1 ",", mark 1 "&", name 1 "B", mark 1 ")",
      mark 1 ",",
    name 1 "T", mark 1 ":", name 1 "Into", mark 1 "<", name 1 "Map",
      mark 1 "<", name 1 "K", mark 1 ",", name 1 "V", mark 1 ">", mark 1 ">", mark 1 ",",
    name 1 "const", name 1 "N", mark 1 ":", name 1 "usize", mark 1 ",",
    mark 1 ">"]

theorem parameterList_calmRun : ParameterList true calmRun ["F", "T", "N"] := by
  have hname : ∀ (place : Enclosure) (text : String), Nested true place [name 1 text] :=
    fun place text => .inner isInner_name (by simp [IsUnmarked]) .nil
  have hbehind : ∀ {place : Enclosure} {text : String} {ts : List Token},
      Nested true place ts → Nested true place (name 1 text :: ts) :=
    fun h => .inner isInner_name (by simp [IsUnmarked]) h
  have hcolon : ∀ {ts : List Token}, Nested true .outside ts →
      Nested true .outside (mark 1 ":" :: ts) := fun h => .inner ⟨rfl, rfl⟩ (by decide) h
  have hshared : ∀ {text : String} {ts : List Token}, Nested true .bracket ts →
      Nested true .bracket (mark 1 "&" :: name 1 text :: ts) :=
    fun h => .inner ⟨rfl, rfl⟩ (by decide) (hbehind h)
  have hcall : Nested true .bracket
      [mark 1 "&", name 1 "A", mark 1 ",", mark 1 "&", name 1 "B"] :=
    hshared (.comma (by decide) (by decide) (hshared .nil))
  have hmap : Nested true .angle [name 1 "K", mark 1 ",", name 1 "V"] :=
    hbehind (.comma (by decide) (by decide) (hname _ _))
  have hfirst : Parameter true
      (name 1 "F" :: mark 1 ":" :: name 1 "Fn" :: mark 1 "(" :: _ ++ [mark 1 ")"]) "F" :=
    .plain (.inl rfl) (by decide)
      (hcolon (hbehind (@Nested.group true .outside _ _ .round _ _ rfl rfl hcall .nil)))
  have hsecond : Parameter true (name 1 "T" :: mark 1 ":" :: name 1 "Into" :: mark 1 "<" ::
      (name 1 "Map" :: mark 1 "<" :: (_ ++ [mark 1 ">"]) ++ [mark 1 ">"])) "T" :=
    .plain (.inl rfl) (by decide) (hcolon (hbehind (.angles (hbehind (.angles hmap .nil)) .nil)))
  have hthird : Parameter true
      [name 1 "const", name 1 "N", mark 1 ":", name 1 "usize"] "N" :=
    .const rfl (hcolon (hname _ _))
  exact .comma (.more hfirst (.more hsecond (.one hthird)))

/-- The three parameters of `calmRun`, of a declared type and of an implementation. -/
theorem item_parameterList_calm :
    params calmRun = ["F", "T", "N"] ∧
    item (name 1 "struct" :: name 1 "S" :: (calmRun ++ [mark 1 ";"])) =
      .ok (some (.type ⟨"S", "struct", 3⟩)) [] ∧
    ∃ d, item (name 1 "impl" :: (calmRun ++ [name 1 "From", mark 1 "<", name 1 "A", mark 1 ">",
        name 1 "for", name 1 "B", mark 1 "\x7b", mark 1 "\x7d"])) =
      .ok (some (.conversion d)) [] ∧ d.params = ["F", "T", "N"] := by
  obtain ⟨hparams, htype, himpl⟩ := item_parameterList parameterList_calmRun
  refine ⟨hparams, htype "struct" "S" 1 1 [mark 1 ";"] (.inl rfl), ?_⟩
  let trait : Reference := { segments := ["From"], args := [.ofSegments ["A"]] }
  have hitem : item (name 1 "impl" :: (calmRun ++ [name 1 "From", mark 1 "<", name 1 "A",
      mark 1 ">", name 1 "for", name 1 "B", mark 1 "\x7b", mark 1 "\x7d"])) =
      .ok (some (.conversion
        ⟨trait, .ofSegments ["A"], .ofSegments ["B"], ["F", "T", "N"]⟩)) [] := rfl
  exact ⟨_, hitem, himpl 1 _ _ [] hitem⟩

/-- `<F: Fn(A, B)>` is a list with one parameter, and two are read: `B` stands behind a comma that
no further angle bracket encloses. -/
theorem params_parameterList_call :
    let run := [mark 1 "<", name 1 "F", mark 1 ":", name 1 "Fn", mark 1 "(", name 1 "A", mark 1 ",",
      name 1 "B", mark 1 ")", mark 1 ">"]
    ParameterList false run ["F"] ∧ params run = ["F", "B"] ∧
      tokenize "struct S<F: Fn(A, B)>;" =
        .ok (name 1 "struct" :: name 1 "S" :: (run ++ [mark 1 ";"])) ∧
      scan (name 1 "struct" :: name 1 "S" :: (run ++ [mark 1 ";"])) =
        .ok [.type ⟨"S", "struct", 2⟩] := by
  intro run
  have hcall : Nested false .bracket [name 1 "A", mark 1 ",", name 1 "B"] :=
    .inner isInner_name (by decide)
      (.comma (by decide) (by decide) (.inner isInner_name (by decide) .nil))
  have hbound : Nested false .outside
      (mark 1 ":" :: name 1 "Fn" :: mark 1 "(" :: _ ++ [mark 1 ")"]) :=
    .inner ⟨rfl, rfl⟩ (by decide) (.inner isInner_name (by decide)
      (@Nested.group false .outside _ _ .round _ _ rfl rfl hcall .nil))
  exact ⟨.some (.one (.plain (.inl rfl) (by decide) hbound)), rfl, by decide +kernel, by decide⟩

end Scanner

end ConversionClosure
