/-
Texts of types that are read back.

`Rereads left run r` says that the text of `r`, which was read of the tokens `run`, is lexed as
tokens of which `r` is read again.  What goes on behind the text must not be taken into its last
token.  The text ends as the run does, unless the run ends with the parenthesis around a type, which
is not written.

There is one lemma for each form, and it puts together how the text of the form is lexed and how its
tokens are read.
-/
import ConversionClosure.Proofs.Rereading

namespace ConversionClosure

open Text Token

variable {left : Nat} {ts us vs run front inner : List Token} {t u o c : Token} {k : Bracket}
  {rest : List Char}

/-! ### Runs that are written -/

namespace Token

/-- The tokens of the run stay what they are when the run is written. -/
structure Written (ts : List Token) : Prop where
  stays : ∀ t ∈ ts, t.Stays
  meets : ts.IsChain Meets

theorem Written.of_stretch (h : Written ts) (hus : us <:+: ts) : Written us := by
  refine ⟨fun t ht => h.stays t (hus.subset ht), ?_⟩
  obtain ⟨before, after, rfl⟩ := hus
  exact h.meets.left_of_append.right_of_append

theorem Written.exists_lexesTo (h : Written ts)
    (hlast : ∀ t ∈ ts.getLast?, ∀ d ∈ rest.head?, t.runsInto d = false) (line : Nat) :
    ∃ us line', Alike ts us ∧ LexesTo line (join ts).toList us line' rest :=
  exists_lexesTo_join h.stays h.meets hlast line

/-- A closing bracket is a mark of its own. -/
theorem runsInto_of_closes? (h : c.closes? = some k) (d : Char) : c.runsInto d = false := by
  obtain ⟨l, rfl⟩ := eq_mark_of_closes? h
  cases k with
  | round | square | curly =>
    simp [runsInto, Piece.runsInto, Piece.continuations, Bracket.closer]

theorem exists_join_cons (t : Token) (ts : List Token) :
    ∃ more, (join (t :: ts)).toList = t.text.toList ++ more := by
  cases ts with
  | nil => exact ⟨[], by simp [join]⟩
  | cons u ts =>
      refine ⟨(if needsBlank t u then " " else "").toList ++ (join (u :: ts)).toList, ?_⟩
      rw [join, String.toList_append, String.toList_append, List.append_assoc]

/-- A group is written whatever goes on behind it. -/
theorem Written.exists_lexesTo_group (h : Written (o :: (inner ++ [c])))
    (hc : c.closes? = some k) (line : Nat) (rest : List Char) :
    ∃ l l' inner' line', Alike inner inner' ∧
      join (o :: (inner ++ [c])) =
        join ({ o with line := l } :: (inner' ++ [{ c with line := l' }])) ∧
      LexesTo line (join (o :: (inner ++ [c]))).toList
        ({ o with line := l } :: (inner' ++ [{ c with line := l' }])) line' rest := by
  have hlast : ∀ t ∈ (o :: (inner ++ [c])).getLast?, ∀ d ∈ rest.head?, t.runsInto d = false := by
    intro t ht d _
    rw [← List.cons_append, List.getLast?_concat] at ht
    obtain rfl : c = t := Option.some.inj ht
    exact runsInto_of_closes? hc d
  obtain ⟨us, line', halike, hlexes⟩ := h.exists_lexesTo hlast line
  have hjoin := halike.join_eq
  obtain ⟨l, vs, rfl, hvs⟩ := halike.exists_cons
  obtain ⟨inner', ws, rfl, hinner, hws⟩ := Alike.exists_append hvs
  obtain ⟨l', xs, rfl, hxs⟩ := Alike.exists_cons hws
  obtain rfl := Alike.eq_nil hxs
  exact ⟨l, l', inner', line', hinner, hjoin.symm, hlexes⟩

theorem Stays.lexesTo_name (h : t.Stays) (hkind : t.kind = .ident) (hrest : Separates rest)
    (line : Nat) : ∃ line', LexesTo line t.text.toList [name line t.text] line' rest := by
  obtain ⟨kind, text, l⟩ := t
  obtain rfl : kind = .ident := hkind
  exact h.exists_lexesTo (fun d hd => by simp [runsInto, Piece.runsInto, hrest d hd]) line

end Token

namespace Reference

open TokenReader

variable {r a result : Reference} {args es : List Reference} {trailing : Bool}

/-- What goes on behind the text of a run is not taken into its last token: it ends every token, or
it is an angle bracket and the last token is no half of a mark that ends with one. -/
def Clear (run : List Token) (rest : List Char) : Prop :=
  ∀ d ∈ rest.head?, d ∈ [',', ';', ')', ']'] ∨
    d = '>' ∧ ∀ t ∈ run.getLast?, t.runsInto '>' = false

theorem clear_nil : Clear run [] := by simp [Clear]

theorem clear_closer {d : Char} (h : d ∈ [',', ';', ')', ']']) : Clear run (d :: rest) := by
  rintro _ ⟨⟩
  exact .inl h

namespace Clear

theorem of_append (h : Clear (front ++ run) rest) : Clear run rest := by
  intro d hd
  refine (h d hd).imp_right fun ⟨heq, hlast⟩ => ⟨heq, fun t ht => hlast t ?_⟩
  rw [List.getLast?_append, ht]
  rfl

theorem separates (h : Clear run rest) : Separates rest := by
  intro d hd
  rcases h d hd with hmem | ⟨rfl, -⟩
  · simp only [List.mem_cons, List.not_mem_nil, or_false] at hmem
    rcases hmem with rfl | rfl | rfl | rfl <;> decide
  · decide

theorem runsInto_eq_false (h : Clear run rest) :
    ∀ t ∈ run.getLast?, ∀ d ∈ rest.head?, t.runsInto d = false := by
  intro t ht d hd
  rcases h d hd with hmem | ⟨rfl, hlast⟩
  · exact runsInto_closer t (List.mem_cons_of_mem _ hmem)
  · exact hlast t ht

end Clear

/-- The text of the reference, which was read of `run`, is lexed as tokens of which the reference is
read again.  The run leaves `left` angle brackets open. -/
structure Rereads (left : Nat) (run : List Token) (r : Reference) : Prop where
  spans : Spans left run
  text : ∀ line rest, Clear run rest → ∃ us line',
    LexesTo line r.render.toList us line' rest ∧ Restores (left != 0) run us r

/-! ### Elements of a tuple -/

/-- References that were read of tokens with commas between them; the flag tells whether a comma is
the last token, or there is no reference at all. -/
inductive Elements : List Token → List Reference → Bool → Prop
  | nil : Elements [] [] true
  | last {left : Nat} {run : List Token} {r : Reference} (h : Rereads left run r) :
      Elements run [r] false
  | cons {l : Nat} {run ts : List Token} {r : Reference} {es : List Reference} {trailing : Bool}
      (h : Rereads 0 run r) (hmore : Elements ts es trailing) :
      Elements (run ++ mark l "," :: ts) (r :: es) trailing

namespace Elements

/-- The texts with commas between them are read back; a comma at the end is not written. -/
theorem exists_lexesTo (h : Elements ts es trailing) (line : Nat) (rest : List Char) :
    ∃ us line', LexesTo line (commaSeparated (es.map render)).toList us line' (')' :: rest) ∧
      Balanced us ∧ ∀ fuel, 3 * (us.length + 1) ≤ fuel →
        readElements fuel us = .ok (es, es.isEmpty) [] := by
  have hlast : ∀ {left run r}, Rereads left run r → ∀ line, ∃ us line',
      LexesTo line (commaSeparated ([r].map render)).toList us line' (')' :: rest) ∧
        Balanced us ∧ ∀ fuel, 3 * (us.length + 1) ≤ fuel →
          readElements fuel us = .ok ([r], false) [] := by
    intro left run r hr line
    obtain ⟨us, line', hlexes, hrestores⟩ := hr.text line (')' :: rest) (clear_closer (by simp))
    refine ⟨us, line', by simpa [commaSeparated] using hlexes, hrestores.balanced, ?_⟩
    intro fuel hfuel
    obtain ⟨fuel, rfl⟩ : ∃ n, fuel = n + 1 := ⟨fuel - 1, by omega⟩
    have hread := hrestores.read fuel [] ends_nil (fun _ => rfl) (by omega)
    rw [List.append_nil] at hread
    exact readElements_last hrestores.ne_nil hread
  induction h generalizing line with
  | nil =>
      refine ⟨[], line, Lexes.nil.lexesTo, .nil, fun fuel hfuel => ?_⟩
      obtain ⟨fuel, rfl⟩ : ∃ n, fuel = n + 1 := ⟨fuel - 1, by omega⟩
      exact readElements_nil
  | last hr => exact hlast hr line
  | @cons l run ts r es trailing hr hmore ih =>
      cases es with
      | nil => exact hlast hr line
      | cons b es =>
          obtain ⟨us, mid, hlexes, hrestores⟩ := hr.text line
            (", ".toList ++ ((commaSeparated ((b :: es).map render)).toList ++ ')' :: rest))
            (clear_closer (by decide))
          obtain ⟨vs, line', hlexes', hvs, hread⟩ := ih mid
          have htext : (commaSeparated ((r :: b :: es).map render)).toList = r.render.toList ++
              (", ".toList ++ (commaSeparated ((b :: es).map render)).toList) := by
            simp [commaSeparated, String.intercalate_cons_cons]
          refine ⟨us ++ ([mark mid ","] ++ vs), line', ?_, ?_, ?_⟩
          · rw [htext]
            refine LexesTo.append ?_ (Lexes.comma.lexesTo.append hlexes')
            rwa [List.append_assoc]
          · exact hrestores.balanced.append (.inner (isInner_mark rfl rfl) hvs)
          · intro fuel hfuel
            simp only [List.length_append, List.length_singleton] at hfuel
            obtain ⟨fuel, rfl⟩ : ∃ n, fuel = n + 1 := ⟨fuel - 1, by omega⟩
            have hne : us ++ mark mid "," :: vs ≠ [] := by simp
            exact readElements_cons hne
              (hrestores.read fuel _ (ends_mark (by simp)) (by simp) (by omega))
              (hread fuel (by omega))

end Elements

/-! ### Types -/

namespace Rereads

/-- A type that is kept as its text. -/
theorem kept (ht : Keeps t) (hpasses : Passes 0 (t :: ts) left) (h : Written (t :: ts)) :
    Rereads left (t :: ts) (ofText (join (t :: ts))) where
  spans := hpasses.spans
  text line rest hrest := by
    obtain ⟨us, line', halike, hlexes⟩ := h.exists_lexesTo hrest.runsInto_eq_false line
    exact ⟨us, line', hlexes, .kept ht hpasses halike⟩

/-- A type that is one token. -/
theorem single (ht : t.isPunct "!" = true ∨ t.isIdent "_" = true) (h : t.Stays) :
    Rereads 0 [t] (ofText t.text) where
  spans := by
    rcases ht with hmark | hname
    · obtain ⟨l, rfl⟩ := exists_mark hmark
      exact Spans.nil.cons (isInner_mark rfl rfl) rfl rfl
    · exact Spans.nil.word (isWord_of_isIdent hname)
  text line rest hrest := by
    obtain ⟨line', hlexes⟩ := h.exists_lexesTo (hrest.runsInto_eq_false t rfl) line
    exact ⟨_, line', hlexes, .single ht⟩

theorem ampersand {lifetime : String} (h : Rereads left run r) (exclusive : Bool)
    (hfront : Spans 0 front) (hlifetime : lifetime = "" ∨ isLifetime lifetime = true)
    (hmut : exclusive = false → run.head?.any (·.isIdent "mut") = false) :
    Rereads left (front ++ run)
      { modifier := Reference.ampersand exclusive, args := [r], lifetime } where
  spans := hfront.append h.spans
  text line rest hrest := by
    obtain ⟨us, line', hlexes, hrestores⟩ := h.text line rest hrest.of_append
    exact ⟨_, line', lexesTo_ampersand exclusive hlifetime hlexes, hrestores.ampersand hmut⟩

theorem star {exclusive : Bool} (h : Rereads left run r) (hfront : Spans 0 front) :
    Rereads left (front ++ run) { modifier := Reference.star exclusive, args := [r] } where
  spans := hfront.append h.spans
  text line rest hrest := by
    obtain ⟨us, line', hlexes, hrestores⟩ := h.text line rest hrest.of_append
    exact ⟨_, line', lexesTo_star exclusive hlexes, hrestores.star⟩

theorem slice (h : Rereads left run r) (ho : o.opens? = some k) (hc : c.closes? = some k) :
    Rereads 0 (o :: (run ++ [c])) { modifier := .slice, args := [r] } where
  spans := .group ho hc h.spans.balanced
  text line rest _ := by
    obtain ⟨us, line', hlexes, hrestores⟩ := h.text line ("]".toList ++ rest)
      (clear_closer (by decide))
    exact ⟨_, line', lexesTo_slice hlexes, hrestores.slice⟩

theorem array {l : Nat} (h : Rereads 0 run r) (ho : o.opens? = some k) (hc : c.closes? = some k)
    (hvs : Balanced vs) (hlength : join vs ≠ "") (hwritten : Written vs) :
    Rereads 0 (o :: (run ++ mark l ";" :: vs ++ [c]))
      { modifier := .array, args := [r], length := join vs } where
  spans := .group ho hc (h.spans.balanced.append (.inner (isInner_mark rfl rfl) hvs))
  text line rest _ := by
    obtain ⟨us, mid, hlexes, hrestores⟩ := h.text line
      (";".toList ++ [' '] ++ (join vs).toList ++ ("]".toList ++ rest)) (clear_closer (by decide))
    have hclear : Clear vs ("]".toList ++ rest) := clear_closer (by decide)
    obtain ⟨ws, line', halike, hlexes'⟩ := hwritten.exists_lexesTo hclear.runsInto_eq_false mid
    refine ⟨_, line', lexesTo_array hlexes hlexes', ?_⟩
    have harray : Restores false (o :: (run ++ mark l ";" :: vs ++ [c]))
        (mark line "[" :: (us ++ mark mid ";" :: ws ++ [mark line' "]"]))
        { modifier := .array, args := [r], length := join ws } :=
      hrestores.array (halike.balanced hvs) (halike.join_eq ▸ hlength)
    rwa [halike.join_eq] at harray

theorem tuple (h : Elements ts es trailing) (hone : es.length = 1 → trailing = true)
    (ho : o.opens? = some k) (hc : c.closes? = some k) (hts : Balanced ts) :
    Rereads 0 (o :: (ts ++ [c])) { modifier := .tuple, args := es } where
  spans := .group ho hc hts
  text line rest _ := by
    by_cases hlength : es.length = 1
    · -- the comma behind a single element is written
      obtain ⟨r, rfl⟩ := List.length_eq_one_iff.mp hlength
      obtain ⟨run, hr⟩ : ∃ run, Rereads 0 run r := by
        cases h with
        | last _ => exact absurd (hone rfl) Bool.false_ne_true
        | cons hr _ => exact ⟨_, hr⟩
      obtain ⟨us, line', hlexes, hrestores⟩ := hr.text line (",".toList ++ (")".toList ++ rest))
        (clear_closer (by decide))
      refine ⟨_, line', lexesTo_tuple_one hlexes, .tuple ?_ ?_ (fun _ => rfl)⟩
      · exact hrestores.balanced.append (.singleton (isInner_mark rfl rfl))
      · intro fuel hfuel
        rw [List.length_append, List.length_singleton] at hfuel
        obtain ⟨fuel, rfl⟩ : ∃ n, fuel = n + 2 := ⟨fuel - 2, by omega⟩
        have hread := hrestores.read (fuel + 1) [mark line' ","] (ends_mark (by simp)) (by simp)
          (by omega)
        exact readElements_cons (by simp) hread readElements_nil
    · obtain ⟨us, line', hlexes, hus, hread⟩ := h.exists_lexesTo line rest
      exact ⟨_, line', lexesTo_tuple hlength hlexes, .tuple hus hread fun h => absurd h hlength⟩

/-- A type that stands alone in parentheses. -/
theorem grouped (h : Rereads 0 run r) (ho : o.opens? = some k) (hc : c.closes? = some k)
    (hmut : run.head?.any (·.isIdent "mut") = false)
    (hcolon : ∀ t u, run = [t, u] → t.kind = .ident → u.isPunct ":" = false)
    (hlast : ∀ t ∈ run.getLast?, t.runsInto '>' = false) : Rereads 0 (o :: (run ++ [c])) r where
  spans := .group ho hc h.spans.balanced
  text line rest hrest := by
    have hclear : Clear run rest := fun d hd => (hrest d hd).imp_right fun ⟨heq, _⟩ => ⟨heq, hlast⟩
    obtain ⟨us, line', hlexes, hrestores⟩ := h.text line rest hclear
    exact ⟨us, line', hlexes, hrestores.grouped hmut hcolon⟩

end Rereads

/-! ### Arguments of a path -/

/-- The text of the argument is read back where a comma or the closing angle bracket follows. -/
def IsArgument (a : Reference) : Prop :=
  ∀ line d rest, d = ',' ∨ d = '>' → ∃ us line',
    LexesTo line a.render.toList us line' (d :: rest) ∧ Balanced us ∧
      (∃ t more, us = t :: more ∧ t.isPunct ">" = false) ∧
      ∀ fuel rest, Closes rest → 3 * us.length ≤ fuel → readArgument fuel (us ++ rest) = .ok a rest

theorem runsInto_of_comma {d : Char} (h : ∀ t ∈ run.getLast?, t.runsInto '>' = false)
    (hd : d = ',' ∨ d = '>') : Clear run (d :: rest) := by
  rcases hd with rfl | rfl
  · exact clear_closer (by simp)
  · rintro _ ⟨⟩
    exact .inr ⟨rfl, h⟩

namespace IsArgument

/-- A lifetime or a literal. -/
theorem word (ht : t.kind = .lifetime ∨ t.kind = .literal) (h : t.Stays) :
    IsArgument (ofText t.text) := by
  intro line d rest hd
  have hkind : t.kind ≠ .punct := by rcases ht with hkind | hkind <;> simp [hkind]
  have hfree : ∀ d' ∈ (d :: rest).head?, t.runsInto d' = false := by
    rintro _ ⟨⟩
    rcases hd with rfl | rfl <;> simp [runsInto, Piece.runsInto, hkind] <;> decide
  obtain ⟨line', hlexes⟩ := h.exists_lexesTo hfree line
  refine ⟨_, line', hlexes, .singleton (isInner_of_kind_ne hkind), ⟨_, [], rfl, ?_⟩, ?_⟩
  · exact isPunct_of_kind hkind _
  · intro fuel rest _ _
    exact readArgument_word ht

/-- A group of braces. -/
theorem braces (ho : o.opens? = some .curly) (hc : c.closes? = some .curly)
    (hinner : Balanced inner) (h : Written (o :: (inner ++ [c]))) :
    IsArgument (ofText (join (o :: (inner ++ [c])))) := by
  intro line d rest _
  obtain ⟨l, l', inner', line', halike, hjoin, hlexes⟩ := h.exists_lexesTo_group hc line (d :: rest)
  have hinner' := halike.balanced hinner
  refine ⟨_, line', hlexes, .bracketed ho hc hinner', ⟨_, _, rfl, ?_⟩, ?_⟩
  · obtain ⟨m, rfl⟩ := eq_mark_of_opens? ho
    rfl
  · intro fuel rest _ _
    rw [hjoin, List.cons_append, List.append_assoc]
    exact readArgument_braces ho hc hinner'

/-- A name with what it is bound to, or with a bound. -/
theorem binding (ht : t.kind = .ident) (hu : u.isPunct "=" = true ∨ u.isPunct ":" = true)
    (hpasses : Passes 0 run 0) (hrun : run ≠ []) (h : Written (t :: u :: run))
    (hlast : ∀ v ∈ (t :: u :: run).getLast?, v.runsInto '>' = false) :
    IsArgument (ofText (join (t :: u :: run))) := by
  intro line d rest hd
  have hseparator : u.IsInner := by
    rcases hu with hmark | hmark
    · obtain ⟨m, rfl⟩ := exists_mark hmark
      exact isInner_mark rfl rfl
    · obtain ⟨m, rfl⟩ := exists_mark hmark
      exact isInner_mark rfl rfl
  obtain ⟨us, line', halike, hlexes⟩ :=
    h.exists_lexesTo (runsInto_of_comma hlast hd).runsInto_eq_false line
  have hjoin := halike.join_eq
  obtain ⟨l, vs, rfl, hvs⟩ := halike.exists_cons
  obtain ⟨l', ws, rfl, hws⟩ := Alike.exists_cons hvs
  have hpasses' := hpasses.alike hws
  have hword : Token.kind { t with line := l } ≠ .punct := by simp [ht]
  refine ⟨_, line', hlexes, ?_, ⟨_, _, rfl, isPunct_of_kind hword _⟩, ?_⟩
  · exact .inner (isInner_of_kind_ne hword) (.inner hseparator hpasses'.balanced)
  · intro fuel rest hrest _
    have hne : ws ≠ [] := by
      rintro rfl
      exact hrun (List.forall₂_nil_right_iff.mp hws)
    rw [← hjoin]
    exact readArgument_binding ht hu (untilEnd_append hpasses' hne hrest.ends (by simp))

/-- A type. -/
theorem type (h : Rereads 0 run r)
    (hcolon : ∀ t u, run = [t, u] → t.kind = .ident → u.isPunct ":" = false)
    (hlast : ∀ t ∈ run.getLast?, t.runsInto '>' = false) : IsArgument r := by
  intro line d rest hd
  obtain ⟨us, line', hlexes, hrestores⟩ := h.text line _ (runsInto_of_comma hlast hd)
  obtain ⟨t, more, hus, ht, -⟩ := hrestores.leads
  exact ⟨us, line', hlexes, hrestores.balanced, ⟨t, more, hus, ht.isPunct (by simp)⟩,
    hrestores.argument rfl hcolon⟩

end IsArgument

/-- Arguments with commas between them and the angle bracket behind them. -/
theorem exists_readArguments (hargs : ∀ a ∈ args, IsArgument a) (hne : args ≠ []) (line : Nat)
    (rest : List Char) :
    ∃ us line',
      LexesTo line ((commaSeparated (args.map render)).toList ++ ">".toList) us line' rest ∧
        Balanced us ∧ ∀ fuel rest, 3 * us.length ≤ fuel →
          readArguments fuel (us ++ rest) = .ok args rest := by
  induction args generalizing line with
  | nil => exact absurd rfl hne
  | cons a args ih =>
      have ha : IsArgument a := hargs a (by simp)
      cases args with
      | nil =>
          obtain ⟨us, line', hlexes, hus, ⟨t, more, rfl, ht⟩, hread⟩ := ha line '>' rest (.inr rfl)
          refine ⟨t :: more ++ [mark line' ">"], line', ?_, ?_, ?_⟩
          · have hclose : LexesTo line' ">".toList [mark line' ">"] line' rest :=
              (Lexes.punct (by decide)).lexesTo
            rw [show commaSeparated ([a].map render) = a.render by simp [commaSeparated]]
            exact LexesTo.append hlexes hclose
          · exact hus.append (.singleton (isInner_mark rfl rfl))
          · intro fuel rest hfuel
            simp only [List.length_append, List.length_cons, List.length_nil] at hfuel
            obtain ⟨fuel, rfl⟩ : ∃ n, fuel = n + 2 := ⟨fuel - 2, by omega⟩
            rw [List.append_assoc]
            refine readArguments_last ht (hread (fuel + 1) _ ⟨line', rest, .inr rfl⟩ ?_)
            rw [List.length_cons]
            omega
      | cons b args =>
          obtain ⟨us, mid, hlexes, hus, ⟨t, more, rfl, ht⟩, hread⟩ := ha line ','
            (' ' :: ((commaSeparated ((b :: args).map render)).toList ++ ">".toList ++ rest))
            (.inl rfl)
          obtain ⟨vs, line', hlexes', hvs, hmore⟩ :=
            ih (fun c hc => hargs c (List.mem_cons_of_mem _ hc)) (by simp) mid
          have htext : (commaSeparated ((a :: b :: args).map render)).toList ++ ">".toList =
              a.render.toList ++ (", ".toList ++
                ((commaSeparated ((b :: args).map render)).toList ++ ">".toList)) := by
            simp [commaSeparated, String.intercalate_cons_cons]
          refine ⟨t :: more ++ ([mark mid ","] ++ vs), line', ?_, ?_, ?_⟩
          · rw [htext]
            exact LexesTo.append hlexes (Lexes.comma.lexesTo.append hlexes')
          · exact hus.append (.inner (isInner_mark rfl rfl) hvs)
          · intro fuel rest hfuel
            simp only [List.length_append, List.length_cons, List.length_nil] at hfuel
            obtain ⟨fuel, rfl⟩ : ∃ n, fuel = n + 1 := ⟨fuel - 1, by omega⟩
            rw [List.append_assoc]
            refine readArguments_comma ht (hread fuel _ ⟨mid, vs ++ rest, .inl rfl⟩ ?_)
              (hmore fuel rest (by omega))
            rw [List.length_cons]
            omega

/-! ### Paths -/

variable {done : List String} {segment : String}

/-- The text of a segment and its arguments is read back. -/
structure SegmentRereads (run : List Token) (segment : String) (args : List Reference) : Prop where
  spans : Spans 0 run
  head : ∃ t ∈ run.head?, t.isIdent segment = true
  text : ∀ line rest, Separates rest → ∃ us line',
    LexesTo line (segmentText segment args).toList us line' rest ∧ SegmentRestores us segment args

namespace SegmentRereads

theorem any_head (h : SegmentRereads run segment args) :
    run.head?.any (·.isIdent segment) = true := by
  obtain ⟨t, ht, hident⟩ := h.head
  simp [Option.mem_def.mp ht, hident]

theorem bare (hkind : t.kind = .ident) (h : t.Stays) : SegmentRereads [t] t.text [] where
  spans := Spans.nil.word (by simp [hkind])
  head := ⟨t, rfl, by simp [isIdent, hkind]⟩
  text line rest hrest := by
    obtain ⟨line', hlexes⟩ := h.lexesTo_name hkind hrest line
    exact ⟨_, line', hlexes, ⟨line, [], rfl, .inl ⟨rfl, rfl⟩⟩⟩

theorem listed {l : Nat} {joint : List Token} (hkind : t.kind = .ident) (h : t.Stays)
    (hjoint : Joint joint) (hspans : Spans 0 (mark l "<" :: run))
    (hargs : ∀ a ∈ args, IsArgument a) :
    SegmentRereads (t :: (joint ++ mark l "<" :: run)) t.text args where
  spans := by
    refine Spans.word (by simp [hkind]) ?_
    obtain rfl | ⟨m, rfl⟩ := hjoint
    · exact hspans
    · exact hspans.cons (isInner_mark rfl rfl) rfl rfl
  head := ⟨t, rfl, by simp [isIdent, hkind]⟩
  text line rest hrest := by
    cases args with
    | nil => exact (bare hkind h).text line rest hrest
    | cons a args =>
        have htext : (segmentText t.text (a :: args)).toList = t.text.toList ++ ("<".toList ++
            ((commaSeparated ((a :: args).map render)).toList ++ ">".toList)) := by
          simp [segmentText]
        have hangle : Separates ("<".toList ++
            ((commaSeparated ((a :: args).map render)).toList ++ ">".toList) ++ rest) :=
          separates_cons.mpr (by decide)
        obtain ⟨mid, hname⟩ := h.lexesTo_name hkind hangle line
        have hless : ∀ cs, LexesTo mid "<".toList [mark mid "<"] mid cs := fun _ =>
          (Lexes.punct (by decide)).lexesTo
        obtain ⟨us, line', hlexes, hus, hread⟩ := exists_readArguments hargs (by simp) mid rest
        refine ⟨[name line t.text] ++ ([mark mid "<"] ++ us), line', ?_, ?_⟩
        · rw [htext]
          exact hname.append ((hless _).append hlexes)
        · exact ⟨line, _, rfl, .inr ⟨mid, us, rfl, hus, fun fuel rest => hread fuel rest⟩⟩

end SegmentRereads

/-- The path was read of `run` behind the segments `done`, and what its text adds to these is read
back. -/
structure PathRereads (done : List String) (left : Nat) (run : List Token) (r : Reference) :
    Prop where
  spans : Spans left run
  head : ∃ t ∈ run.head?, t.kind = .ident
  text : ∃ more : String, r.render = joinSegments (done ++ [more]) ∧
    ∀ line rest, Clear run rest → ∃ us line',
      LexesTo line more.toList us line' rest ∧ PathRestores done (left != 0) run us r

theorem joinSegments_append_pair (done : List String) (a b : String) :
    joinSegments (done ++ [a] ++ [b]) = joinSegments (done ++ [a ++ "::" ++ b]) := by
  unfold joinSegments
  induction done with
  | nil => simp [String.intercalate_cons_cons]
  | cons d done ih =>
      cases done with
      | nil => simp [String.intercalate_cons_cons, String.append_assoc]
      | cons e done => simpa [String.intercalate_cons_cons] using ih

theorem joinSegments_append_text (done : List String) (a b : String) :
    joinSegments (done ++ [a]) ++ b = joinSegments (done ++ [a ++ b]) := by
  unfold joinSegments
  induction done with
  | nil => simp
  | cons d done ih =>
      cases done with
      | nil => simp [String.intercalate_cons_cons, String.append_assoc]
      | cons e done => simpa [String.intercalate_cons_cons, String.append_assoc] using ih

namespace PathRereads

theorem last (h : SegmentRereads run segment args) :
    PathRereads done 0 run { segments := done ++ [segment], args } where
  spans := h.spans
  head := h.head.imp fun _ ht => ⟨ht.1, kind_of_isIdent ht.2⟩
  text := by
    refine ⟨segmentText segment args, ?_, fun line rest hrest => ?_⟩
    · cases args with
      | nil => simp [render, segmentText, joinSegments]
      | cons a args =>
          rw [segmentText, if_neg (by simp), String.append_assoc, String.append_assoc,
            ← joinSegments_append_text]
          simp [render, joinSegments, String.append_assoc]
    · obtain ⟨us, line', hlexes, hrestores⟩ := h.text line rest hrest.separates
      exact ⟨us, line', hlexes, .last hrestores h.any_head⟩

/-- A segment with its arguments, and the path behind it. -/
theorem cons {l : Nat} (h : SegmentRereads run segment args)
    (hmore : PathRereads (done ++ [segmentText segment args]) left ts r) :
    PathRereads done left (run ++ mark l "::" :: ts) r where
  spans := h.spans.append (hmore.spans.cons (isInner_mark rfl rfl) rfl rfl)
  head := by
    obtain ⟨t, ht, hident⟩ := h.head
    exact ⟨t, by simp [Option.mem_def.mp ht], kind_of_isIdent hident⟩
  text := by
    obtain ⟨more, hrender, htext⟩ := hmore.text
    refine ⟨segmentText segment args ++ "::" ++ more, ?_, fun line rest hrest => ?_⟩
    · rw [hrender, joinSegments_append_pair]
    · have hcolons : Separates ("::".toList ++ more.toList ++ rest) :=
        separates_cons.mpr (by decide)
      obtain ⟨us, mid, hlexes, hrestores⟩ := h.text line _ hcolons
      have hmark : ∀ cs, LexesTo mid "::".toList [mark mid "::"] mid cs := fun _ =>
        (Lexes.punct (by decide)).lexesTo
      have hclear : Clear ts rest := by
        rw [List.append_cons] at hrest
        exact hrest.of_append
      obtain ⟨vs, line', hlexes', hrestores'⟩ := htext mid rest hclear
      have hhead : (run ++ mark l "::" :: ts).head?.any (·.isIdent segment) = true := by
        obtain ⟨t, ht, hident⟩ := h.head
        simp [Option.mem_def.mp ht, hident]
      refine ⟨us ++ mark mid "::" :: vs, line', ?_, .cons hrestores hhead hrestores'⟩
      rw [String.toList_append, String.toList_append, List.append_assoc]
      exact hlexes.append ((hmark _).append hlexes')

/-- The expansion of a macro. -/
theorem expansion {l : Nat} (hkind : t.kind = .ident) (h : t.Stays) (ho : o.opens? = some k)
    (hc : c.closes? = some k) (hinner : Balanced inner) (hbody : Written (o :: (inner ++ [c]))) :
    PathRereads done 0 (t :: mark l "!" :: o :: (inner ++ [c]))
      (ofText (joinSegments (done ++ [t.text]) ++ "!" ++ join (o :: (inner ++ [c])))) where
  spans := ((Spans.group ho hc hinner).cons (isInner_mark rfl rfl) rfl rfl).word (by simp [hkind])
  head := ⟨t, rfl, hkind⟩
  text := by
    refine ⟨t.text ++ ("!" ++ join (o :: (inner ++ [c]))), ?_, fun line rest _ => ?_⟩
    · rw [← joinSegments_append_text, ← String.append_assoc]
      rfl
    · have hbang : Separates ("!".toList ++ (join (o :: (inner ++ [c]))).toList ++ rest) :=
        separates_cons.mpr (by decide)
      obtain ⟨mid, hname⟩ := h.lexesTo_name hkind hbang line
      have hmark : ∀ cs, LexesTo mid "!".toList [mark mid "!"] mid cs := fun _ =>
        (Lexes.punct (by decide)).lexesTo
      obtain ⟨l, l', inner', line', halike, hjoin, hlexes⟩ :=
        hbody.exists_lexesTo_group hc mid rest
      refine ⟨[name line t.text] ++ ([mark mid "!"] ++
        ({ o with line := l } :: (inner' ++ [{ c with line := l' }]))), line', ?_, ?_⟩
      · rw [String.toList_append, String.toList_append]
        exact hname.append ((hmark _).append hlexes)
      · rw [hjoin]
        exact .expansion ho hc (halike.balanced hinner) (by simp [isIdent, hkind])

/-- A name with parentheses behind it is written as such. -/
theorem exists_lexesTo_call (hkind : t.kind = .ident) (h : t.Stays) (ho : o.isPunct "(" = true)
    (hc : c.closes? = some k) (hbody : Written (o :: (inner ++ [c]))) (line : Nat)
    (rest : List Char) : ∃ l l' inner' line', Alike inner inner' ∧
      join (o :: (inner ++ [c])) =
        join ({ o with line := l } :: (inner' ++ [{ c with line := l' }])) ∧
      LexesTo line (t.text ++ join (o :: (inner ++ [c]))).toList
        (name line t.text :: { o with line := l } :: (inner' ++ [{ c with line := l' }])) line'
        rest := by
  have hparen : Separates ((join (o :: (inner ++ [c]))).toList ++ rest) := by
    obtain ⟨m, rfl⟩ := exists_mark ho
    obtain ⟨more, hmore⟩ := exists_join_cons (mark m "(") (inner ++ [c])
    rw [hmore, List.append_assoc, text_mark]
    exact separates_cons.mpr (by decide)
  obtain ⟨mid, hname⟩ := h.lexesTo_name hkind hparen line
  obtain ⟨l, l', inner', line', halike, hjoin, hlexes⟩ := hbody.exists_lexesTo_group hc mid rest
  refine ⟨l, l', inner', line', halike, hjoin, ?_⟩
  rw [String.toList_append]
  exact hname.append hlexes

/-- Parentheses behind a name. -/
theorem call (hkind : t.kind = .ident) (h : t.Stays) (ho : o.isPunct "(" = true)
    (hc : c.closes? = some .round) (hinner : Balanced inner)
    (hbody : Written (o :: (inner ++ [c]))) :
    PathRereads done 0 (t :: o :: (inner ++ [c]))
      (ofText (joinSegments (done ++ [t.text ++ join (o :: (inner ++ [c]))]))) where
  spans := by
    obtain ⟨l, rfl⟩ := exists_mark ho
    exact (Spans.group rfl hc hinner).word (by simp [hkind])
  head := ⟨t, rfl, hkind⟩
  text := by
    refine ⟨_, rfl, fun line rest _ => ?_⟩
    obtain ⟨l, l', inner', line', halike, hjoin, hlexes⟩ :=
      exists_lexesTo_call hkind h ho hc hbody line rest
    refine ⟨_, line', hlexes, ?_⟩
    rw [hjoin]
    exact .call ho hc (halike.balanced hinner) (by simp [isIdent, hkind])

/-- Parentheses behind a name, and a result behind them. -/
theorem callTo {l : Nat} (hkind : t.kind = .ident) (h : t.Stays) (ho : o.isPunct "(" = true)
    (hc : c.closes? = some .round) (hinner : Balanced inner)
    (hbody : Written (o :: (inner ++ [c]))) (hresult : Rereads left run result) :
    PathRereads done left (t :: o :: (inner ++ [c]) ++ mark l "->" :: run)
      (ofText (joinSegments
        (done ++ [t.text ++ join (o :: (inner ++ [c])) ++ " -> " ++ render result]))) where
  spans := by
    have harrow : Spans left (mark l "->" :: run) :=
      hresult.spans.cons (isInner_mark rfl rfl) rfl rfl
    obtain ⟨m, rfl⟩ := exists_mark ho
    exact ((Spans.group rfl hc hinner).append harrow).word (by simp [hkind])
  head := ⟨t, rfl, hkind⟩
  text := by
    refine ⟨_, rfl, fun line rest hrest => ?_⟩
    obtain ⟨l, l', inner', mid, halike, hjoin, hlexes⟩ := exists_lexesTo_call hkind h ho hc hbody
      line (" -> ".toList ++ (render result).toList ++ rest)
    have harrow : ∀ cs, LexesTo mid " -> ".toList [mark mid "->"] mid cs := fun cs =>
      have hmark : Lexes mid "->".toList [mark mid "->"] (' ' :: cs) := .punct (by decide)
      (Lexes.append Lexes.blank (Lexes.append hmark Lexes.blank)).lexesTo
    have hclear : Clear run rest := by
      rw [List.append_cons] at hrest
      exact hrest.of_append
    obtain ⟨us, line', hlexes', hrestores⟩ := hresult.text mid rest hclear
    refine ⟨name line t.text :: { o with line := l } :: (inner' ++ [{ c with line := l' }]) ++
      mark mid "->" :: us, line', ?_, ?_⟩
    · rw [String.toList_append, String.toList_append, List.append_assoc]
      exact hlexes.append ((harrow _).append hlexes')
    · rw [hjoin]
      exact .callTo ho hc (halike.balanced hinner) (by simp [isIdent, hkind]) hrestores

end PathRereads

/-- A path is a type, with a mark in front of it or without. -/
theorem Rereads.of_path (h : PathRereads [] left run r) (hfront : Joint front)
    (hstart : ∀ t ∈ run.head?, t.text ∉ "_" :: verbatimStarts)
    (hmut : run.head?.any (·.isIdent "mut") = true →
      (front ++ run).head?.any (·.isIdent "mut") = true) : Rereads left (front ++ run) r where
  spans := by
    obtain rfl | ⟨l, rfl⟩ := hfront
    · exact h.spans
    · exact h.spans.cons (isInner_mark rfl rfl) rfl rfl
  text line rest hrest := by
    obtain ⟨more, hrender, htext⟩ := h.text
    obtain ⟨us, line', hlexes, hrestores⟩ := htext line rest hrest.of_append
    refine ⟨us, line', ?_, .of_path hrestores hstart hmut⟩
    rw [hrender]
    simpa [joinSegments] using hlexes

namespace Restores

/-- A text with these tokens is parsed as the reference. -/
theorem parse_eq {greedy : Bool} {text : String} (h : Restores greedy run us r)
    (hlex : Piece.lexFrom 1 text.toList = .ok us) : parse text = .ok r := by
  have hhash : ∀ t ∈ us.head?, t.isPunct "#" = false := by
    obtain ⟨u, more, rfl, hheads, -⟩ := h.leads
    rintro _ ⟨⟩
    exact hheads.isPunct (by simp)
  have hread := h.read (3 * (us.length + 1)) [] ends_nil (fun _ => rfl) (by omega)
  rw [List.append_nil] at hread
  rw [parse, h.balanced.tokenize_eq (lex_of_lexFrom hlex hhash)]
  simp only
  rw [ofTokens, reader, hread]

end Restores

end Reference

end ConversionClosure
