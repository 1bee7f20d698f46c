/-
What the scanner finds in known tokens.

`Finds ts found` says that the scanner finds `found` in the tokens `ts` of some items, whatever
items follow, and then goes on behind them.  Such facts are put together one item after the
other.

An item consists of attributes, of words that stand before its keyword, and of what its keyword
makes of the tokens up to its end.  `Takes` is about that last part, and there is one such fact for
each shape of item.
-/
import ConversionClosure.Proofs.Reading
import ConversionClosure.Proofs.Runs

namespace ConversionClosure

open Token TokenReader Reference

variable {line : Nat} {fuel : Nat} {rest ts us : List Token} {t : Token}

namespace Scanner

/-- The scanner finds `found` in the tokens, whatever follows them, and goes on behind them. -/
def Finds (ts : List Token) (found : List Finding) : Prop :=
  ∀ fuel rest, (ts ++ rest).length < fuel → ∃ fuel', rest.length < fuel' ∧
    items fuel (ts ++ rest) = ((found ++ ·) <$> items fuel') rest

namespace Finds

variable {found more : List Finding}

theorem nil : Finds [] [] := by
  intro fuel rest hfuel
  refine ⟨fuel, hfuel, ?_⟩
  rw [map_apply, List.nil_append]
  cases items fuel rest with
  | ok found us => rfl
  | error fault us => rfl

theorem append (h : Finds ts found) (h' : Finds us more) : Finds (ts ++ us) (found ++ more) := by
  intro fuel rest hfuel
  rw [List.append_assoc] at hfuel ⊢
  obtain ⟨mid, hmid, hitems⟩ := h fuel (us ++ rest) hfuel
  obtain ⟨fuel', hfuel', hitems'⟩ := h' mid rest hmid
  refine ⟨fuel', hfuel', ?_⟩
  rw [hitems, map_apply, hitems', map_apply, map_apply]
  cases items fuel' rest with
  | ok last us => simp
  | error fault us => rfl

/-- All tokens of a file. -/
theorem scan_eq (h : Finds ts found) : scan ts = .ok found := by
  obtain ⟨fuel', hfuel', hitems⟩ := h (ts.length + 1) [] (by simp)
  obtain ⟨n, rfl⟩ : ∃ n, fuel' = n + 1 := ⟨fuel' - 1, by omega⟩
  rw [List.append_nil] at hitems
  rw [scan, hitems, map_apply, items]
  simp

end Finds

/-! ### In front of an item -/

/-- Attributes, each of them a hash, or a hash and an exclamation mark, and a group in square
brackets. -/
inductive Attributes : List Token → Prop
  | nil : Attributes []
  | cons {l k k' : Nat} {bang inner ts : List Token} (hbang : bang = [] ∨ ∃ l', bang = [mark l' "!"])
      (hinner : Balanced inner) (h : Attributes ts) :
      Attributes (mark l "#" :: (bang ++ mark k "[" :: (inner ++ mark k' "]" :: ts)))

/-- One of the words in front of an item: a `pub` may have a group behind it, and an `extern` a
literal. -/
inductive Word : List Token → Prop
  | plain {l : Nat} {text : String} (h : text ∈ itemWords) : Word [name l text]
  | restricted {l k k' : Nat} {inner : List Token} (h : Balanced inner) :
      Word (name l "pub" :: mark k "(" :: (inner ++ [mark k' ")"]))
  | foreign {l : Nat} {t : Token} (ht : t.kind = .literal) : Word [name l "extern", t]

/-- Words in front of an item. -/
inductive Words : List Token → Prop
  | nil : Words []
  | cons {run ts : List Token} (hrun : Word run) (h : Words ts) : Words (run ++ ts)

theorem Attributes.balanced (h : Attributes ts) : Balanced ts := by
  induction h with
  | nil => exact .nil
  | cons hbang hinner _ ih =>
      refine .inner (isInner_mark rfl rfl) ?_
      obtain rfl | ⟨l', rfl⟩ := hbang
      · exact .group rfl rfl hinner ih
      · exact .inner (isInner_mark rfl rfl) (.group rfl rfl hinner ih)

theorem Word.balanced (h : Word ts) : Balanced ts := by
  cases h with
  | plain _ => exact .singleton isInner_name
  | restricted h => exact .inner isInner_name (.bracketed rfl rfl h)
  | foreign ht => exact .inner isInner_name (.singleton (isInner_of_kind_ne (by simp [ht])))

theorem Words.balanced (h : Words ts) : Balanced ts := by
  induction h with
  | nil => exact .nil
  | cons hrun _ ih => exact hrun.balanced.append ih

theorem skipAttributes_append (h : Attributes ts) (hrest : ∀ t ∈ rest.head?, t.isPunct "#" = false)
    (hfuel : ts.length < fuel) : skipAttributes fuel (ts ++ rest) = .ok () rest := by
  induction h generalizing fuel with
  | nil =>
      obtain ⟨fuel, rfl⟩ : ∃ n, fuel = n + 1 := ⟨fuel - 1, by omega⟩
      rw [List.nil_append, skipAttributes]
      cases rest with
      | nil => simp
      | cons t rest => simp [hrest t rfl]
  | @cons l k k' bang inner ts hbang hinner _ ih =>
      simp only [List.length_cons, List.length_append] at hfuel
      obtain ⟨fuel, rfl⟩ : ∃ n, fuel = n + 1 := ⟨fuel - 1, by omega⟩
      have hgroup : group (mark k "[" :: (inner ++ mark k' "]" :: (ts ++ rest))) =
          .ok (mark k "[" :: (inner ++ [mark k' "]"])) (ts ++ rest) := group_balanced rfl rfl hinner
      have hmore := ih (show ts.length < fuel by omega)
      rw [skipAttributes]
      obtain rfl | ⟨l', rfl⟩ := hbang
      · simp [hgroup, hmore]
      · simp [hgroup, hmore]

theorem skipWords_name {text : String} (h : text ∉ itemWords) :
    skipWords (fuel + 1) (name line text :: ts) = .ok () (name line text :: ts) := by
  rw [skipWords]
  simp [h]

/-- A word is passed over when a name follows it. -/
theorem skipWords_word {text : String} (h : Word ts) :
    skipWords (fuel + 1) (ts ++ name line text :: rest) =
      skipWords fuel (name line text :: rest) := by
  rw [skipWords]
  cases h with
  | plain h => simp [h]
  | @restricted l k k' inner h =>
      have hgroup : group (mark k "(" :: (inner ++ mark k' ")" :: name line text :: rest)) =
          .ok (mark k "(" :: (inner ++ [mark k' ")"])) (name line text :: rest) :=
        group_balanced rfl rfl h
      simp [itemWords, hgroup]
  | foreign ht => simp [itemWords, ht]

/-- Words start with a name, and so does what they stand in front of. -/
theorem Words.exists_name (h : Words ts) (line : Nat) (text : String) (rest : List Token) :
    ∃ line' text' rest', ts ++ name line text :: rest = name line' text' :: rest' := by
  cases h with
  | nil => exact ⟨_, _, _, rfl⟩
  | cons hrun _ =>
      cases hrun with
      | plain _ => exact ⟨_, _, _, rfl⟩
      | restricted _ => exact ⟨_, _, _, rfl⟩
      | foreign _ => exact ⟨_, _, _, rfl⟩

theorem skipWords_append {text : String} (h : Words ts) (htext : text ∉ itemWords)
    (hfuel : ts.length < fuel) :
    skipWords fuel (ts ++ name line text :: rest) = .ok () (name line text :: rest) := by
  induction h generalizing fuel with
  | nil =>
      obtain ⟨fuel, rfl⟩ : ∃ n, fuel = n + 1 := ⟨fuel - 1, by omega⟩
      exact skipWords_name htext
  | @cons run ts hrun h ih =>
      have hpos : 0 < run.length := by
        cases hrun <;> simp
      rw [List.length_append] at hfuel
      obtain ⟨fuel, rfl⟩ : ∃ n, fuel = n + 1 := ⟨fuel - 1, by omega⟩
      obtain ⟨line', text', rest', hname⟩ := h.exists_name line text rest
      rw [List.append_assoc, hname, skipWords_word hrun, ← hname]
      exact ih (by omega)

/-! ### One item -/

@[simp] theorem skipItem_apply (ts : List Token) :
    skipItem ts = .ok () (Run.afterItem 0 false ts) := rfl

/-- The tokens are one item from its keyword on: the scanner takes just these, whatever follows,
and `found` is what it finds there. -/
structure Takes (ts : List Token) (found : Option Finding) : Prop where
  starts : ∃ line text us, ts = name line text :: us ∧ text ∉ itemWords
  item_eq : ∀ rest, item (ts ++ rest) = .ok found rest

/-- An item behind its attributes and words is all there is to find. -/
theorem Takes.finds {as ws : List Token} {found : Option Finding} (h : Takes ts found)
    (hattributes : Attributes as) (hwords : Words ws) : Finds (as ++ (ws ++ ts)) found.toList := by
  intro fuel rest hfuel
  obtain ⟨line, text, us, rfl, htext⟩ := h.starts
  simp only [List.length_append, List.length_cons] at hfuel
  obtain ⟨n, rfl⟩ : ∃ n, fuel = n + 1 := ⟨fuel - 1, by omega⟩
  refine ⟨n, by omega, ?_⟩
  obtain ⟨line', text', us', hname⟩ := hwords.exists_name line text (us ++ rest)
  have hattributes' : ∀ bound, as.length < bound →
      skipAttributes bound (as ++ (ws ++ name line text :: (us ++ rest))) =
        .ok () (ws ++ name line text :: (us ++ rest)) := fun bound hbound =>
    skipAttributes_append hattributes (by simp [hname]) hbound
  have hwords' : ∀ bound, ws.length < bound →
      skipWords bound (ws ++ name line text :: (us ++ rest)) =
        .ok () (name line text :: (us ++ rest)) := fun bound hbound =>
    skipWords_append hwords htext hbound
  have hitem := h.item_eq rest
  rw [List.cons_append] at hitem
  rw [items]
  simp only [List.append_assoc, List.cons_append, bind_apply, atEnd_apply, get_apply, branch_apply,
    map_apply]
  rw [hattributes' _ (by rw [List.length_append]; omega)]
  simp only
  rw [hwords' _ (by rw [List.length_append, List.length_append]; omega)]
  simp only [hitem]
  rw [if_neg (by simp)]
  rfl

/-- An item of another kind declares nothing. -/
theorem takes_other {text : String} {tail ending : List Token}
    (htext : text ∉ "struct" :: "enum" :: "impl" :: itemWords) (htail : Ongoing tail)
    (hending : ItemEnd ending) : Takes (name line text :: (tail ++ ending)) none where
  starts := ⟨line, text, _, rfl, fun h => htext (by simp [h])⟩
  item_eq := by
    intro rest
    have hword : Ongoing (name line text :: tail) := .inner isInner_name rfl htail
    have hafter := hword.afterItem_ending hending rest
    have hother : text ≠ "struct" ∧ text ≠ "enum" ∧ text ≠ "impl" := by
      simp only [List.mem_cons, not_or] at htext
      exact ⟨htext.1, htext.2.1, htext.2.2.1⟩
    rw [List.cons_append] at hafter
    rw [item]
    simp [hother, hafter]

theorem params_nil : params [] = [] := rfl

/-- A declared type is found with its name and its keyword, and with as many parameters as there
are names in the run behind its name. -/
theorem takes_type {line' : Nat} {keyword text : String} {run tail ending : List Token}
    (hkeyword : keyword = "struct" ∨ keyword = "enum") (hrun : Parameters run)
    (htail : Ongoing tail) (hless : ∀ t ∈ tail.head?, t.isPunct "<" = false)
    (hending : ItemEnd ending) :
    Takes (name line keyword :: name line' text :: (run ++ (tail ++ ending)))
      (some (.type ⟨text, keyword, (params run).length⟩)) where
  starts := by
    refine ⟨line, keyword, _, rfl, ?_⟩
    rcases hkeyword with rfl | rfl
    · decide
    · decide
  item_eq := by
    intro rest
    have hafter := htail.afterItem_ending hending rest
    have htype : typeItem keyword line
        (name line' text :: (run ++ (tail ++ (ending ++ rest)))) =
          .ok (.type ⟨text, keyword, (params run).length⟩) rest := by
      have hhead : (tail ++ (ending ++ rest))[0]?.any (·.isPunct "<") = false := by
        cases tail with
        | cons t tail => simpa using hless t rfl
        | nil =>
            cases hending with
            | semicolon => rfl
            | braces _ => rfl
      rw [typeItem]
      cases hrun with
      | none =>
          rw [List.nil_append]
          simp [hhead, hafter, params_nil]
      | run h =>
          simp [angles_append h, hafter]
    rw [item]
    rcases hkeyword with rfl | rfl
    · simp [htype]
    · simp [htype]

/-! ### Implementations -/

/-- The header of an implementation of a trait for a type is read as a whole. -/
theorem implHeader_eq {run us : List Token} {trait target : Reference} (hrun : Parameters run)
    (htrait : Reads ts trait) (hconst : ∀ t ∈ ts.head?, t.isIdent "const" = false)
    (htarget : Reads us target) (hrest : Follows rest) :
    implHeader (run ++ (ts ++ name line "for" :: (us ++ rest))) =
      .ok (some (params run, trait, target)) rest := by
  have hfor : Follows (name line "for" :: (us ++ rest)) := follows_cons.mpr (by simp)
  have htrait' := htrait.reader hfor
  obtain ⟨t, more, hts, hbegins, -⟩ := htrait.leads _ hfor
  have hless : t.isPunct "<" = false := hbegins.isPunct (by simp)
  have hbang : t.isPunct "!" = false := hbegins.isPunct (by simp)
  have hnotConst : t.isIdent "const" = false := by
    cases ts with
    | nil =>
        obtain rfl : name line "for" = t := (List.cons.inj hts).1
        rfl
    | cons u ts => exact hconst t (by rw [(List.cons.inj hts).1]; rfl)
  rw [hts] at htrait' ⊢
  rw [implHeader]
  cases hrun with
  | none => simp [hless, hbang, hnotConst, htrait', htarget.reader hrest, params_nil]
  | run h => simp [angles_append h, hbang, hnotConst, htrait', htarget.reader hrest]

/-- An implementation of a trait with a first argument declares a conversion, whatever its body
holds. -/
theorem takes_impl {k l l' : Nat} {run us clause body : List Token}
    {trait source target : Reference} (hrun : Parameters run) (htrait : Reads ts trait)
    (hconst : ∀ t ∈ ts.head?, t.isIdent "const" = false) (hpath : trait.isPath = true)
    (hsource : trait.args.head? = some source) (htarget : Reads us target)
    (hclause : Clause clause) (hbody : Balanced body) :
    Takes (name line "impl" :: (run ++ (ts ++ name k "for" :: (us ++ (clause ++
        mark l "\x7b" :: (body ++ [mark l' "\x7d"]))))))
      (some (.conversion ⟨trait, source, target, params run⟩)) where
  starts := ⟨line, "impl", _, rfl, by decide⟩
  item_eq := by
    intro rest
    have hafter : Run.afterItem 0 false (clause ++
        (mark l "\x7b" :: (body ++ [mark l' "\x7d"]) ++ rest)) = rest :=
      hclause.ongoing.afterItem_ending (.braces hbody) rest
    have hfollows : Follows (clause ++ (mark l "\x7b" :: (body ++ [mark l' "\x7d"]) ++ rest)) := by
      cases hclause with
      | none => exact follows_cons.mpr (by simp)
      | run _ => exact follows_cons.mpr (by simp)
    have hheader := @implHeader_eq k _ _ _ _ _ _ hrun htrait hconst htarget hfollows
    simp only [List.append_assoc, List.cons_append, List.nil_append] at hheader hafter ⊢
    rw [item]
    simp [implItem, hheader, hafter, conversion?, hpath, hsource]

end Scanner

end ConversionClosure
