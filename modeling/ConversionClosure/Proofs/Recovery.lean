/-
Recovery behind the header of an implementation.

The scanner goes on behind an item whether or not its header can be read.  A contained header keeps
its reader in front of the body, so that the item is over behind its body, and what follows is
scanned as if it stood alone.
-/
import ConversionClosure.Proofs.Scanning
import ConversionClosure.Proofs.Settling
import Mathlib.Control.Monad.Basic

namespace ConversionClosure

open Token TokenReader

variable {p : Region} {bound line : Nat} {ts us : List Token} {t : Token}

namespace TokenReader.Settles

/-- A run between angle brackets.  In a header it is one of its tokens. -/
theorem angles {l : Nat} (h : p.Holds 0 (mark l "<" :: ts)) :
    Settles p (fun _ => TokenReader.angles) bound (mark l "<" :: ts) fun _ us => p.Holds 0 us := by
  cases p with
  | header line =>
      obtain ⟨hongoing, hcontained⟩ := h.less
      obtain ⟨run, us, rfl, hus, hrun⟩ := Region.exists_angles hongoing hcontained
      have hall : ∀ rest,
          Run.angles? 0 0 (mark l "<" :: (run ++ us) ++ (Region.header line).beyond rest) =
            some (mark l "<" :: run, us ++ (Region.header line).beyond rest) := by
        intro rest
        show (Run.angles? 0 1 (run ++ us ++ _)).map (Run.onto (mark l "<")) = _
        rw [hrun]
        rfl
      refine .ok ?_ hus fun _ rest _ => by rw [angles_apply, hall]
      rw [List.length_cons, List.length_append]
      omega
  | whole =>
      cases hrun : Run.angles? 0 0 (mark l "<" :: ts) with
      | none =>
          have hread : TokenReader.angles (mark l "<" :: ts) = .error .openAngle [] := by
            rw [angles_apply, hrun]
          exact of_error hread (Nat.zero_le _) (by decide) .nil
      | some split =>
          have hread : TokenReader.angles (mark l "<" :: ts) = .ok split.1 split.2 := by
            rw [angles_apply, hrun]
          have hsuffix : split.2 <:+ mark l "<" :: ts := ⟨_, Run.angles?_append_eq hrun⟩
          exact of_ok hread hsuffix.length_le (Matched.of_suffix h hsuffix)

theorem drop_bind {β : Type} {f : Nat → Unit → TokenReader β} {last : β → List Token → Prop}
    {offset : Nat} (h : Settles .whole (fun n => f n ()) bound (ts.drop offset) last) :
    Settles .whole (fun n => modify (List.drop offset) >>= f n) bound ts last :=
  .ok_bind (List.drop_suffix offset ts).length_le (fun _ _ => by
    rw [Region.beyond, List.append_nil, List.append_nil, modify_apply]) h

/-- A reader that has all the tokens comes to an end among them. -/
theorem ends {α : Type} {x : TokenReader α} {post : α → List Token → Prop}
    (h : Settles .whole (fun _ => x) bound ts post) :
    (∃ a us, us.length ≤ ts.length ∧ post a us ∧ x ts = .ok a us) ∨
      ∃ fault us, us.length ≤ ts.length ∧ fault.IsSyntactic ∧ Matched us ∧
        x ts = .error fault us := by
  cases h with
  | ok hlength hpost heq =>
      have hread := heq bound [] (Nat.le_refl _)
      simp only [Region.beyond, List.append_nil] at hread
      exact .inl ⟨_, _, hlength, hpost, hread⟩
  | fault hlength hfault hleaves heq =>
      have hread := heq bound [] (Nat.le_refl _)
      simp only [Region.beyond, List.append_nil] at hread
      exact .inr ⟨_, _, hlength, hfault, hleaves, hread⟩

end TokenReader.Settles

namespace Scanner

/-! ### Headers -/

/-- The header of an implementation behind its parameters. -/
def traitFor (names : List String) :
    TokenReader (Option (List String × Reference × Reference)) := do
  if ← atPunct "!" 0 then return none
  let trait ← Reference.reader
  unless ← atIdent "for" do return none
  skip
  let target ← Reference.reader
  return some (names, trait, target)

theorem traitFor_settles (names : List String) (h : p.Holds 0 ts) :
    Settles p (fun _ => traitFor names) bound ts fun _ us => p.Leaves us := by
  unfold traitFor
  refine .ifPunct (by decide) (fun l us hus => .pure (hus ▸ h.leaves)) ?_
  refine (Reference.reader_settles h).bind fun trait us _ hus => ?_
  refine .ifIdent ?_ (.pure hus.1.leaves)
  rintro t us rfl ht
  refine .skip_bind ?_
  exact (Reference.reader_settles (hus.1.word ht)).bind fun target vs _ hvs => .pure hvs.1.leaves

theorem implHeader_settles (h : p.Holds 0 ts) :
    Settles p (fun _ => implHeader) bound ts fun _ us => p.Leaves us := by
  have hconst : ∀ names us, p.Holds 0 us → Settles p (fun _ => do
      if ← atIdent "const" then
        skip
        traitFor names
      else traitFor names) bound us fun _ vs => p.Leaves vs := by
    intro names us hus
    refine .ifIdent ?_ (traitFor_settles names hus)
    rintro t us rfl ht
    refine .skip_bind ?_
    exact traitFor_settles names (hus.word ht)
  simp only [implHeader]
  refine .ifPunct (by decide) ?_ ((hconst [] ts h).congr fun _ _ => rfl)
  rintro l us rfl
  refine (Settles.angles h).bind fun run vs _ hvs => ?_
  exact (hconst (params run) vs hvs).congr fun _ _ => rfl

/-- What is found when the header of an implementation is read, or cannot be read. -/
def headerFinding (line : Nat) :
    Except TypeFault (Option (List String × Reference × Reference)) → Option Finding
  | .ok none => none
  | .ok (some (names, trait, target)) => (conversion? names trait target).map .conversion
  | .error fault => some (.skipped (.badHeader line fault))

/-- An implementation declares no type. -/
theorem headerFinding_ne_type
    (header : Except TypeFault (Option (List String × Reference × Reference))) (decl : TypeDecl) :
    headerFinding line header ≠ some (.type decl) := by
  rcases header with fault | _ | ⟨names, trait, target⟩
  · simp [headerFinding]
  · simp [headerFinding]
  · simp [headerFinding]

theorem implItem_ok (line : Nat) {header : Option (List String × Reference × Reference)}
    (h : implHeader ts = .ok header us) :
    implItem line ts = .ok (headerFinding line (.ok header)) (Run.afterItem 0 false us) := by
  rw [implItem, h]
  rcases header with _ | ⟨names, trait, target⟩ <;> rfl

theorem implItem_fault (line : Nat) {fault : TypeFault} (hfault : fault.IsSyntactic)
    (h : implHeader ts = .error fault us) :
    implItem line ts = .ok (headerFinding line (.error fault)) (Run.afterItem 0 false us) := by
  rw [implItem, h]
  cases fault with
  | unmatchedBracket => exact absurd rfl hfault.1
  | outOfFuel => exact absurd rfl hfault.2
  | _ => rfl

/-- **An implementation with a contained header is over behind its body**, whether or not the header
can be read.  What is found there comes from the header alone, and it is no type. -/
theorem exists_implItem_eq (line k : Nat) {header : List Token} (hheader : Ongoing header)
    (hcontained : Run.isContained 0 0 header = true) :
    ∃ found, (∀ decl, found ≠ some (.type decl)) ∧ ∀ k' body rest, Balanced body →
      implItem line (header ++ mark k "\x7b" :: (body ++ mark k' "\x7d" :: rest)) =
        .ok found rest := by
  have hholds : (Region.header k).Holds 0 header := ⟨hheader, hcontained⟩
  have hover : ∀ us k' body rest, Ongoing us → Balanced body →
      Run.afterItem 0 false (us ++ mark k "\x7b" :: (body ++ mark k' "\x7d" :: rest)) = rest := by
    intro us k' body rest hus hbody
    rw [hus.afterItem_append]
    exact Balanced.afterItem_braces rfl rfl hbody
  cases (implHeader_settles hholds : Settles _ _ 0 _ _) with
  | @ok found us _ hleaves heq =>
      refine ⟨headerFinding line (.ok found), headerFinding_ne_type _,
        fun k' body rest hbody => ?_⟩
      have hread := heq 0 (body ++ mark k' "\x7d" :: rest) (Nat.le_refl _)
      have hitem := implItem_ok line hread
      rwa [Region.beyond, hover us k' body rest hleaves hbody] at hitem
  | @fault fault us _ hfault hleaves heq =>
      refine ⟨headerFinding line (.error fault), headerFinding_ne_type _,
        fun k' body rest hbody => ?_⟩
      have hread := heq 0 (body ++ mark k' "\x7d" :: rest) (Nat.le_refl _)
      have hitem := implItem_fault line hfault hread
      rwa [Region.beyond, hover us k' body rest hleaves hbody] at hitem

theorem exists_takes_impl (line k : Nat) {header : List Token} (hheader : Ongoing header)
    (hcontained : Run.isContained 0 0 header = true) :
    ∃ found, (∀ decl, found ≠ some (.type decl)) ∧ ∀ k' body, Balanced body →
      Takes (name line "impl" :: (header ++ mark k "\x7b" :: (body ++ [mark k' "\x7d"])))
        found := by
  obtain ⟨found, htype, himpl⟩ := exists_implItem_eq line k hheader hcontained
  refine ⟨found, htype, fun k' body hbody => ⟨⟨line, "impl", _, rfl, by decide⟩, fun rest => ?_⟩⟩
  rw [item]
  simp [himpl k' body rest hbody]

/-! ### One item after the other -/

/-- Tokens are left that match, and some are taken if there are any. -/
def Goes (ts us : List Token) : Prop := Matched us ∧ (ts ≠ [] → us.length < ts.length)

theorem skipItem_settles (h : Matched ts) :
    Settles .whole (fun _ => skipItem) bound ts fun _ us => Matched us :=
  have hsuffix := Run.afterItem_suffix 0 false ts
  .of_ok (skipItem_apply ts) hsuffix.length_le (h.of_suffix hsuffix)

theorem length_afterItem_lt (t : Token) (ts : List Token) :
    (Run.afterItem 0 false (t :: ts)).length < (t :: ts).length := by
  have hsuffix : ∀ brackets braces, (Run.afterItem brackets braces ts).length ≤ ts.length :=
    fun brackets braces => (Run.afterItem_suffix brackets braces ts).length_le
  rw [Run.afterItem]
  split
  · exact Nat.lt_succ_of_le (hsuffix _ _)
  rw [if_pos rfl]
  split
  · exact Nat.lt_succ_self _
  · exact Nat.lt_succ_of_le (hsuffix _ _)

theorem typeItem_settles (keyword : String) (h : Matched ts) :
    Settles .whole (fun _ => typeItem keyword line) bound ts fun _ us => Matched us := by
  simp only [typeItem]
  refine .peek?_bind ?_
  cases ts with
  | nil => exact .pure h
  | cons t ts =>
      rw [Region.next?_cons]
      dsimp only
      split
      · refine .skip_bind ?_
        have hrest : ∀ (found : Finding) us, Matched us → Settles .whole (fun _ => do
            skipItem
            return found) bound us fun _ vs => Matched vs :=
          fun found us hus => (skipItem_settles hus).bind fun _ _ _ hvs => .pure hvs
        have hts : Region.whole.Holds 0 ts := h.tail
        refine .ifPunct (by decide) ?_ ((hrest _ ts h.tail).congr fun _ _ => rfl)
        rintro l us rfl
        exact (Settles.angles hts).bind fun run vs _ hvs => (hrest _ vs hvs).congr fun _ _ => rfl
      · exact (skipItem_settles h).bind fun _ _ _ hus => .pure hus

theorem implItem_settles (h : Matched ts) :
    Settles .whole (fun _ => implItem line) bound ts fun _ us => Matched us := by
  have hwhole : Region.whole.Holds 0 ts := h
  have hrest : ∀ us, Matched us → us.length ≤ ts.length →
      (Run.afterItem 0 false us).length ≤ ts.length ∧ Matched (Run.afterItem 0 false us) := by
    intro us hus hlength
    have hsuffix := Run.afterItem_suffix 0 false us
    exact ⟨Nat.le_trans hsuffix.length_le hlength, hus.of_suffix hsuffix⟩
  rcases (implHeader_settles hwhole : Settles _ _ 0 _ _).ends with
    ⟨header, us, hlength, hus, hheader⟩ | ⟨fault, us, hlength, hfault, hus, hheader⟩
  · obtain ⟨hless, hleft⟩ := hrest us hus hlength
    exact .of_ok (implItem_ok line hheader) hless hleft
  · obtain ⟨hless, hleft⟩ := hrest us hus hlength
    exact .of_ok (implItem_fault line hfault hheader) hless hleft

theorem item_settles (h : Matched ts) :
    Settles .whole (fun _ => item) bound ts fun _ us => Goes ts us := by
  simp only [item]
  refine .peek?_bind ?_
  cases ts with
  | nil => exact .pure ⟨h, fun hne => absurd rfl hne⟩
  | cons t ts =>
      rw [Region.next?_cons]
      dsimp only
      split
      · refine .skip_bind ?_
        refine (typeItem_settles t.text h.tail).bind fun found us hlength hus => .pure ⟨hus, ?_⟩
        exact fun _ => Nat.lt_succ_of_le hlength
      split
      · refine .skip_bind ?_
        refine (implItem_settles h.tail).mono (Nat.le_refl _) fun found us hlength hus => ⟨hus, ?_⟩
        exact fun _ => Nat.lt_succ_of_le hlength
      · have hsuffix := Run.afterItem_suffix 0 false (t :: ts)
        have hitem : (skipItem >>= fun _ => pure none : TokenReader (Option Finding)) (t :: ts) =
          .ok none (Run.afterItem 0 false (t :: ts)) := rfl
        have hgoes : Goes (t :: ts) (Run.afterItem 0 false (t :: ts)) :=
          ⟨h.of_suffix hsuffix, fun _ => length_afterItem_lt t ts⟩
        exact .of_ok hitem hsuffix.length_le hgoes

theorem skipAttributes_settles (h : Matched ts) :
    Settles .whole skipAttributes (ts.length + 1) ts fun _ us => Matched us := by
  induction hn : ts.length using Nat.strongRecOn generalizing ts with
  | ind n ih =>
  subst hn
  refine Settles.succ ?_
  simp only [skipAttributes]
  refine .ifPunct (by decide) ?_ (.pure h)
  rintro l us rfl
  refine .atPunct_any_bind ?_
  -- The exclamation mark only tells where the group begins.
  generalize (if (mark l "#" :: us)[1]?.any (·.isPunct "!") = true then 2 else 1) = offset
  refine .atPunct_any_bind ?_
  cases hopens : (mark l "#" :: us)[offset]?.any (·.isPunct "[") with
  | false => exact .pure h
  | true =>
      have hsuffix := List.drop_suffix offset (mark l "#" :: us)
      have hlength := hsuffix.length_le
      have hdrop : Region.whole.Holds 0 ((mark l "#" :: us).drop offset) := h.of_suffix hsuffix
      rw [← List.head?_drop] at hopens
      refine .drop_bind ?_
      generalize (mark l "#" :: us).drop offset = vs at hopens hlength hdrop
      cases vs with
      | nil => simp at hopens
      | cons u vs =>
          obtain ⟨l', rfl⟩ := exists_mark (show u.isPunct "[" = true by simpa using hopens)
          refine (Settles.group hdrop rfl).bind fun run ws _ hws => ?_
          have hless : ws.length < (mark l "#" :: us).length := Nat.lt_trans hws.2.1 hlength
          exact (ih ws.length hless hws.1 rfl).fuel hless

theorem skipWords_settles (h : Matched ts) :
    Settles .whole skipWords (ts.length + 1) ts fun _ us => Matched us := by
  induction hn : ts.length using Nat.strongRecOn generalizing ts with
  | ind n ih =>
  subst hn
  refine Settles.succ ?_
  simp only [skipWords]
  have hmore : ∀ us, us.length < ts.length → Matched us →
      Settles .whole skipWords ts.length us fun _ vs => Matched vs :=
    fun us hlength hus => (ih us.length hlength hus rfl).fuel hlength
  refine .peek?_bind ?_
  cases ts with
  | nil => exact .pure h
  | cons t ts =>
      rw [Region.next?_cons]
      dsimp only
      split
      · refine .skip_bind (.atPunct_bind ?_)
        split
        · rename_i hpub
          rw [Bool.and_eq_true] at hpub
          obtain ⟨l, us, rfl⟩ := Region.exists_cons hpub.2 (by decide)
          have hgroup : Region.whole.Holds 0 (mark l "(" :: us) := h.tail
          refine (Settles.group hgroup rfl).bind fun run vs _ hvs => ?_
          exact hmore vs (Nat.lt_succ_of_lt (Nat.lt_succ_of_lt hvs.2.1)) hvs.1
        refine .peek?_bind ?_
        split
        · rename_i hliteral
          cases ts with
          | nil => simp at hliteral
          | cons u us =>
              refine .skip_bind ?_
              exact hmore us (Nat.lt_succ_of_lt (Nat.lt_succ_self _)) h.tail.tail
        · exact hmore ts (Nat.lt_succ_self _) h.tail
      · exact .pure h

/-- One item with what stands in front of it. -/
def itemBehind (bound : Nat) : TokenReader (Option Finding) := do
  skipAttributes bound
  skipWords bound
  item

theorem itemBehind_settles (h : Matched ts) (hne : ts ≠ []) :
    Settles .whole (fun _ => itemBehind (ts.length + 1)) bound ts fun _ us =>
      Matched us ∧ us.length < ts.length := by
  unfold itemBehind
  refine ((skipAttributes_settles h).with_fuel (Nat.le_refl _)).bind fun _ us hlength hus => ?_
  refine ((skipWords_settles hus).with_fuel (Nat.succ_le_succ hlength)).bind
    fun _ vs hlength' hvs => ?_
  refine (item_settles hvs).mono (Nat.le_refl _) fun found ws hlength'' hws => ⟨hws.1, ?_⟩
  have hpos := List.length_pos_iff.mpr hne
  by_cases hnil : vs = []
  · rw [hnil, List.length_nil] at hlength''
    omega
  · have hless := hws.2 hnil
    omega

theorem items_succ (n : Nat) (hne : ts ≠ []) :
    items (n + 1) ts =
      (itemBehind (ts.length + 1) >>= fun found => (found.toList ++ ·) <$> items n) ts := by
  have hempty : ts.isEmpty = false := List.isEmpty_eq_false_iff.mpr hne
  simp only [items, itemBehind, bind_apply, atEnd_apply, get_apply, branch_apply, map_apply, hempty]
  cases skipAttributes (ts.length + 1) ts with
  | error fault us => rfl
  | ok _ us =>
    dsimp only
    cases skipWords (ts.length + 1) us with
    | error fault vs => rfl
    | ok _ vs =>
      dsimp only
      cases item vs with
      | error fault ws => rfl
      | ok found ws => rfl

/-- **Fuel for the tokens is enough for their items**, and more of it changes nothing. -/
theorem items_eq {n m : Nat} (h : Matched ts) (hn : ts.length < n) (hm : ts.length < m) :
    items n ts = items m ts := by
  induction n generalizing m ts with
  | zero => exact absurd hn (Nat.not_lt_zero _)
  | succ n ih =>
      obtain ⟨m, rfl⟩ : ∃ k, m = k + 1 := ⟨m - 1, by omega⟩
      by_cases hne : ts = []
      · subst hne
        rfl
      rw [items_succ n hne, items_succ m hne, bind_apply, bind_apply]
      rcases (itemBehind_settles h hne : Settles _ _ 0 _ _).ends with
        ⟨found, us, -, hus, hitem⟩ | ⟨fault, us, -, -, -, hitem⟩
      · have hmore : items n us = items m us := ih hus.1 (by omega) (by omega)
        rw [hitem]
        show ((found.toList ++ ·) <$> items n) us = ((found.toList ++ ·) <$> items m) us
        rw [map_apply, map_apply, hmore]
      · rw [hitem]

/-- What follows the tokens of some items is scanned as if it stood alone. -/
theorem Finds.scan_append {found : List Finding} (h : Finds ts found) (hus : Matched us) :
    scan (ts ++ us) = (found ++ ·) <$> scan us := by
  obtain ⟨fuel, hfuel, hitems⟩ := h ((ts ++ us).length + 1) us (Nat.lt_succ_self _)
  rw [map_apply, items_eq hus hfuel (Nat.lt_succ_self _)] at hitems
  rw [scan, scan, hitems]
  cases items (us.length + 1) us with
  | ok more vs => rfl
  | error fault vs => rfl

/-- **Recovery behind a contained header is local.**  An implementation with a body gives one
finding at most, which comes from its header alone and is no type.  What is found behind it is what
is found there alone.  So it is whether or not the header can be read: it is a run of any tokens in
which the brackets match and in which no semicolon and no brace group stands outside of other
brackets. -/
theorem scan_impl_append {k : Nat} {header : List Token} (hheader : Ongoing header)
    (hcontained : Run.isContained 0 0 header = true) :
    ∃ found : Option Finding, (∀ decl, found ≠ some (.type decl)) ∧
      ∀ k' body b, Balanced body → Balanced b →
        scan (name line "impl" :: (header ++ mark k "\x7b" :: (body ++ mark k' "\x7d" :: b))) =
          (found.toList ++ ·) <$> scan b := by
  obtain ⟨found, htype, htakes⟩ := exists_takes_impl line k hheader hcontained
  refine ⟨found, htype, fun k' body b hbody hb => ?_⟩
  have hfinds : Finds (name line "impl" :: (header ++ mark k "\x7b" :: (body ++ [mark k' "\x7d"])))
      found.toList := (htakes k' body hbody).finds .nil .nil
  have hscan := hfinds.scan_append hb.matched
  simpa only [List.cons_append, List.append_assoc, List.nil_append] using hscan

theorem balanced_struct {line : Nat} {text : String} (h : Balanced ts) :
    Balanced (name line "struct" :: name line text :: mark line ";" :: ts) :=
  .inner isInner_name (.inner isInner_name (.inner (isInner_mark rfl rfl) h))

/-- The header `[ ; ]` cannot be read.  The type in the body is not found, and the one behind the
body is. -/
theorem scan_impl_append_noElement :
    ∃ found : Option Finding, (∀ decl, found ≠ some (.type decl)) ∧
      scan (name 1 "impl" :: ([mark 1 "[", mark 1 ";", mark 1 "]"] ++ mark 1 "\x7b" ::
          ([name 2 "struct", name 2 "X", mark 2 ";"] ++ mark 3 "\x7d" ::
            [name 4 "struct", name 4 "B", mark 4 ";"]))) =
        (found.toList ++ ·) <$> scan [name 4 "struct", name 4 "B", mark 4 ";"] ∧
      (found.toList ++ ·) <$> scan [name 4 "struct", name 4 "B", mark 4 ";"] =
        .ok [.skipped (.badHeader 1 (.notAType ";" 1)), .type ⟨"B", "struct", 0⟩] := by
  have hheader : Ongoing [mark 1 "[", mark 1 ";", mark 1 "]"] :=
    .group (k := .square) rfl (by decide) rfl (.singleton (isInner_mark rfl rfl)) .nil
  have hbody : Balanced [name 2 "struct", name 2 "X", mark 2 ";"] := balanced_struct .nil
  have hb : Balanced [name 4 "struct", name 4 "B", mark 4 ";"] := balanced_struct .nil
  obtain ⟨found, htype, hscan⟩ := @scan_impl_append 1 1 _ hheader rfl
  refine ⟨found, htype, hscan 3 _ _ hbody hb, (hscan 3 _ _ hbody hb).symm.trans ?_⟩
  decide +kernel

/-- **Behind a header that is not contained, recovery is not local.**  The type `Y` of the body is
found, and the type `B` behind the body is lost. -/
theorem scan_impl_star_escapes :
    ∃ header body b, Ongoing header ∧ Balanced body ∧ Balanced b ∧
      lex "impl * \x7b struct X; struct Y; \x7d\nstruct B;" = .ok
        (name 1 "impl" :: (header ++ mark 1 "\x7b" :: (body ++ mark 1 "\x7d" :: b))) ∧
      scan (name 1 "impl" :: (header ++ mark 1 "\x7b" :: (body ++ mark 1 "\x7d" :: b))) =
        .ok [.skipped (.badHeader 1 (.malformedPointer 1)), .type ⟨"Y", "struct", 0⟩] ∧
      scan b = .ok [.type ⟨"B", "struct", 0⟩] := by
  refine ⟨[mark 1 "*"], [name 1 "struct", name 1 "X", mark 1 ";", name 1 "struct", name 1 "Y",
    mark 1 ";"], [name 2 "struct", name 2 "B", mark 2 ";"],
    .inner (isInner_mark rfl rfl) rfl .nil, balanced_struct (balanced_struct .nil),
    balanced_struct .nil, ?_, ?_, ?_⟩
  · decide +kernel
  · decide +kernel
  · decide +kernel

end Scanner

end ConversionClosure
