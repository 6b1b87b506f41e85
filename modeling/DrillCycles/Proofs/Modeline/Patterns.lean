import DrillCycles.Proofs.Modeline.LineEnds
import DrillCycles.Proofs.Text.Pattern

/-!
# The patterns of modelines

A modeline and its settings are described by two patterns.

* **`linePattern`** is a comment with a mark somewhere behind its start.  Its one group are the settings.
  The text in front of the mark is taken to be as long as possible, so the mark is the last one.
* **`pairPattern`** is a word, an equals sign and a value, perhaps with blanks in between.  Its two groups
  are the key and the value.

`settingsText?` and `pairs` look for these by hand.  They find what the patterns find:
`groups_firstFit?_linePattern` for one line, `exists_isScan_pairPattern` for all pairs of a text.
-/

namespace DrillCycles.Modeline

open Pattern

variable {t rest : Text} {c : Char} {previous : Option Char}

/-! ### Word characters -/

/-- Blanks and word characters have no range in common. -/
lemma disjoint_ranges : (blankRanges.all fun blank => wordCharacterRanges.all fun word =>
    decide (blank.2 < word.1) || decide (word.2 < blank.1)) = true := by
  decide +kernel

lemma not_isWordCharacter_of_isBlank (h : isBlank c = true) : isWordCharacter c = false := by
  rw [isBlank, List.any_eq_true] at h
  obtain ⟨blank, hblank, hinside⟩ := h
  rw [isWordCharacter, List.any_eq_false]
  intro word hword hword'
  have hapart := List.all_eq_true.mp (List.all_eq_true.mp disjoint_ranges blank hblank) word hword
  simp only [Bool.and_eq_true, Bool.or_eq_true, decide_eq_true_eq] at hinside hword' hapart
  omega

lemma not_isBlank_of_isWordCharacter (h : isWordCharacter c = true) : isBlank c = false := by
  by_contra hblank
  rw [Bool.not_eq_false] at hblank
  rw [not_isWordCharacter_of_isBlank hblank] at h
  exact Bool.noConfusion h

lemma not_isValueCharacter_of_isBlank (h : isBlank c = true) : isValueCharacter c = false := by
  rw [isValueCharacter, not_isWordCharacter_of_isBlank h, Bool.false_or, beq_eq_false_iff_ne]
  rintro rfl
  exact absurd h (by decide)

/-! ### The pattern of a line -/

/-- Whether a comment can start with this character. -/
def isOpening (c : Char) : Bool :=
  c = ';' || c = '('

/-- The settings behind a mark. -/
def settingsPattern : Pattern :=
  .next (.many isBlank) (.group (.many (· != ')')))

/-- Everything behind the start of a comment. -/
def bodyPattern : Pattern :=
  .next (.many (· != '\n')) (.next .boundary (.literal mark settingsPattern))

/-- **The pattern of a modeline.** -/
def linePattern : Pattern :=
  .next .start (.next (.many isBlank) (.next (.one isOpening) bodyPattern))

/-- What is found behind a mark: the settings, and what is left behind them. -/
def foundBehind (t : Text) : List Text × Text :=
  ([(Text.trimStart t).takeWhile (· != ')')], (Text.trimStart t).dropWhile (· != ')'))

lemma found?_settingsPattern (previous : Option Char) (t : Text) :
    settingsPattern.found? previous t = some (foundBehind t) := by
  rw [settingsPattern, found?_many_group, found?_group_many]
  rfl

/-- At one place the mark is found unless it is part of a longer word: it starts with a word
character. -/
lemma found?_mark (previous : Option Char) (t : Text) :
    (Pattern.next .boundary (.literal mark settingsPattern)).found? previous t =
      if mark.isPrefixOf t && !previous.any isWordCharacter then some (foundBehind (t.drop mark.length))
      else none := by
  rw [found?_boundary, found?_literal, found?_settingsPattern]
  by_cases hmark : mark <+: t
  · obtain ⟨behind, rfl⟩ := hmark
    have hfirst : ((mark ++ behind).head?.any isWordCharacter) = true := by
      have : isWordCharacter 'c' = true := by decide +kernel
      simpa [mark] using this
    rw [hfirst, if_pos (List.prefix_append mark behind), List.isPrefixOf_iff_prefix.mpr
      (List.prefix_append mark behind)]
    cases previous.any isWordCharacter <;> rfl
  · have hnot : mark.isPrefixOf t = false := by
      rw [Bool.eq_false_iff, ne_eq, List.isPrefixOf_iff_prefix]
      exact hmark
    rw [if_neg hmark, hnot, ite_self]
    rfl

lemma behindLastMark_eq_or (found : Option Text) (previous : Char) (t : Text) :
    behindLastMark found previous t = (behindLastMark none previous t).or found := by
  induction t generalizing found previous with
  | nil => rfl
  | cons c t ih =>
      rw [behindLastMark, behindLastMark]
      split
      · rw [ih (some _), Option.or_assoc, Option.some_or]
      · exact ih found c

lemma behindLastMark_cons (previous c : Char) (t : Text) :
    behindLastMark none previous (c :: t) = (behindLastMark none c t).or
      (if mark.isPrefixOf (c :: t) && !isWordCharacter previous then some (t.drop (mark.length - 1))
      else none) := by
  rw [behindLastMark, behindLastMark_eq_or]

/-- **The last mark is found**: all characters but line feeds are passed over as long as possible. -/
lemma found?_bodyPattern (h : '\n' ∉ t) (previous : Char) :
    bodyPattern.found? (some previous) t = (behindLastMark none previous t).map foundBehind := by
  rw [bodyPattern, found?_many]
  induction t generalizing previous with
  | nil =>
      rw [splits, List.findSome?_singleton, found?_mark]
      rfl
  | cons c t ih =>
      rw [List.mem_cons, not_or] at h
      have hpasses : (c != '\n') = true := by
        rw [bne_iff_ne]
        exact Ne.symm h.1
      have hlater : ∀ split : Text × Text,
          ((c :: split.1).getLast?.or (some previous)) = split.1.getLast?.or (some c) := by
        intro split
        rw [List.getLast?_cons]
        cases split.1.getLast? <;> rfl
      have hhere : (Pattern.next .boundary (.literal mark settingsPattern)).found? (some previous)
          (c :: t) = (if mark.isPrefixOf (c :: t) && !isWordCharacter previous then
            some (t.drop (mark.length - 1)) else none).map foundBehind := by
        rw [found?_mark, Option.any_some]
        split <;> rfl
      have htail := ih h.2 c
      rw [splits, if_pos hpasses, List.findSome?_append, List.findSome?_map, behindLastMark_cons,
        Option.map_or]
      simp only [Function.comp_def, hlater, List.findSome?_singleton, List.getLast?_nil,
        Option.none_or]
      rw [htail, hhere]

/-- **Modelines have the pattern of a line.**  In a line the pattern is found exactly if it is a modeline,
and its group are the settings. -/
theorem groups_firstFit?_linePattern {line : Text} (h : '\n' ∉ line) :
    (linePattern.firstFit? none line).map Fit.groups = (settingsText? line).map fun s => [s] := by
  have hblank : (Pattern.next (.one isOpening) bodyPattern).Avoids isBlank := by
    refine avoids_one (fun c hc => ?_) _
    rw [isOpening, Bool.or_eq_false_iff, decide_eq_false_iff_not, decide_eq_false_iff_not]
    constructor <;>
      · rintro rfl
        exact absurd hc (by decide)
  have hfit : (linePattern.firstFit? none line).map Fit.groups =
      (linePattern.found? none line).map Prod.fst := by
    rw [linePattern, firstFit?_start, found?, Option.map_map]
    rfl
  have htrim : ∀ c ∈ Text.trimStart line, c ∈ line := fun c hc =>
    (List.dropWhile_sublist isBlank).subset hc
  rw [hfit, linePattern, found?_start, found?_many_of_avoids hblank, settingsText?, Text.trimStart]
  rw [Text.trimStart] at htrim
  cases hline : line.dropWhile isBlank with
  | nil => rfl
  | cons c t =>
      rw [hline] at htrim
      have hfeed : '\n' ∉ t := fun hmem => h (htrim _ (List.mem_cons_of_mem c hmem))
      rw [found?_one_cons, found?_bodyPattern hfeed, isOpening]
      dsimp only
      split
      · rw [Option.map_map, Option.map_map]
        rfl
      · rfl

/-! ### The pattern of a pair -/

/-- An equals sign and a value. -/
def valuePattern : Pattern :=
  .next (.many isBlank) (.next (.one (· == '='))
    (.next (.many isBlank) (.group (.oneOrMore isValueCharacter))))

/-- **The pattern of a pair.** -/
def pairPattern : Pattern :=
  .next (.group (.oneOrMore isWordCharacter)) valuePattern

lemma found?_valuePattern (previous : Option Char) (t : Text) : valuePattern.found? previous t =
    (valueBehind? t).map fun found => ([found.1], found.2) := by
  have hsign : (Pattern.next (.one (· == '=')) (.next (.many isBlank)
      (.group (.oneOrMore isValueCharacter)))).Avoids isBlank := by
    refine avoids_one (fun c hc => ?_) _
    rw [beq_eq_false_iff_ne]
    rintro rfl
    exact absurd hc (by decide)
  have hvalue : (Pattern.group (.oneOrMore isValueCharacter)).Avoids isBlank := by
    intro previous c t hc
    rw [found?_group_oneOrMore, not_isValueCharacter_of_isBlank hc, if_neg Bool.false_ne_true]
  rw [valuePattern, found?_many_of_avoids hsign]
  change Pattern.found? _ _ (Text.trimStart t) = _
  by_cases hequals : ∃ rest, Text.trimStart t = '=' :: rest
  · obtain ⟨rest, hrest⟩ := hequals
    rw [hrest, valueBehind?_of_sign hrest, found?_one_cons, if_pos (beq_self_eq_true _),
      found?_many_of_avoids hvalue]
    change Pattern.found? _ _ (Text.trimStart rest) = _
    cases Text.trimStart rest with
    | nil => rfl
    | cons c t =>
        rw [found?_group_oneOrMore]
        by_cases hc : isValueCharacter c = true
        · rw [if_pos hc, List.takeWhile_cons_of_pos hc, List.dropWhile_cons_of_pos hc]
          rfl
        · rw [if_neg hc, List.takeWhile_cons_of_neg hc]
          rfl
  · rw [not_exists] at hequals
    rw [valueBehind?_of_no_sign hequals]
    cases htrim : Text.trimStart t with
    | nil => rfl
    | cons c rest =>
        rw [found?_one_cons, if_neg]
        · rfl
        · intro hc
          rw [beq_iff_eq] at hc
          exact hequals rest (by rw [htrim, hc])

/-- At a word character a pair is found if an equals sign and a value stand behind the word. -/
lemma found?_pairPattern (previous : Option Char) (c : Char) (t : Text) :
    pairPattern.found? previous (c :: t) = if isWordCharacter c then
      (valueBehind? (t.dropWhile isWordCharacter)).map fun found =>
        ([c :: t.takeWhile isWordCharacter, found.1], found.2) else none := by
  have hword : valuePattern.Avoids isWordCharacter := by
    intro previous c t hc
    rw [found?_valuePattern, valueBehind?_of_no_sign, Option.map_none]
    intro rest hrest
    rw [Text.trimStart, List.dropWhile_cons_of_neg
      (by rw [not_isBlank_of_isWordCharacter hc]; exact Bool.false_ne_true), List.cons.injEq] at hrest
    rw [hrest.1] at hc
    exact absurd hc (by decide +kernel)
  rw [pairPattern, found?_next_group_oneOrMore hword]
  split
  · rw [found?_valuePattern, Option.map_map]
    rfl
  · rfl

/-- What is found first from the left. -/
def firstFound? (previous : Option Char) (t : Text) : Option (List Text × Text) :=
  (pairPattern.firstFit? previous t).map Fit.result

lemma firstFound?_nil (previous : Option Char) : firstFound? previous [] = none := rfl

lemma firstFound?_cons (previous : Option Char) (c : Char) (t : Text) : firstFound? previous (c :: t) =
    (pairPattern.found? previous (c :: t)).or (firstFound? (some c) t) := by
  rw [firstFound?, firstFit?, Option.map_or]
  rfl

/-- The character in front makes no difference. -/
lemma firstFound?_previous (previous : Option Char) (t : Text) :
    firstFound? previous t = firstFound? none t := by
  cases t with
  | nil => rfl
  | cons c t => rw [firstFound?_cons, firstFound?_cons, found?_pairPattern, found?_pairPattern]

lemma firstFound?_skip (t : Text) :
    firstFound? none t = firstFound? none (t.dropWhile (!isWordCharacter ·)) := by
  induction t with
  | nil => rfl
  | cons c t ih =>
      by_cases hc : isWordCharacter c = true
      · rw [List.dropWhile_cons_of_neg (by simp [hc])]
      · rw [List.dropWhile_cons_of_pos (by simpa using hc), firstFound?_cons, found?_pairPattern,
          if_neg hc, Option.none_or, firstFound?_previous, ih]

/-- A word without a value is passed over as a whole. -/
lemma firstFound?_word (h : valueBehind? (t.dropWhile isWordCharacter) = none) :
    firstFound? none t = firstFound? none (t.dropWhile isWordCharacter) := by
  induction t with
  | nil => rfl
  | cons c t ih =>
      by_cases hc : isWordCharacter c = true
      · rw [List.dropWhile_cons_of_pos hc] at h ⊢
        rw [firstFound?_cons, found?_pairPattern, if_pos hc, h, Option.map_none, Option.none_or,
          firstFound?_previous, ih h]
      · rw [List.dropWhile_cons_of_neg hc]

lemma isWordCharacter_of_dropWhile (h : t.dropWhile (!isWordCharacter ·) = c :: rest) :
    isWordCharacter c = true := by
  have := List.head?_dropWhile_not (!isWordCharacter ·) t
  simpa [h] using this

/-- What is left behind the first word is shorter. -/
lemma length_dropWhile_lt (h : t.dropWhile (!isWordCharacter ·) = c :: rest) :
    (rest.dropWhile isWordCharacter).length < t.length := by
  have hskip := (List.dropWhile_suffix (!isWordCharacter ·) (l := t)).length_le
  have hword := (List.dropWhile_suffix isWordCharacter (l := rest)).length_le
  rw [h, List.length_cons] at hskip
  omega

/-- The first pair from the left: `pairs` takes it and goes on behind it. -/
lemma pairs_cases (t : Text) : (firstFound? none t = none ∧ pairs t = []) ∨
    ∃ key value after, firstFound? none t = some ([key, value], after) ∧
      pairs t = (key, value) :: pairs after ∧ after.length < t.length := by
  -- The cases are those of the scan: no word is left, a word with a value, a word without one.
  induction t using pairs.induct with
  | case1 t h =>
      rw [firstFound?_skip, h]
      exact Or.inl ⟨firstFound?_nil none, pairs_of_no_word h⟩
  | case2 t c rest h value after hvalue _ =>
      have hshorter := (length_le_of_valueBehind? hvalue).trans_lt (length_dropWhile_lt h)
      refine Or.inr ⟨_, value, after, ?_, pairs_of_value h hvalue, hshorter⟩
      rw [firstFound?_skip, h, firstFound?_cons, found?_pairPattern,
        if_pos (isWordCharacter_of_dropWhile h), hvalue, Option.map_some, Option.some_or]
  | case3 t c rest h hvalue ih =>
      have hfirst : firstFound? none t = firstFound? none (rest.dropWhile isWordCharacter) := by
        rw [firstFound?_skip, h, firstFound?_cons, found?_pairPattern,
          if_pos (isWordCharacter_of_dropWhile h), hvalue, Option.map_none, Option.none_or,
          firstFound?_previous, firstFound?_word hvalue]
      rw [hfirst, pairs_of_no_value h hvalue]
      rcases ih with hnone | ⟨key, value, after, hfound, hpairs, hlength⟩
      · exact Or.inl hnone
      · exact Or.inr ⟨key, value, after, hfound, hpairs, hlength.trans (length_dropWhile_lt h)⟩

/-- **Pairs have the pattern of a pair**: they are all that the pattern finds from left to right. -/
theorem exists_isScan_pairPattern (previous : Option Char) (t : Text) :
    ∃ fs, pairPattern.IsScan previous t fs ∧
      fs.map Fit.groups = (pairs t).map fun pair => [pair.1, pair.2] := by
  induction hlength : t.length using Nat.strong_induction_on generalizing t previous with
  | _ n ih =>
      subst hlength
      rcases pairs_cases t with ⟨hnone, hpairs⟩ | ⟨key, value, after, hfound, hpairs, hshorter⟩
      · rw [← firstFound?_previous previous, firstFound?, Option.map_eq_none_iff] at hnone
        exact ⟨[], .done hnone, by rw [hpairs]; rfl⟩
      · rw [← firstFound?_previous previous, firstFound?, Option.map_eq_some_iff] at hfound
        obtain ⟨f, hfit, hresult⟩ := hfound
        obtain ⟨hgroups, rfl⟩ := Prod.mk.inj hresult
        obtain ⟨fs, hscan, hfs⟩ := ih _ hshorter f.text.getLast? f.rest rfl
        exact ⟨f :: fs, .more hfit hshorter hscan, by rw [List.map_cons, hgroups, hfs, hpairs]; rfl⟩

end DrillCycles.Modeline
