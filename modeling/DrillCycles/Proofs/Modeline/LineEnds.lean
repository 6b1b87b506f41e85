import DrillCycles.Modeline
import DrillCycles.Proofs.Text.Layout

/-!
# Modelines and line ends

The lines of a modeline's window are read without the carriage return of their line end, but only one
is taken away, and a lone one stays.  So with carriage returns in front of all line feeds some lines
have one more at their end.  None of the readers notices: a mark, a key and a value hold no blank, and
what follows the last value is skipped (`pairs_concat`, `pairs_of_settingsText?_concat`).

**`pairs_withReturns`** puts this together: the pairs of the modeline are the same, and so is all that
is made of them.
-/

namespace DrillCycles.Modeline

variable {t u rest line : Text} {c : Char}

/-! ### A character behind a text -/

lemma takeWhile_concat {p : Char → Bool} (hc : p c = false) (t : Text) :
    (t ++ [c]).takeWhile p = t.takeWhile p := by
  rw [List.takeWhile_append]
  split
  · next h =>
      rw [List.takeWhile_cons_of_neg (by simp [hc]), List.append_nil]
      exact ((List.takeWhile_prefix p).eq_of_length h).symm
  · rfl

lemma dropWhile_concat {p : Char → Bool} (hc : p c = false) (t : Text) :
    (t ++ [c]).dropWhile p = t.dropWhile p ++ [c] := by
  rw [List.dropWhile_append]
  split
  · next h =>
      rw [List.isEmpty_iff] at h
      rw [h, List.dropWhile_cons_of_neg (by simp [hc]), List.nil_append]
  · rfl

/-- A blank behind a text is trimmed at the start only if the whole text is. -/
lemma trimStart_concat (hc : isBlank c = true) (t : Text) :
    Text.trimStart (t ++ [c]) = if Text.trimStart t = [] then [] else Text.trimStart t ++ [c] := by
  rw [Text.trimStart, Text.trimStart, List.dropWhile_append]
  simp only [List.isEmpty_iff]
  split
  · simp [hc]
  · rfl

/-! ### Pairs -/

lemma not_isWordCharacter_return : isWordCharacter '\r' = false := by decide +kernel

lemma not_isValueCharacter_return : isValueCharacter '\r' = false := by
  rw [isValueCharacter, not_isWordCharacter_return]
  rfl

lemma valueBehind?_of_sign (h : Text.trimStart t = '=' :: rest) : valueBehind? t =
    if ((Text.trimStart rest).takeWhile isValueCharacter).isEmpty then none
    else some ((Text.trimStart rest).takeWhile isValueCharacter,
      (Text.trimStart rest).dropWhile isValueCharacter) := by
  rw [valueBehind?, h]
  rfl

lemma valueBehind?_of_no_sign (h : ∀ rest, Text.trimStart t ≠ '=' :: rest) :
    valueBehind? t = none := by
  rw [valueBehind?]
  split
  · next rest heq => exact absurd heq (h rest)
  · rfl

lemma valueBehind?_concat (t : Text) : valueBehind? (t ++ ['\r']) =
    (valueBehind? t).map fun found => (found.1, found.2 ++ ['\r']) := by
  have hstart := trimStart_concat Text.isBlank_return t
  by_cases hsign : ∃ rest, Text.trimStart t = '=' :: rest
  · obtain ⟨rest, hrest⟩ := hsign
    rw [hrest, if_neg (by simp), List.cons_append] at hstart
    rw [valueBehind?_of_sign hstart, valueBehind?_of_sign hrest, trimStart_concat Text.isBlank_return]
    split
    · next hblank => simp [hblank]
    · rw [takeWhile_concat not_isValueCharacter_return, dropWhile_concat not_isValueCharacter_return]
      split <;> rfl
  · rw [not_exists] at hsign
    rw [valueBehind?_of_no_sign hsign, valueBehind?_of_no_sign, Option.map_none]
    intro rest hrest
    rw [hstart] at hrest
    split at hrest
    · simp at hrest
    · next hblank =>
        obtain ⟨c, rest', hcons⟩ := List.exists_cons_of_ne_nil hblank
        rw [hcons, List.cons_append, List.cons.injEq] at hrest
        exact hsign rest' (by rw [hcons, hrest.1])

lemma pairs_of_no_word (h : t.dropWhile (!isWordCharacter ·) = []) : pairs t = [] := by
  rw [pairs]
  split
  · rfl
  · simp_all

lemma pairs_of_value {value after : Text} (h : t.dropWhile (!isWordCharacter ·) = c :: rest)
    (hvalue : valueBehind? (rest.dropWhile isWordCharacter) = some (value, after)) :
    pairs t = (c :: rest.takeWhile isWordCharacter, value) :: pairs after := by
  rw [pairs]
  split
  · simp_all
  · next c' rest' heq =>
      rw [h, List.cons.injEq] at heq
      obtain ⟨rfl, rfl⟩ := heq
      split <;> simp_all

lemma pairs_of_no_value (h : t.dropWhile (!isWordCharacter ·) = c :: rest)
    (hvalue : valueBehind? (rest.dropWhile isWordCharacter) = none) :
    pairs t = pairs (rest.dropWhile isWordCharacter) := by
  rw [pairs]
  split
  · simp_all
  · next c' rest' heq =>
      rw [h, List.cons.injEq] at heq
      obtain ⟨rfl, rfl⟩ := heq
      split <;> simp_all

/-- A carriage return behind the settings makes no difference to their pairs. -/
theorem pairs_concat (t : Text) : pairs (t ++ ['\r']) = pairs t := by
  have hword : ∀ {t : Text} {c rest}, t.dropWhile (!isWordCharacter ·) = c :: rest →
      (t ++ ['\r']).dropWhile (!isWordCharacter ·) = c :: (rest ++ ['\r']) := by
    intro t c rest h
    rw [List.dropWhile_append, h, if_neg (by simp), List.cons_append]
  -- The cases are those of the scan: no word is left, a word with a value, a word without one.
  induction t using pairs.induct with
  | case1 t h =>
      rw [pairs_of_no_word h, pairs_of_no_word]
      rw [List.dropWhile_append, h]
      simp [not_isWordCharacter_return]
  | case2 t c rest h value after hvalue ih =>
      have hvalue' := valueBehind?_concat (rest.dropWhile isWordCharacter)
      rw [hvalue, Option.map_some, ← dropWhile_concat not_isWordCharacter_return] at hvalue'
      rw [pairs_of_value (hword h) hvalue', pairs_of_value h hvalue, ih,
        takeWhile_concat not_isWordCharacter_return]
  | case3 t c rest h hvalue ih =>
      have hvalue' := valueBehind?_concat (rest.dropWhile isWordCharacter)
      rw [hvalue, Option.map_none, ← dropWhile_concat not_isWordCharacter_return] at hvalue'
      rw [pairs_of_no_value (hword h) hvalue', pairs_of_no_value h hvalue,
        dropWhile_concat not_isWordCharacter_return, ih]

/-! ### Marks -/

lemma isPrefixOf_mark_concat (t : Text) : mark.isPrefixOf (t ++ ['\r']) = mark.isPrefixOf t := by
  have hmark : '\r' ∉ mark := by decide
  rw [Bool.eq_iff_iff, List.isPrefixOf_iff_prefix, List.isPrefixOf_iff_prefix,
    List.prefix_concat_iff]
  refine or_iff_right fun h => hmark ?_
  rw [h]
  simp

/-- The text behind the last mark has the carriage return behind it as well. -/
lemma behindLastMark_concat (found : Option Text) (previous : Char) (t : Text) :
    behindLastMark (found.map (· ++ ['\r'])) previous (t ++ ['\r']) =
      (behindLastMark found previous t).map (· ++ ['\r']) := by
  induction t generalizing found previous with
  | nil => rfl
  | cons c t ih =>
      have hprefix := isPrefixOf_mark_concat (c :: t)
      rw [List.cons_append] at hprefix
      rw [List.cons_append, behindLastMark, behindLastMark, hprefix]
      split
      · next hmark =>
          -- The mark is in the text, so its end is not behind the text.
          have hlength : 3 ≤ t.length := by
            rw [Bool.and_eq_true, List.isPrefixOf_iff_prefix] at hmark
            have := hmark.1.length_le
            simp [mark] at this
            omega
          rw [← ih, Option.map_some, List.drop_append_of_le_length (by simpa [mark] using hlength)]
      · exact ih found c

/-- The settings behind a mark end at a parenthesis, or with the carriage return. -/
lemma pairs_settings_concat (rest : Text) :
    pairs ((Text.trimStart (rest ++ ['\r'])).takeWhile (· != ')')) =
      pairs ((Text.trimStart rest).takeWhile (· != ')')) := by
  rw [trimStart_concat Text.isBlank_return]
  split
  · next hblank => rw [hblank]
  · rw [List.takeWhile_append]
    split
    · next hall =>
        rw [(List.takeWhile_prefix _).eq_of_length hall]
        exact pairs_concat _
    · rfl

/-- The settings of a line with a carriage return behind it have the same pairs. -/
theorem settingsText?_concat (line : Text) :
    (settingsText? (line ++ ['\r'])).map pairs = (settingsText? line).map pairs := by
  rw [settingsText?, settingsText?, trimStart_concat Text.isBlank_return]
  cases h : Text.trimStart line with
  | nil => rfl
  | cons c t =>
      rw [if_neg (by simp), List.cons_append]
      dsimp only
      split
      · have hmark := behindLastMark_concat none c t
        rw [Option.map_none] at hmark
        rw [hmark, Option.map_map, Option.map_map, Option.map_map]
        exact congrArg (Option.map · _) (funext pairs_settings_concat)
      · rfl

/-! ### The window -/

/-- The pairs of the first modeline of a program, if it has one. -/
def pairs? (program : Text) : Option (List (Text × Text)) :=
  (find? program).map pairs

lemma layer?_eq (program : Text) :
    layer? program = (pairs? program).map fun ps => ps.foldl addPair {} := by
  rw [layer?, pairs?, Option.map_map]
  rfl

lemma notices_eq (program : Text) :
    notices program = ((pairs? program).map fun ps => ps.filterMap pairNotice?).getD [] := by
  rw [notices, pairs?, Option.map_map]
  rfl

/-- What the lines of the window are read as depends on what each line is read as. -/
lemma map_window_congr {α : Type} {read : Text → α} {lines lines' : List Text}
    (h : lines.map read = lines'.map read) :
    (window lines).map read = (window lines').map read := by
  have hlength : lines.length = lines'.length := by simpa using congrArg List.length h
  rw [window, window, hlength]
  split
  · exact h
  · rw [List.map_append, List.map_append, List.map_take, List.map_take, List.map_drop,
      List.map_drop, h]

/-- A line and the same line read to its carriage return have the same pairs. -/
lemma pairs_withoutReturn (line : Text) :
    (settingsText? (Text.withoutReturn line)).map pairs = (settingsText? line).map pairs := by
  rw [Text.withoutReturn]
  split
  · next h => rw [← settingsText?_concat, List.dropLast_append_getLast? _ h]
  · rfl

lemma withoutReturn_concat (line : Text) : Text.withoutReturn (line ++ ['\r']) = line := by
  simp [Text.withoutReturn]

/-- The lines that end with a line feed lose one carriage return; two line ends that differ in it are
read alike. -/
lemma map_terminatedLines_withReturns (program : Text) :
    (Text.terminatedLines (Text.withReturns program)).map (fun line => (settingsText? line).map pairs) =
      (Text.terminatedLines program).map (fun line => (settingsText? line).map pairs) := by
  rw [Text.terminatedLines, Text.terminatedLines, Text.lines_withReturns]
  cases hlast : program.lines.getLast? with
  | none => exact absurd (List.getLast?_eq_none_iff.mp hlast) (Text.pieces_ne_nil '\n' program)
  | some last =>
      rw [Option.toList_some, List.dropLast_concat, List.getLast?_concat, List.map_append,
        List.map_append, List.map_map, List.map_map, List.map_map]
      congr 1
      refine List.map_congr_left fun line _ => ?_
      rw [Function.comp_apply, Function.comp_apply, Function.comp_apply, withoutReturn_concat,
        pairs_withoutReturn]

lemma pairs?_eq (program : Text) : pairs? program =
    ((window (Text.terminatedLines program)).map fun line => (settingsText? line).map pairs).findSome?
      id := by
  rw [pairs?, find?, List.map_findSome?, List.findSome?_map]
  rfl

/-- **Carriage returns in front of line feeds** change nothing in the pairs of the modeline. -/
theorem pairs?_withReturns (program : Text) :
    pairs? (Text.withReturns program) = pairs? program := by
  rw [pairs?_eq, pairs?_eq, map_window_congr (map_terminatedLines_withReturns program)]

theorem layer?_withReturns (program : Text) :
    layer? (Text.withReturns program) = layer? program := by
  rw [layer?_eq, layer?_eq, pairs?_withReturns]

theorem notices_withReturns (program : Text) :
    notices (Text.withReturns program) = notices program := by
  rw [notices_eq, notices_eq, pairs?_withReturns]

end DrillCycles.Modeline
