import DrillCycles.Proofs.Text.Trim
import DrillCycles.Proofs.Text.Lines

/-!
# Texts with another layout

Two ways to write the same lines: with carriage returns in front of the line feeds
(`Text.withReturns`), and with blanks around a line (`Text.IsPadding`).  What is the same about the
two texts is said here for the lines alone: the first puts a carriage return behind every line but the
last (`lines_withReturns`), and the second is lost to trimming (`trim_of_isPadding`).
-/

namespace DrillCycles.Text

variable {t line padded : Text}

/-! ### Line ends -/

/-- A text with a carriage return in front of every line feed. -/
def withReturns (t : Text) : Text :=
  t.flatMap fun c => if c = '\n' then ['\r', '\n'] else [c]

@[simp] lemma withReturns_nil : withReturns [] = [] := rfl

@[simp] lemma withReturns_newline (t : Text) :
    withReturns ('\n' :: t) = '\r' :: '\n' :: withReturns t := rfl

lemma withReturns_cons {c : Char} (h : c ≠ '\n') (t : Text) :
    withReturns (c :: t) = c :: withReturns t := by
  simp [withReturns, h]

/-- A character other than a carriage return that starts the text with returns starts the text. -/
lemma exists_of_withReturns_eq_cons {c : Char} {rest : Text} (h : withReturns t = c :: rest)
    (hc : c ≠ '\r') : ∃ rest', t = c :: rest' ∧ rest = withReturns rest' := by
  cases t with
  | nil => simp at h
  | cons d t =>
      by_cases hd : d = '\n'
      · subst hd
        rw [withReturns_newline, List.cons.injEq] at h
        exact absurd h.1.symm hc
      · rw [withReturns_cons hd, List.cons.injEq] at h
        exact ⟨t, by rw [h.1], h.2.symm⟩

/-- A text without line ends in front stays as it is. -/
lemma withReturns_append {front : Text} (h : '\n' ∉ front) (t : Text) :
    withReturns (front ++ t) = front ++ withReturns t := by
  induction front with
  | nil => rfl
  | cons c front ih =>
      simp only [List.mem_cons, not_or] at h
      rw [List.cons_append, withReturns_cons (Ne.symm h.1), ih h.2, List.cons_append]

/-- Without carriage returns, what the text with returns starts with is what the text starts with. -/
lemma exists_of_withReturns_eq_append {front rest : Text} (hfront : '\r' ∉ front)
    (h : withReturns t = front ++ rest) :
    ∃ rest', t = front ++ rest' ∧ rest = withReturns rest' := by
  induction front generalizing t with
  | nil => exact ⟨t, rfl, h.symm⟩
  | cons c front ih =>
      simp only [List.mem_cons, not_or] at hfront
      obtain ⟨t', rfl, ht'⟩ := exists_of_withReturns_eq_cons h (Ne.symm hfront.1)
      obtain ⟨rest', rfl, hrest'⟩ := ih hfront.2 ht'.symm
      exact ⟨rest', rfl, hrest'⟩

/-! ### Lines of a text with returns -/

lemma lines_newline (t : Text) : lines ('\n' :: t) = [] :: lines t := by
  rw [lines, pieces_cons, ← lines]
  cases h : lines t with
  | nil => exact absurd h (pieces_ne_nil '\n' t)
  | cons first rest => simp [consPiece]

lemma lines_cons {c : Char} (hc : c ≠ '\n') {first : Text} {rest : List Text}
    (h : lines t = first :: rest) : lines (c :: t) = (c :: first) :: rest := by
  rw [lines, pieces_cons, ← lines, h]
  simp [consPiece, hc]

/-- Carriage returns are put behind all lines but the last one. -/
theorem lines_withReturns (t : Text) : lines (withReturns t) =
    (lines t).dropLast.map (· ++ ['\r']) ++ (lines t).getLast?.toList := by
  induction t with
  | nil => rfl
  | cons c t ih =>
      cases h : lines t with
      | nil => exact absurd h (pieces_ne_nil '\n' t)
      | cons first rest =>
          by_cases hc : c = '\n'
          · subst hc
            have hreturn : lines ('\r' :: '\n' :: withReturns t) = ['\r'] :: lines (withReturns t) :=
              lines_cons (by decide) (lines_newline _)
            rw [withReturns_newline, hreturn, ih, lines_newline, h]
            simp
          · rw [withReturns_cons hc, lines_cons hc h]
            rw [h] at ih
            -- The first line has a return behind it exactly if there is a second one.
            cases rest with
            | nil => simpa using lines_cons hc ih
            | cons second rest => simpa using lines_cons hc ih

/-- A reading of lines that does not see the carriage return at the end reads the same lines. -/
theorem map_lines_withReturns {α : Type} {read : Text → α}
    (h : ∀ line, read (line ++ ['\r']) = read line) (t : Text) :
    (lines (withReturns t)).map read = (lines t).map read := by
  rw [lines_withReturns, List.map_append, List.map_map]
  cases hlast : (lines t).getLast? with
  | none => exact absurd (List.getLast?_eq_none_iff.mp hlast) (pieces_ne_nil '\n' t)
  | some last =>
      calc (lines t).dropLast.map (read ∘ (· ++ ['\r'])) ++ [last].map read
          = (lines t).dropLast.map read ++ [last].map read :=
            congrArg (· ++ _) (List.map_congr_left fun line _ => h line)
        _ = ((lines t).dropLast ++ [last]).map read := List.map_append.symm
        _ = (lines t).map read := by rw [List.dropLast_append_getLast? last hlast]

/-! ### Blanks around a line -/

/-- A line with blanks added at its two ends.  A line feed is no such blank. -/
def IsPadding (line padded : Text) : Prop :=
  ∃ before after : Text, padded = before ++ line ++ after ∧
    ∀ c ∈ before ++ after, isBlank c = true ∧ c ≠ '\n'

lemma isBlank_return : isBlank '\r' = true := by decide

/-- The blanks can be checked one by one. -/
lemma isPadding_of_all {before after : Text}
    (h : (before ++ after).all (fun c => isBlank c && c != '\n') = true) (line : Text) :
    IsPadding line (before ++ line ++ after) := by
  refine ⟨before, after, rfl, fun c hc => ?_⟩
  simpa using List.all_eq_true.mp h c hc

lemma trimStart_append_of_isBlank {before : Text} (h : ∀ c ∈ before, isBlank c = true) (t : Text) :
    trimStart (before ++ t) = trimStart t :=
  List.dropWhile_append_of_pos h

lemma trimEnd_append_of_isBlank {after : Text} (h : ∀ c ∈ after, isBlank c = true) (t : Text) :
    trimEnd (t ++ after) = trimEnd t := by
  rw [trimEnd, trimEnd, List.reverse_append, List.dropWhile_append_of_pos]
  intro c hc
  exact h c (List.mem_reverse.mp hc)

/-- Trimming does not see the blanks around a text. -/
lemma trim_append_of_isBlank {before after : Text} (hbefore : ∀ c ∈ before, isBlank c = true)
    (hafter : ∀ c ∈ after, isBlank c = true) (t : Text) : trim (before ++ t ++ after) = trim t := by
  rw [List.append_assoc, trim, trimStart_append_of_isBlank hbefore, trim]
  by_cases hblank : trimStart t = []
  · -- All of the text is blank, and trimming at the start takes what follows as well.
    have hall : ∀ c ∈ t ++ after, isBlank c = true := by
      intro c hc
      rcases List.mem_append.mp hc with hc | hc
      · exact List.dropWhile_eq_nil_iff.mp hblank c hc
      · exact hafter c hc
    rw [hblank, trimStart, List.dropWhile_eq_nil_iff.mpr hall]
  · have hstart : trimStart (t ++ after) = trimStart t ++ after := by
      rw [trimStart, trimStart, List.dropWhile_append, if_neg]
      rwa [List.isEmpty_iff]
    rw [hstart, trimEnd_append_of_isBlank hafter]

lemma trim_of_isPadding (h : IsPadding line padded) : trim padded = trim line := by
  obtain ⟨before, after, rfl, hblank⟩ := h
  refine trim_append_of_isBlank (fun c hc => ?_) (fun c hc => ?_) line
  · exact (hblank c (List.mem_append_left _ hc)).1
  · exact (hblank c (List.mem_append_right _ hc)).1

lemma not_mem_newline_of_isPadding (h : IsPadding line padded) (hline : '\n' ∉ line) :
    '\n' ∉ padded := by
  obtain ⟨before, after, rfl, hblank⟩ := h
  intro hmem
  rw [List.append_assoc, List.mem_append, List.mem_append] at hmem
  rcases hmem with hmem | hmem | hmem
  · exact (hblank _ (List.mem_append_left _ hmem)).2 rfl
  · exact hline hmem
  · exact (hblank _ (List.mem_append_right _ hmem)).2 rfl

end DrillCycles.Text
