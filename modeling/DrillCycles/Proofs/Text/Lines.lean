import DrillCycles.Text.Basic
import Mathlib.Tactic.Common

/-!
# Joined lines

`Text.pieces` is the library's `List.splitOn`, so that the laws of the latter are at hand.  The lines
of a text hold no line feed (`not_mem_of_mem_lines`), and lines without line feeds that are joined by
line feeds are the lines of the joined text (`lines_intercalate`).  With a line feed behind each, they
are found again too, in both readings of a line feed (`lines_unlines`, `terminatedLines_unlines`).
-/

namespace DrillCycles.Text

lemma pieces_eq_splitOn (separator : Char) (t : Text) :
    pieces separator t = t.splitOn separator := by
  induction t with
  | nil => simp
  | cons c t ih =>
      rw [pieces_cons, ih, List.splitOn_cons_eq_if_modifyHead]
      cases h : t.splitOn separator with
      | nil => exact absurd h (List.splitOn_ne_nil separator t)
      | cons piece rest => simp [consPiece]

/-- A piece between separators holds no separator. -/
lemma not_mem_of_mem_pieces {separator : Char} {t piece : Text}
    (h : piece ∈ pieces separator t) : separator ∉ piece := by
  induction t generalizing piece with
  | nil =>
      rw [pieces_nil, List.mem_singleton] at h
      simp [h]
  | cons c t ih =>
      rw [pieces_cons] at h
      cases hp : pieces separator t with
      | nil => exact absurd hp (pieces_ne_nil separator t)
      | cons first rest =>
          rw [hp] at h ih
          simp only [consPiece] at h
          split_ifs at h with hc
          · rcases List.mem_cons.mp h with rfl | h
            · simp
            · exact ih h
          · rcases List.mem_cons.mp h with rfl | h
            · simp only [List.mem_cons, not_or]
              exact ⟨Ne.symm hc, ih (by simp)⟩
            · exact ih (by simp [h])

lemma not_mem_of_mem_lines {t line : Text} (h : line ∈ lines t) : '\n' ∉ line :=
  not_mem_of_mem_pieces h

/-- A line feed that ends a line is no part of it. -/
lemma not_mem_of_mem_terminatedLines {t line : Text} (h : line ∈ terminatedLines t) : '\n' ∉ line := by
  rw [terminatedLines, List.mem_append] at h
  rcases h with h | h
  · obtain ⟨whole, hwhole, rfl⟩ := List.mem_map.mp h
    have hfree := not_mem_of_mem_lines (List.dropLast_subset _ hwhole)
    rw [withoutReturn]
    split
    · exact fun hmem => hfree (List.dropLast_subset _ hmem)
    · exact hfree
  · have hlast := Option.mem_toList.mp (List.mem_filter.mp h).1
    exact not_mem_of_mem_lines (List.mem_of_getLast? hlast)

/-- A separator between two texts ends the last piece of the first one. -/
lemma pieces_append_cons (separator : Char) (before after : Text) :
    pieces separator (before ++ separator :: after) =
      pieces separator before ++ pieces separator after := by
  induction before with
  | nil =>
      cases h : pieces separator after with
      | nil => exact absurd h (pieces_ne_nil separator after)
      | cons piece rest => simp [h, consPiece]
  | cons c before ih =>
      rw [List.cons_append, pieces_cons, ih, pieces_cons]
      cases h : pieces separator before with
      | nil => exact absurd h (pieces_ne_nil separator before)
      | cons piece rest =>
          simp only [List.cons_append, consPiece]
          split <;> rfl

lemma lines_append (before after : Text) :
    lines (before ++ '\n' :: after) = lines before ++ lines after :=
  pieces_append_cons '\n' before after

/-- A text is its pieces, joined by the separator. -/
lemma intercalate_pieces (separator : Char) (t : Text) :
    List.intercalate [separator] (pieces separator t) = t := by
  rw [pieces_eq_splitOn]
  exact List.intercalate_splitOn separator

/-- Pieces that are joined by the separator are found again. -/
lemma pieces_intercalate {separator : Char} {ps : List Text} (hne : ps ≠ [])
    (h : ∀ piece ∈ ps, separator ∉ piece) : pieces separator (List.intercalate [separator] ps) = ps := by
  rw [pieces_eq_splitOn]
  exact List.splitOn_intercalate separator h hne

lemma pieces_of_not_mem {separator : Char} {t : Text} (h : separator ∉ t) :
    pieces separator t = [t] := by
  have hpiece : ∀ piece ∈ [t], separator ∉ piece := by simpa using h
  simpa using pieces_intercalate (by simp) hpiece

lemma intercalate_lines (t : Text) : List.intercalate ['\n'] (lines t) = t :=
  intercalate_pieces '\n' t

lemma lines_intercalate {ls : List Text} (hne : ls ≠ []) (h : ∀ line ∈ ls, '\n' ∉ line) :
    lines (List.intercalate ['\n'] ls) = ls :=
  pieces_intercalate hne h

/-! ### Lines with a line feed behind each -/

@[simp] lemma unlines_cons (line : Text) (ls : List Text) :
    unlines (line :: ls) = line ++ '\n' :: unlines ls := by
  rw [unlines, List.flatMap_cons, List.append_assoc]
  rfl

lemma lines_of_not_mem {line : Text} (h : '\n' ∉ line) : lines line = [line] :=
  pieces_of_not_mem h

/-- Lines that are ended by line feeds are found again, and behind them an empty rest. -/
lemma lines_unlines {ls : List Text} (h : ∀ line ∈ ls, '\n' ∉ line) :
    lines (unlines ls) = ls ++ [[]] := by
  induction ls with
  | nil => rfl
  | cons line ls ih =>
      rw [unlines_cons, lines_append, lines_of_not_mem (h line List.mem_cons_self),
        ih fun other hmem => h other (List.mem_cons_of_mem _ hmem)]
      rfl

/-- There are as many line feeds as lines. -/
lemma count_newline_unlines {ls : List Text} (h : ∀ line ∈ ls, '\n' ∉ line) :
    (unlines ls).count '\n' = ls.length := by
  induction ls with
  | nil => rfl
  | cons line ls ih =>
      rw [unlines_cons, List.count_append, List.count_cons_self,
        List.count_eq_zero.mpr (h line List.mem_cons_self),
        ih fun other hmem => h other (List.mem_cons_of_mem _ hmem), Nat.zero_add, List.length_cons]

/-- A line that ends with no carriage return loses nothing at its line feed. -/
lemma withoutReturn_of_ne {line : Text} (h : line.getLast? ≠ some '\r') :
    withoutReturn line = line := if_neg h

/-- Lines without line ends in them are found again when line feeds end lines. -/
lemma terminatedLines_unlines {ls : List Text} (hunbroken : ∀ line ∈ ls, '\n' ∉ line)
    (hreturn : ∀ line ∈ ls, line.getLast? ≠ some '\r') : terminatedLines (unlines ls) = ls := by
  rw [terminatedLines, lines_unlines hunbroken, List.dropLast_concat, List.getLast?_concat,
    List.map_congr_left fun line hmem => withoutReturn_of_ne (hreturn line hmem)]
  simp

end DrillCycles.Text
