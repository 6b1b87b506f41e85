import DrillCycles.Proofs.Cycle.Run
import DrillCycles.Proofs.Modeline.LineEnds
import DrillCycles.Proofs.Tag.Occurrence
import DrillCycles.Statistics
import Mathlib.Data.List.Forall2

/-!
# The layout of a program

Four readers look at the text of a program, and each has its own idea of a line: the scanner cuts at
line feeds and trims, the counts search the whole text, and the modeline takes a carriage return as a
part of the line end.  **`layout_irrelevant`** says that they agree where it matters.  With other line
ends all four find the same, and blanks around lines change nothing in the expansion.
-/

namespace DrillCycles

open DrillCycles.Cycle

variable {settings : Settings} {tag : Tag} {t : Text}

/-! ### The scanner -/

namespace Cycle.State

/-- A step begins with trimming its line. -/
lemma step_trim (s : State) (line : Text) : s.step line.trim = s.step line := by
  simp only [step, Text.trim_trim]

lemma expansions_map_trim (s : State) (lines : List Text) :
    s.expansions (lines.map Text.trim) = s.expansions lines := by
  induction lines generalizing s with
  | nil => rfl
  | cons line lines ih =>
      rw [List.map_cons, expansions_cons, expansions_cons, step_trim, ih]

end Cycle.State

/-- Programs whose trimmed lines are the same are expanded in the same way. -/
theorem expand_congr {program program' : Text}
    (h : program.lines.map Text.trim = program'.lines.map Text.trim) :
    expand settings program = expand settings program' := by
  rw [expand, expand, expandLines, expandLines, ← State.expansions_map_trim, h,
    State.expansions_map_trim]

lemma map_trim_withReturns (program : Text) :
    (Text.withReturns program).lines.map Text.trim = program.lines.map Text.trim := by
  refine Text.map_lines_withReturns (fun line => ?_) program
  exact Text.trim_append_of_isBlank (List.forall_mem_nil _)
    (List.forall_mem_singleton.mpr Text.isBlank_return) line

lemma map_trim_of_isPadding {lines padded : List Text} (h : List.Forall₂ Text.IsPadding lines padded) :
    padded.map Text.trim = lines.map Text.trim := by
  induction h with
  | nil => rfl
  | cons hline _ ih => rw [List.map_cons, List.map_cons, Text.trim_of_isPadding hline, ih]

lemma lines_intercalate_of_isPadding {program : Text} {padded : List Text}
    (h : List.Forall₂ Text.IsPadding program.lines padded) :
    Text.lines (List.intercalate ['\n'] padded) = padded := by
  refine Text.lines_intercalate ?_ fun line hline => ?_
  · rintro rfl
    exact Text.pieces_ne_nil '\n' program (List.forall₂_nil_right_iff.mp h)
  · obtain ⟨k, hk, rfl⟩ := List.mem_iff_getElem.mp hline
    have hlength := h.length_eq
    exact Text.not_mem_newline_of_isPadding (h.get (hlength ▸ hk) hk)
      (Text.not_mem_of_mem_lines (List.getElem_mem _))

/-! ### The counts -/

namespace Tag

/-- A code stands in front of a line end whatever the line end is. -/
lemma endsBefore_withReturns (t : Text) : endsBefore (Text.withReturns t) = endsBefore t := by
  cases t with
  | nil => rfl
  | cons c t =>
      by_cases hc : c = '\n'
      · subst hc
        rfl
      · rw [Text.withReturns_cons hc]
        rfl

/-- No code reaches over a line end. -/
lemma heads_withReturns (tag : Tag) (t : Text) :
    tag.heads (Text.withReturns t) = tag.heads t := by
  have hcode : '\r' ∉ tag.code ∧ '\n' ∉ tag.code := by cases tag <;> decide
  rw [Bool.eq_iff_iff, heads_iff, heads_iff]
  constructor
  · rintro ⟨after, h, hends⟩
    obtain ⟨after', rfl, rfl⟩ := Text.exists_of_withReturns_eq_append hcode.1 h
    exact ⟨after', rfl, by rwa [endsBefore_withReturns] at hends⟩
  · rintro ⟨after, rfl, hends⟩
    exact ⟨_, Text.withReturns_append hcode.2 after, by rwa [endsBefore_withReturns]⟩

lemma countFrom_withReturns (tag : Tag) (counted : ℕ) (t : Text) :
    tag.countFrom counted (Text.withReturns t) = tag.countFrom counted t := by
  induction t generalizing counted with
  | nil => rfl
  | cons c t ih =>
      by_cases hc : c = '\n'
      · subst hc
        rw [Text.withReturns_newline, countFrom, if_neg (not_heads_of_ne (by decide)), countFrom,
          if_neg (not_heads_of_ne (by decide)), ih, countFrom, if_neg (not_heads_of_ne (by decide))]
      · have hheads := heads_withReturns tag (c :: t)
        rw [Text.withReturns_cons hc] at hheads
        rw [Text.withReturns_cons hc, countFrom, hheads, ih, countFrom]

lemma count_withReturns (candidates : List Tag) (t : Text) :
    count candidates (Text.withReturns t) = count candidates t := by
  simp only [count, countFrom_withReturns]

end Tag

lemma Text.charCount_withReturns (t : Text) : (Text.withReturns t).charCount = t.charCount := by
  induction t with
  | nil => rfl
  | cons c t ih =>
      simp only [charCount] at ih ⊢
      by_cases hc : c = '\n'
      · subst hc
        simp [ih]
      · rw [withReturns_cons hc, List.countP_cons, List.countP_cons, ih]

lemma Text.length_lines_withReturns (t : Text) :
    (Text.withReturns t).lines.length = t.lines.length := by
  have hmap : (Text.withReturns t).lines.map (fun _ => ()) = t.lines.map fun _ => () :=
    map_lines_withReturns (fun _ => rfl) t
  simpa using congrArg List.length hmap

lemma Statistics.ofProgram_withReturns (program : Text) :
    ofProgram (Text.withReturns program) = ofProgram program := by
  simp only [ofProgram, Text.charCount_withReturns, Text.length_lines_withReturns,
    Tag.count_withReturns]

/-! ### All four -/

/-- **The layout of a program does not matter.**  Carriage returns in front of all line feeds change
nothing in the expansion, in the counts, and in what the modeline sets and is reported for.  Blanks
other than line feeds at the two ends of lines change nothing in the expansion. -/
theorem layout_irrelevant (settings : Settings) (program : Text) :
    expand settings (Text.withReturns program) = expand settings program ∧
    (∀ padded : List Text, List.Forall₂ Text.IsPadding program.lines padded →
      expand settings (List.intercalate ['\n'] padded) = expand settings program) ∧
    Statistics.ofProgram (Text.withReturns program) = Statistics.ofProgram program ∧
    Modeline.layer? (Text.withReturns program) = Modeline.layer? program ∧
    Modeline.notices (Text.withReturns program) = Modeline.notices program := by
  refine ⟨expand_congr (map_trim_withReturns program), fun padded hpadded => ?_,
    Statistics.ofProgram_withReturns program, Modeline.layer?_withReturns program,
    Modeline.notices_withReturns program⟩
  refine expand_congr ?_
  rw [lines_intercalate_of_isPadding hpadded, map_trim_of_isPadding hpadded]

/-- A drilled hole, and the same lines with a tabulator, an ideographic space, a lone carriage return
and a line separator around them. -/
theorem layout_irrelevant_indentedHole :
    List.Forall₂ Text.IsPadding (Text.lines "G99\nG81 X1 Z-1 R1 F10\n".toList)
      ["\tG99\x0d".toList, "\u3000G81 X1 Z-1 R1 F10\u2028".toList, " \x0d ".toList] ∧
    expand {} (List.intercalate ['\n'] ["\tG99\x0d".toList,
      "\u3000G81 X1 Z-1 R1 F10\u2028".toList, " \x0d ".toList]) =
      expand {} "G99\nG81 X1 Z-1 R1 F10\n".toList := by
  have hpadded : List.Forall₂ Text.IsPadding (Text.lines "G99\nG81 X1 Z-1 R1 F10\n".toList)
      ["\tG99\x0d".toList, "\u3000G81 X1 Z-1 R1 F10\u2028".toList, " \x0d ".toList] := by
    have hword : Text.IsPadding "G99".toList ("\t".toList ++ "G99".toList ++ "\r".toList) :=
      Text.isPadding_of_all (by decide) _
    have hhole : Text.IsPadding "G81 X1 Z-1 R1 F10".toList
        ("\u3000".toList ++ "G81 X1 Z-1 R1 F10".toList ++ "\u2028".toList) :=
      Text.isPadding_of_all (by decide) _
    have hblank : Text.IsPadding [] (" \r ".toList ++ [] ++ []) :=
      Text.isPadding_of_all (by decide) _
    exact .cons hword (.cons hhole (.cons hblank .nil))
  exact ⟨hpadded, (layout_irrelevant {} _).2.1 _ hpadded⟩

end DrillCycles
