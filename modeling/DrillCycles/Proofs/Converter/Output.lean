import DrillCycles.Converter
import DrillCycles.Proofs.Decimal.Text
import DrillCycles.Proofs.Expand.Reconversion

/-!
# The text of a conversion

A converted program is one text, but it is counted in two ways: its lines from the list of lines that
were written, its characters from the text they were joined to.  The two belong together because the
text can be taken apart again, whatever the program is.

* **`isPlain_of_mem_header`** says that the header is made of plain lines at every time, also in years
  that need a sign; for the lines behind it this is known.
* **`isWellFormed_unlines`** takes apart the text of plain lines, **`counts_withOutput`** counts it.
* **`output_wellFormed`** is the conversion of any program.
-/

namespace DrillCycles

open DrillCycles.Cycle

/-! ### The header -/

namespace Instant

variable {names : List String}

lemma not_mem_newline_nameAt (h : ∀ name ∈ names, '\n' ∉ name.toList) (place : ℕ) :
    '\n' ∉ nameAt names place := by
  rw [nameAt, List.getD_eq_getElem?_getD]
  cases hname : names[place]? with
  | none => simp
  | some name => exact h name (List.mem_of_getElem? hname)

lemma not_mem_newline_padded (width n : ℕ) : '\n' ∉ padded width n := by
  intro h
  rw [padded] at h
  rcases List.mem_append.mp h with hzero | hdigit
  · exact absurd (List.eq_of_mem_replicate hzero) (by decide)
  · exact absurd (Decimal.isDigit_of_mem_ofNat hdigit) (by decide)

lemma not_mem_newline_yearText (year : ℤ) : '\n' ∉ yearText year := by
  have hdigits := not_mem_newline_padded 4 year.natAbs
  rw [yearText]
  split
  · simpa using hdigits
  · split <;> simpa using hdigits

/-- A date and time is written in one line. -/
lemma not_mem_newline_text (t : Instant) : '\n' ∉ t.text := by
  have hweekday : '\n' ∉ nameAt weekdayNames t.weekday := not_mem_newline_nameAt (by decide) _
  have hmonth : '\n' ∉ nameAt monthNames (t.date.month - 1) := not_mem_newline_nameAt (by decide) _
  simp [text, hweekday, hmonth, not_mem_newline_padded, not_mem_newline_yearText]

end Instant

/-- A comment in one line is plain. -/
lemma isPlain_comment {t : Text} (h : '\n' ∉ t) : IsPlain ('(' :: (t ++ [')'])) := by
  refine ⟨Text.trim_eq_self ?_ ?_, by simp, by simpa using h⟩
  · intro c hc
    rw [← Option.some.inj hc]
    decide
  · intro c hc
    rw [← List.cons_append, List.getLast?_concat] at hc
    rw [← Option.some.inj hc]
    decide

lemma isPlain_of_mem_header {time : Instant} {line : Text} (h : line ∈ header time) :
    IsPlain line := by
  simp only [header, List.mem_cons, List.not_mem_nil, or_false] at h
  rcases h with rfl | rfl | rfl
  · have htime : '\n' ∉ "Converted on ".toList ++ time.text ++ " GMT".toList := by
      simp [Instant.not_mem_newline_text]
    simpa using isPlain_comment htime
  · exact isPlain_comment (t := "by Canned Drilling Cycles Expander".toList) (by decide)
  · exact isPlain_comment (t := release) (by decide)

/-! ### The text of plain lines -/

/-- **A text that can be taken apart** into these lines, whether its line feeds stand between lines or
at the end of lines. -/
structure IsWellFormed (lines : List Text) (text : Text) : Prop where
  plain : ∀ line ∈ lines, IsPlain line
  /-- Behind the last line feed there is an empty piece. -/
  separated : text.lines = lines ++ [[]]
  terminated : text.terminatedLines = lines

/-- The counts of an output are those of its text. -/
structure Statistics.Counts (s : Statistics) (text : Text) : Prop where
  newlines : s.outputLines = text.count '\n'
  lines : s.outputLines = text.terminatedLines.length
  chars : s.outputChars = (text.filter fun c => c ≠ '\n' ∧ c ≠ '\r').length

variable {lines : List Text}

lemma isWellFormed_unlines (h : ∀ line ∈ lines, IsPlain line) :
    IsWellFormed lines (Text.unlines lines) := by
  have hunbroken : ∀ line ∈ lines, '\n' ∉ line := fun line hmem => (h line hmem).unbroken
  refine ⟨h, Text.lines_unlines hunbroken, Text.terminatedLines_unlines hunbroken ?_⟩
  -- A carriage return is a blank, and no plain line ends with one.
  intro line hmem hreturn
  rw [← (h line hmem).trim] at hreturn
  exact absurd (Text.not_isBlank_getLast_trim hreturn) (by decide)

/-- Counting the list of lines is counting the text. -/
lemma counts_withOutput (s : Statistics) (h : ∀ line ∈ lines, IsPlain line) :
    (s.withOutput lines).Counts (Text.unlines lines) where
  newlines := (Text.count_newline_unlines fun line hmem => (h line hmem).unbroken).symm
  lines := by rw [(isWellFormed_unlines h).terminated]; rfl
  chars := by
    rw [Statistics.withOutput, Text.charCount, List.countP_eq_length_filter]
    refine congrArg List.length (List.filter_congr fun c _ => ?_)
    simp [bne, beq_eq_decide]

/-! ### Conversions -/

lemma Converter.convert_of_convertedLines {c : Converter} {time : Instant}
    (h : c.convertedLines time = .ok lines) : c.convert time =
      .ok (Text.unlines lines, { c with statistics := c.statistics.withOutput lines }) := by
  rw [convert, h]
  rfl

lemma isPlain_of_mem_collect (suppress : Bool) (h : ∀ line ∈ lines, IsPlain line) :
    ∀ line ∈ Output.collect suppress lines, IsPlain line :=
  fun line hmem => h line ((Output.collect_sublist suppress lines).subset hmem)

/-- **The output of every conversion is well-formed, and its counts are right.**  The lines of an
expanded or converted program are trimmed, not empty, and hold no line feed.  Hence the text of a
conversion falls apart at its line feeds into these lines and an empty rest, and the counts that the
converter holds afterwards are those of the text. -/
theorem output_wellFormed (settings : Settings)
    (hserved : Binary64.servable settings.precision = true) (program : Text) :
    (∃ body, expand settings program = .ok body ∧ ∀ line ∈ body, IsPlain line) ∧
    ∀ (c : Converter) (time : Instant), c.settings = settings → c.lines = program.lines →
      ∃ (lines : List Text) (text : Text) (after : Converter),
        c.convertedLines time = .ok lines ∧ c.convert time = .ok (text, after) ∧
        IsWellFormed lines text ∧ after.statistics.Counts text := by
  have hbody : ∀ line ∈ bodyLines settings program.lines, IsPlain line :=
    fun _ => isPlain_of_mem_bodyLines program
  refine ⟨⟨_, expand_eq hserved program, isPlain_of_mem_collect _ hbody⟩, ?_⟩
  rintro c time rfl hlines
  have hplain : ∀ line ∈ header time ++ bodyLines c.settings program.lines, IsPlain line :=
    List.forall_mem_append.mpr ⟨fun _ => isPlain_of_mem_header, hbody⟩
  have hwritten := isPlain_of_mem_collect c.settings.suppressDuplicates hplain
  have hconverted : c.convertedLines time = .ok (Output.collect c.settings.suppressDuplicates
      (header time ++ bodyLines c.settings program.lines)) := by
    rw [Converter.convertedLines, hlines, expandLines_eq hserved]
  exact ⟨_, _, _, hconverted, Converter.convert_of_convertedLines hconverted,
    isWellFormed_unlines hwritten, counts_withOutput c.statistics hwritten⟩

/-- A line with a carriage return in it, a stop line with blanks around what is left of it, and a line
of which nothing is left. -/
def raggedProgram : Text :=
  "M3\rS1 \n\u2003G80 M5\u00A0\r\nG80\r".toList

theorem output_wellFormed_raggedProgram :
    Binary64.servable ({} : Settings).precision = true ∧
    expand {} raggedProgram = .ok ["M3\rS1".toList, "M5".toList] ∧
    ∃ (text : Text) (after : Converter),
      Converter.convert ⟨0, 0⟩ { lines := raggedProgram.lines } = .ok (text, after) ∧
      text.lines = header ⟨0, 0⟩ ++ ["M3\rS1".toList, "M5".toList, []] ∧
      after.statistics.outputLines = 5 ∧ text.count '\n' = 5 := by
  obtain ⟨⟨body, hbody, -⟩, hconvert⟩ := output_wellFormed {} rfl raggedProgram
  obtain ⟨lines, text, after, hlines, htext, hformed, hcounts⟩ :=
    hconvert { lines := raggedProgram.lines } ⟨0, 0⟩ rfl rfl
  obtain rfl : body = ["M3\rS1".toList, "M5".toList] := by
    refine Except.ok.inj (hbody.symm.trans ?_)
    decide
  obtain rfl : lines = header ⟨0, 0⟩ ++ ["M3\rS1".toList, "M5".toList] := by
    refine Except.ok.inj (hlines.symm.trans ?_)
    decide +kernel
  have hnewlines : after.statistics.outputLines = 5 := by
    rw [hcounts.lines, hformed.terminated]
    rfl
  exact ⟨rfl, hbody, text, after, htext, hformed.separated, hnewlines,
    hcounts.newlines.symm.trans hnewlines⟩

end DrillCycles
