import DrillCycles.Output
import Mathlib.Data.List.Destutter
import Mathlib.Tactic.Common

/-!
# What suppression leaves

Writing a list of lines with suppression collapses every run of equal adjacent lines to one copy,
which is the library's `List.destutter` for `≠`.  From there follow the laws of a written output: it
is a sublist of what was written (`collect_sublist`), and writing it again changes nothing
(`collect_collect`).  **`collect_header_append`** says what happens to lines behind a header.
-/

namespace DrillCycles.Output

variable {suppress : Bool} {line : Text} {lines : List Text}

lemma foldl_emit_false (output : Output) (lines : List Text) :
    (lines.foldl (emit false) output).lines.toList = output.lines.toList ++ lines := by
  induction lines generalizing output with
  | nil => simp
  | cons line lines ih =>
      rw [List.foldl_cons, ih]
      simp [emit]

/-- The last line written stands for all lines before it: what follows is collapsed behind it. -/
lemma foldl_emit_true (kept : Array Text) (line : Text) (lines : List Text) :
    (lines.foldl (emit true) ⟨some line, kept.push line⟩).lines.toList =
      kept.toList ++ lines.destutter' (· ≠ ·) line := by
  induction lines generalizing kept line with
  | nil => simp
  | cons next lines ih =>
      by_cases h : line = next
      · subst h
        have hemit : emit true ⟨some line, kept.push line⟩ line = ⟨some line, kept.push line⟩ := by
          simp [emit]
        rw [List.foldl_cons, hemit, ih, List.destutter'_cons_neg _ (by simp)]
      · have hemit : emit true ⟨some line, kept.push line⟩ next =
            ⟨some next, (kept.push line).push next⟩ := by
          simp [emit, h]
        rw [List.foldl_cons, hemit, ih, List.destutter'_cons_pos _ h]
        simp

@[simp] lemma collect_false (lines : List Text) : collect false lines = lines := by
  rw [collect, foldl_emit_false]
  rfl

lemma collect_true (lines : List Text) : collect true lines = lines.destutter (· ≠ ·) := by
  cases lines with
  | nil => rfl
  | cons line lines =>
      have hemit : emit true {} line = ⟨some line, #[].push line⟩ := by
        simp [emit]
      rw [collect, List.foldl_cons, hemit, foldl_emit_true, List.destutter_cons']
      rfl

lemma collect_sublist (suppress : Bool) (lines : List Text) :
    (collect suppress lines).Sublist lines := by
  cases suppress with
  | false => rw [collect_false]
  | true => rw [collect_true]; exact List.destutter_sublist _ _

/-- A written output can be written again. -/
@[simp] lemma collect_collect (suppress : Bool) (lines : List Text) :
    collect suppress (collect suppress lines) = collect suppress lines := by
  cases suppress with
  | false => rw [collect_false]
  | true => rw [collect_true, collect_true, List.destutter_idem]

/-! ### Lines behind a header -/

/-- What is left of `lines` when a line stands before them: a first line that repeats it is dropped,
if repetitions are suppressed. -/
def withoutRepeat (suppress : Bool) (line : Text) (lines : List Text) : List Text :=
  if suppress && lines.head? == some line then lines.tail else lines

lemma exists_destutter'_eq_cons (line : Text) (lines : List Text) :
    ∃ rest, lines.destutter' (· ≠ ·) line = line :: rest := by
  induction lines with
  | nil => exact ⟨[], rfl⟩
  | cons next lines ih =>
      by_cases h : line = next
      · obtain ⟨rest, hrest⟩ := ih
        exact ⟨rest, by rw [List.destutter'_cons_neg _ (by simpa using h), hrest]⟩
      · exact ⟨_, List.destutter'_cons_pos _ h⟩

/-- Collapsing behind a line is collapsing, and then dropping a first line that repeats it. -/
lemma destutter'_eq_cons_withoutRepeat (line : Text) (lines : List Text) :
    lines.destutter' (· ≠ ·) line =
      line :: withoutRepeat true line (lines.destutter (· ≠ ·)) := by
  cases lines with
  | nil => rfl
  | cons next lines =>
      obtain ⟨rest, hrest⟩ := exists_destutter'_eq_cons next lines
      rw [List.destutter_cons', hrest]
      by_cases h : line = next
      · subst h
        rw [List.destutter'_cons_neg _ (by simp), hrest]
        simp [withoutRepeat]
      · rw [List.destutter'_cons_pos _ h, hrest]
        simp [withoutRepeat, Ne.symm h]

lemma destutter'_append_of_isChain {first last : Text} {rest : List Text} (lines : List Text)
    (h : (first :: rest).IsChain (· ≠ ·)) (hlast : (first :: rest).getLast? = some last) :
    (rest ++ lines).destutter' (· ≠ ·) first =
      first :: rest ++ withoutRepeat true last (lines.destutter (· ≠ ·)) := by
  induction rest generalizing first with
  | nil =>
      obtain rfl : first = last := Option.some.inj hlast
      exact destutter'_eq_cons_withoutRepeat first lines
  | cons next rest ih =>
      obtain ⟨hne, hrest⟩ := List.isChain_cons_cons.mp h
      rw [List.getLast?_cons_cons] at hlast
      rw [List.cons_append, List.destutter'_cons_pos _ hne, ih hrest hlast]
      rfl

/-- **Lines behind a header.**  A header without repetitions is written as it is.  Of the lines behind
it everything is written that would be written without the header, except a first line that repeats
the last line of the header. -/
theorem collect_header_append {header : List Text} {last : Text} (suppress : Bool)
    (lines : List Text) (h : header.IsChain (· ≠ ·)) (hlast : header.getLast? = some last) :
    collect suppress (header ++ lines) =
      header ++ withoutRepeat suppress last (collect suppress lines) := by
  cases suppress with
  | false => simp [withoutRepeat]
  | true =>
      cases header with
      | nil => simp at hlast
      | cons first rest =>
          rw [collect_true, collect_true, List.cons_append, List.destutter_cons',
            destutter'_append_of_isChain lines h hlast]

end DrillCycles.Output
