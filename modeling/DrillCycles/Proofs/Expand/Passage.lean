import DrillCycles.Proofs.Cycle.History
import DrillCycles.Proofs.Cycle.Isolation
import DrillCycles.Proofs.Tag.Count
import DrillCycles.Statistics

/-!
# Programs without a cycle

The counts of a program are taken from its whole text, before any line is expanded.  Still they say what
the scanner will do: a program whose count of cycles is zero never opens one, and then its lines do
nothing but pass through.

* **`active_run_eq_false_iff`** says that the programs without start lines are all those that stay outside
  a cycle.
* **`expand_of_unstarted`** is what comes out of such a program: its lines without their stop tags.
* **`counts_agree`** puts this together with the counts.
-/

namespace DrillCycles

open DrillCycles.Cycle

namespace Cycle

variable {lines : List Text}

/-- A run stays outside a cycle if and only if it meets no start line. -/
lemma active_run_eq_false_iff :
    (∀ k < lines.length, (State.run {} (lines.take (k + 1))).active = false) ↔
      ∀ line ∈ lines, ¬ IsStart line := by
  have hopen : ∀ k < lines.length,
      ((State.run {} (lines.take (k + 1))).active = false ↔ ¬ OpenAfter lines (k + 1)) := by
    intro k hk
    rw [Bool.eq_false_iff, ne_eq, (recalls_run lines hk).active]
  constructor
  · intro hclosed line hmem hstart
    obtain ⟨k, hk⟩ := List.mem_iff_getElem?.mp hmem
    have hlt := (List.getElem?_eq_some_iff.mp hk).1
    exact (hopen k hlt).mp (hclosed k hlt) ((openAfter_succ_iff hk).mpr (Or.inl hstart))
  · intro hnone k hk
    rw [hopen k hk]
    rintro ⟨j, -, ⟨line, hline, hstart⟩, -⟩
    exact hnone line (List.mem_of_getElem? hline) hstart

end Cycle

/-! ### Programs -/

lemma flatMap_written_remainder (settings : Settings) (texts : List Text) :
    (texts.map Expansion.remainder).flatMap (Expansion.written settings) =
      texts.filter fun text => !text.isEmpty := by
  induction texts with
  | nil => rfl
  | cons text texts ih =>
      rw [List.map_cons, List.flatMap_cons, ih]
      cases text <;> rfl

/-- Texts that pass through can always be written: they have no numbers. -/
lemma renderAll_remainder (settings : Settings) (texts : List Text) :
    renderAll settings (texts.map Expansion.remainder) =
      .ok (texts.filter fun text => !text.isEmpty) := by
  have hserved : (texts.map Expansion.remainder).all (Expansion.isServable settings) = true := by
    rw [List.all_map, List.all_eq_true]
    intro text _
    rw [Function.comp_apply, Expansion.remainder]
    split <;> rfl
  rw [renderAll_eq, if_pos hserved, flatMap_written_remainder]

lemma expand_of_unstarted {settings : Settings} (hplain : settings.suppressDuplicates = false)
    {program : Text} (h : ∀ line ∈ program.lines, ¬ IsStart line) :
    expand settings program =
      .ok ((program.lines.map stopless).filter fun text => !text.isEmpty) := by
  rw [expand_eq_renderAll hplain, expansions_of_unstarted rfl h, ← renderAll_remainder settings,
    List.map_map]
  rfl

lemma map_stopless_of_count_eq_zero {program : Text} (h : Tag.count Tag.stops program = 0) :
    program.lines.map stopless = program.lines.map Text.trim := by
  rw [Tag.count_eq_sum_lines, List.sum_eq_zero_iff] at h
  refine List.map_congr_left fun line hmem => ?_
  have hnone := Tag.count_eq_zero_iff.mp (h _ (List.mem_map_of_mem hmem))
  rw [stopless, Tag.strip_of_not_anyIn hnone, Text.trim_trim]

/-- The count of cycles is zero if no line is a start line. -/
lemma cycles_eq_zero_iff {program : Text} :
    (Statistics.ofProgram program).cycles = 0 ↔ ∀ line ∈ program.lines, ¬ IsStart line := by
  have hcycles : (Statistics.ofProgram program).cycles = Tag.count Tag.starts program := rfl
  rw [hcycles, Tag.count_eq_sum_lines, List.sum_eq_zero_iff, List.forall_mem_map]
  exact forall₂_congr fun line _ => Tag.count_eq_zero_iff

/-- **The counts of a program agree with its expansion.**  Cycles and holes are counted in the whole
text, and the counts are those of its trimmed lines together.  No cycle is counted if and only if no
line of the program leaves a cycle open.  Then the lines come out trimmed and without their stop tags,
less the empty ones; and when no stop tag is counted either, just trimmed, so that a program of trimmed
lines that are not empty comes out as it is. -/
theorem counts_agree (program : Text) :
    (Statistics.ofProgram program).cycles =
      (program.lines.map fun line => Tag.count Tag.starts line.trim).sum ∧
    (Statistics.ofProgram program).holes =
      (program.lines.map fun line => Tag.count Tag.holes line.trim).sum ∧
    ((Statistics.ofProgram program).cycles = 0 ↔ ∀ k < program.lines.length,
      (State.run {} (program.lines.take (k + 1))).active = false) ∧
    ((Statistics.ofProgram program).cycles = 0 → ∀ settings : Settings,
      settings.suppressDuplicates = false →
      expand settings program =
        .ok ((program.lines.map stopless).filter fun text => !text.isEmpty) ∧
      (Tag.count Tag.stops program = 0 →
        expand settings program =
          .ok ((program.lines.map Text.trim).filter fun text => !text.isEmpty) ∧
        ((∀ line ∈ program.lines, line.trim = line ∧ line ≠ []) →
          expand settings program = .ok program.lines))) := by
  refine ⟨Tag.count_eq_sum_lines _ _, Tag.count_eq_sum_lines _ _,
    cycles_eq_zero_iff.trans active_run_eq_false_iff.symm, fun hcycles settings hplain => ?_⟩
  have hexpand := expand_of_unstarted hplain (cycles_eq_zero_iff.mp hcycles)
  refine ⟨hexpand, fun hstops => ?_⟩
  rw [map_stopless_of_count_eq_zero hstops] at hexpand
  refine ⟨hexpand, fun hlines => ?_⟩
  have htrim : program.lines.map Text.trim = program.lines :=
    (List.map_congr_left fun line hmem => (hlines line hmem).1).trans (List.map_id' _)
  rw [hexpand, htrim, List.filter_eq_self.mpr]
  intro line hmem
  simp [(hlines line hmem).2]

/-- A hole outside a cycle and a stop line pass through; the codes with a third digit or a point are no
tags. -/
theorem counts_agree_stopLine :
    (Statistics.ofProgram " G81 X1 (G98.1)\n\nG80 M5\nG980".toList).cycles = 0 ∧
    (Statistics.ofProgram " G81 X1 (G98.1)\n\nG80 M5\nG980".toList).holes = 1 ∧
    expand {} " G81 X1 (G98.1)\n\nG80 M5\nG980".toList =
      .ok ["G81 X1 (G98.1)".toList, "M5".toList, "G980".toList] ∧
    Tag.count Tag.stops "G21\nM30".toList = 0 ∧
    expand { precision := some 70000 } "G21\nM30".toList = .ok ["G21".toList, "M30".toList] := by
  obtain ⟨-, -, -, hstop⟩ := counts_agree " G81 X1 (G98.1)\n\nG80 M5\nG980".toList
  obtain ⟨-, -, -, hplain⟩ := counts_agree "G21\nM30".toList
  have hstops : Tag.count Tag.stops "G21\nM30".toList = 0 := by decide
  refine ⟨by decide, by decide, ?_, hstops, ?_⟩
  · rw [(hstop (by decide) {} rfl).1]
    decide
  · exact ((hplain (by decide) _ rfl).2 hstops).2 (by decide)

end DrillCycles
