import DrillCycles.Expand
import DrillCycles.Proofs.Output.Emission

/-!
# Suppression in an expansion

Suppression has no influence on what the lines of a program expand to: `renderAll` does not read the
switch.  An expansion with suppression is therefore the expansion without it, with every run of equal
lines collapsed to one line.
-/

namespace DrillCycles

open DrillCycles.Cycle DrillCycles.Output

/-- The same settings with the switch set. -/
def Settings.withSuppression (settings : Settings) (suppress : Bool) : Settings :=
  { settings with suppressDuplicates := suppress }

lemma renderAll_withSuppression (settings : Settings) (suppress : Bool) :
    renderAll (settings.withSuppression suppress) = renderAll settings := by
  have hrender : Expansion.render (settings.withSuppression suppress) = Expansion.render settings := by
    funext e
    cases e <;> rfl
  funext expansions
  rw [renderAll, renderAll, hrender]

lemma expand_withSuppression (settings : Settings) (suppress : Bool) (program : Text) :
    expand (settings.withSuppression suppress) program =
      (renderAll settings (State.expansions {} program.lines)).map (Output.collect suppress) := by
  rw [expand, expandLines, renderAll_withSuppression]
  cases renderAll settings (State.expansions {} program.lines) <;> rfl

/-- **Suppression collapses runs.**  For any two settings that differ in the switch alone, the expansion
with suppression is the expansion without it, with one line left of every run of equal adjacent lines;
no two adjacent lines of it are equal, and collapsing it again changes nothing.  When lines are emitted
one at a time with a switch each, the remembered line is the last line of the output at every moment,
and only those lines are missing that repeat it with the switch on. -/
theorem expand_collapses (settings : Settings) (program : Text) (calls : List Call) :
    expand (settings.withSuppression true) program =
      (expand (settings.withSuppression false) program).map collapse ∧
    (∀ body, expand (settings.withSuppression true) program = .ok body →
      body.IsChain (· ≠ ·) ∧ collapse body = body) ∧
    (afterCalls calls).last = (afterCalls calls).lines.toList.getLast? ∧
    IsWritten calls (afterCalls calls).lines.toList := by
  have hcollapsed : expand (settings.withSuppression true) program =
      (expand (settings.withSuppression false) program).map collapse := by
    rw [expand_withSuppression, expand_withSuppression]
    cases renderAll settings (State.expansions {} program.lines) with
    | error e => rfl
    | ok body => simp [Except.map, collect_true_eq_collapse]
  refine ⟨hcollapsed, fun body hbody => ?_, last_afterCalls calls, isWritten_afterCalls calls⟩
  rw [hcollapsed] at hbody
  cases hplain : expand (settings.withSuppression false) program with
  | error e =>
      rw [hplain] at hbody
      cases hbody
  | ok plain =>
      rw [hplain] at hbody
      obtain rfl : collapse plain = body := Except.ok.inj hbody
      exact ⟨isChain_collapse plain, collapse_collapse plain⟩

/-- A program that repeats a line, and a switch that changes between the emissions. -/
theorem expand_collapses_repeated :
    expand (Settings.withSuppression {} true) "M3\nM3\nM5\nM3".toList =
      .ok ["M3".toList, "M5".toList, "M3".toList] ∧
    ["M3".toList, "M5".toList, "M3".toList].IsChain (· ≠ ·) ∧
    IsWritten [(true, "M3".toList), (true, "M3".toList), (false, "M3".toList)]
      ["M3".toList, "M3".toList] := by
  have hbody : expand (Settings.withSuppression {} true) "M3\nM3\nM5\nM3".toList =
      .ok ["M3".toList, "M5".toList, "M3".toList] := by decide
  obtain ⟨-, hchain, -, hwritten⟩ := expand_collapses {} "M3\nM3\nM5\nM3".toList
    [(true, "M3".toList), (true, "M3".toList), (false, "M3".toList)]
  exact ⟨hbody, (hchain _ hbody).1, hwritten⟩

end DrillCycles
