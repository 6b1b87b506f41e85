import DrillCycles.Converter
import DrillCycles.Proofs.Expand.Emissions

/-!
# What suppression keeps

**Cuts are kept.**  `suppression_keeps_cuts` says that no feed and no dwell is lost to suppression, in an
expansion and in a conversion with its header: of the generated lines only rapids are left out, each of
them a copy of the line directly before its place in the output.

**Lines that pass through.**  These are not kept apart from their neighbours: a program that repeats a
line on purpose loses the copy.  `suppression_keeps_passed_iff` is the exact condition under which no
such line is lost, and `suppression_drops_passed` a short program that loses one.
-/

namespace DrillCycles

open DrillCycles.Cycle DrillCycles.Output

variable {settings : Settings} {front lines out : List Text}

/-- Where an emission with a move comes from: a hole of the program, of which it is a rendered move. -/
lemma exists_hole_of_mem_emissions {suppress : Bool} {e : Emission} {m : Motion}
    (hout : expandLines (settings.withSuppression suppress) front lines = .ok out)
    (he : e ∈ emissions settings front lines) (hm : e.move? = some m) :
    ∃ (k : ℕ) (hole : Hole), (State.expansions {} lines)[k]? = some (.drilled hole) ∧
      m ∈ hole.moves settings.dwellUnit ∧ m.render settings.precision = .ok e.line := by
  rcases List.mem_append.mp he with hheader | hbody
  · obtain ⟨line, -, rfl⟩ := List.mem_map.mp hheader
    cases hm
  obtain ⟨expansion, hexpansion, he⟩ := List.mem_flatMap.mp hbody
  cases expansion with
  | nothing => cases he
  | dropped line => cases he
  | passed line =>
      rw [List.mem_singleton.mp he] at hm
      cases hm
  | drilled hole =>
      obtain ⟨m', hmem, rfl⟩ := List.mem_map.mp he
      obtain rfl := Option.some.inj hm
      obtain ⟨k, hk⟩ := List.mem_iff_getElem?.mp hexpansion
      refine ⟨k, hole, hk, hmem, ?_⟩
      rw [expandLines, renderAll_withSuppression, renderAll_eq] at hout
      split at hout
      · next hserved =>
          have hhole := List.all_eq_true.mp hserved _ hexpansion
          rw [Expansion.isServable, Bool.or_eq_true] at hhole
          rw [Motion.render_eq, if_pos]
          exact Bool.or_eq_true_iff.mpr
            (hhole.imp_right fun hbare => List.all_eq_true.mp hbare _ hmem)
      · cases hout

/-- **What suppression keeps** of a program behind a header. -/
structure KeepsCuts (settings : Settings) (front lines out : List Text) : Prop where
  /-- Without suppression all emissions are written. -/
  plain : expandLines (settings.withSuppression false) front lines =
    .ok ((emissions settings front lines).map Emission.line)
  /-- Generated lines are the rendered moves of the holes. -/
  generated : ∀ e ∈ emissions settings front lines, ∀ m, e.move? = some m →
    ∃ (k : ℕ) (hole : Hole), (State.expansions {} lines)[k]? = some (.drilled hole) ∧
      m ∈ hole.moves settings.dwellUnit ∧ m.render settings.precision = .ok e.line
  /-- The output holds the lines of all emissions but those left out, in their order. -/
  written : IsWritten (callsOf (emissions settings front lines)) out
  /-- No feed and no dwell is left out. -/
  cuts : ∀ k e, (emissions settings front lines)[k]? = some e → e.IsCut →
    ¬ LeavesOut (callsOf (emissions settings front lines)) k
  /-- A generated line that is left out is a rapid, and the same as the last line of the output before
  its place. -/
  rapids : ∀ k e m, (emissions settings front lines)[k]? = some e → e.move? = some m →
    LeavesOut (callsOf (emissions settings front lines)) k → m.kind = .rapid ∧
      ∃ before, before = (afterCalls ((callsOf (emissions settings front lines)).take k)).lines.toList ∧
        before <+: out ∧ before.getLast? = some e.line

lemma keepsCuts_expandLines
    (hout : expandLines (settings.withSuppression true) front lines = .ok out) :
    KeepsCuts settings front lines out := by
  have hcuts := keepsApart_emissions settings front lines
  obtain rfl := expandLines_withSuppression hout
  refine ⟨expandLines_unsuppressed hout, fun e he m hm => exists_hole_of_mem_emissions hout he hm,
    isWritten_callsOf _, fun k e he hcut => hcuts.not_leavesOut he hcut, ?_⟩
  intro k e m he hm hleft
  refine ⟨?_, _, rfl, exists_before_of_leavesOut he hleft⟩
  by_contra hkind
  exact hcuts.not_leavesOut he ⟨m, hm, hkind⟩ hleft

/-- **Suppression keeps all cuts.**  With suppression every feed and every dwell of a program comes out,
in its place; the generated lines that are left out are rapids, each a copy of the line directly before
it in the output.  This holds for an expansion, and for a conversion with its header.  Both come about
whenever numbers can be written with the precision of the settings. -/
theorem suppression_keeps_cuts (settings : Settings) :
    (∀ (program : Text) (out : List Text),
      expand (settings.withSuppression true) program = .ok out →
        KeepsCuts settings [] program.lines out) ∧
    (∀ (c : Converter) (time : Instant) (text : Text) (after : Converter),
      c.settings = settings.withSuppression true → c.convert time = .ok (text, after) →
        ∃ out, text = Text.unlines out ∧ KeepsCuts settings (header time) c.lines out) ∧
    (Binary64.servable settings.precision = true →
      (∀ program, ∃ out, expand (settings.withSuppression true) program = .ok out) ∧
      ∀ (c : Converter) (time : Instant), c.settings = settings.withSuppression true →
        ∃ text after, c.convert time = .ok (text, after)) := by
  refine ⟨fun program out hout => keepsCuts_expandLines hout, ?_, fun hserved => ?_⟩
  · intro c time text after hsettings hconvert
    rw [Converter.convert, Converter.convertedLines, hsettings] at hconvert
    cases hout : expandLines (settings.withSuppression true) (header time) c.lines with
    | error e =>
        rw [hout] at hconvert
        cases hconvert
    | ok out =>
        rw [hout] at hconvert
        have htext := congrArg Prod.fst (Except.ok.inj hconvert)
        exact ⟨out, htext.symm, keepsCuts_expandLines hout⟩
  · have hserved' : Binary64.servable (settings.withSuppression true).precision = true := hserved
    refine ⟨fun program => ⟨_, expand_eq hserved' program⟩, fun c time hsettings => ?_⟩
    rw [Converter.convert, Converter.convertedLines, hsettings, expandLines_eq hserved']
    exact ⟨_, _, rfl⟩

/-- A hole drilled in one peck and a dwell: the last retraction repeats nothing, the first one repeats
the line that passed through. -/
def peckWithDwell : Text :=
  "G0 Z0\nG99\nG83 Z-4 R0 Q2 F50 P1\nG80".toList

theorem suppression_keeps_cuts_peckWithDwell :
    expand (Settings.withSuppression {} true) peckWithDwell = .ok ["G0 Z0".toList,
      "G1 F50 Z-2".toList, "G0 Z0".toList, "G4 S1".toList, "G0 Z0".toList] ∧
    KeepsCuts {} [] peckWithDwell.lines ["G0 Z0".toList, "G1 F50 Z-2".toList, "G0 Z0".toList,
      "G4 S1".toList, "G0 Z0".toList] ∧
    LeavesOut (callsOf (emissions {} [] peckWithDwell.lines)) 1 ∧
    ∃ out, KeepsCuts {} (header ⟨60, 0⟩) peckWithDwell.lines out := by
  obtain ⟨hexpand, hconvert, hserved⟩ := suppression_keeps_cuts {}
  have hout : expand (Settings.withSuppression {} true) peckWithDwell = .ok ["G0 Z0".toList,
      "G1 F50 Z-2".toList, "G0 Z0".toList, "G4 S1".toList, "G0 Z0".toList] := by decide +kernel
  have hleft : LeavesOut (callsOf (emissions {} [] peckWithDwell.lines)) 1 :=
    ⟨"G0 Z0".toList, by decide +kernel, by decide +kernel⟩
  obtain ⟨text, after, hdone⟩ := (hserved rfl).2
    { settings := Settings.withSuppression {} true, lines := peckWithDwell.lines } ⟨60, 0⟩ rfl
  obtain ⟨out, -, hkeeps⟩ := hconvert _ _ _ _ rfl hdone
  exact ⟨hout, hexpand _ _ hout, hleft, out, hkeeps⟩

/-! ### Lines that pass through -/

/-- **When suppression keeps all lines that pass through.**  It leaves out generated lines only if and
only if no line that passes through repeats the line emitted before it. -/
theorem suppression_keeps_passed_iff (settings : Settings) (program : Text) (out : List Text)
    (hout : expand (settings.withSuppression true) program = .ok out) :
    expand (settings.withSuppression false) program =
      .ok ((emissions settings [] program.lines).map Emission.line) ∧
    IsWritten (callsOf (emissions settings [] program.lines)) out ∧
    ((∀ k e, (emissions settings [] program.lines)[k]? = some e → e.move? = none →
        ¬ LeavesOut (callsOf (emissions settings [] program.lines)) k) ↔
      ∀ j previous e, (emissions settings [] program.lines)[j]? = some previous →
        (emissions settings [] program.lines)[j + 1]? = some e → e.move? = none →
        previous.line ≠ e.line) := by
  obtain rfl := expandLines_withSuppression hout
  refine ⟨expandLines_unsuppressed hout, isWritten_callsOf _, ?_, ?_⟩
  · intro hkept j previous e hprevious he hpassed hsame
    exact hkept (j + 1) e he hpassed
      (leavesOut_callsOf_iff.mpr ⟨j, previous, e, rfl, hprevious, he, hsame⟩)
  · intro hapart k e he hpassed hleft
    obtain ⟨j, previous, e', rfl, hprevious, he', hsame⟩ := leavesOut_callsOf_iff.mp hleft
    obtain rfl := Option.some.inj (he.symm.trans he')
    exact hapart j previous e hprevious he hpassed hsame

/-- Two moves of one unit each, with positions relative to the present one. -/
def relativeMoves : Text :=
  "G91\nG0 X1\nG0 X1".toList

/-- The second move passes through and is left out all the same. -/
theorem suppression_keeps_passed_iff_relativeMoves :
    expand (Settings.withSuppression {} true) relativeMoves = .ok ["G91".toList, "G0 X1".toList] ∧
    ¬ ∀ k e, (emissions {} [] relativeMoves.lines)[k]? = some e → e.move? = none →
      ¬ LeavesOut (callsOf (emissions {} [] relativeMoves.lines)) k := by
  have hout : expand (Settings.withSuppression {} true) relativeMoves =
      .ok ["G91".toList, "G0 X1".toList] := by decide +kernel
  obtain ⟨-, -, hiff⟩ := suppression_keeps_passed_iff {} relativeMoves _ hout
  refine ⟨hout, fun hkept => ?_⟩
  exact hiff.mp hkept 1 ⟨none, "G0 X1".toList⟩ ⟨none, "G0 X1".toList⟩ (by decide +kernel)
    (by decide +kernel) rfl rfl

/-- **A line that passes through is lost.**  All three lines of the program pass through, and without
suppression all of them come out; with suppression the repeated move is gone. -/
theorem suppression_drops_passed :
    State.expansions {} relativeMoves.lines =
      [.passed "G91".toList, .passed "G0 X1".toList, .passed "G0 X1".toList] ∧
    expand (Settings.withSuppression {} false) relativeMoves =
      .ok ["G91".toList, "G0 X1".toList, "G0 X1".toList] ∧
    expand (Settings.withSuppression {} true) relativeMoves =
      .ok ["G91".toList, "G0 X1".toList] := by
  decide +kernel

end DrillCycles
