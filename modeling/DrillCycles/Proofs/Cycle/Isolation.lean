import DrillCycles.Proofs.Cycle.History
import DrillCycles.Proofs.Output.Suppression
import DrillCycles.Proofs.Text.Lines

/-!
# Closed cycles are forgotten

A state outside a cycle still holds the retract mode and the modal values of the cycle before.  Nothing
reads them any more: a start line clears them before the first hole, and outside a cycle only the
height counts.  So two states outside a cycle with the same height cannot be told apart.

**The relation.**  `Indistinct` is what such a pair becomes on its way: the two states stay outside a
cycle with the same height until a start line makes them equal, and from there on they *are* equal.
`Indistinct.step` is one line, `Indistinct.run` and `Indistinct.expansions` are all lines.

**Main result.**  `closed_cycles_forgotten` adds what follows for programs.  A program that ends outside
a cycle and names no height there leaves nothing behind, so a program that is joined to it is expanded
as if it stood alone.
-/

namespace DrillCycles.Cycle

variable {s t : State} {line : Text} {lines : List Text}

namespace State

/-- Two states outside a cycle that know the same height. -/
structure OutsideAlike (s t : State) : Prop where
  left : s.active = false
  right : t.active = false
  initialZ : s.initialZ = t.initialZ

/-- States that no further line can tell apart. -/
def Indistinct (s t : State) : Prop :=
  s = t ∨ OutsideAlike s t

/-! ### One line -/

/-- A step depends on the state that its line has entered. -/
lemma step_congr (h : s.entered line = t.entered line) : s.step line = t.step line := by
  simp only [step, enter_eq, h]

/-- A start line makes two states outside a cycle equal; every other line leaves them outside. -/
lemma OutsideAlike.entered (h : OutsideAlike s t) (line : Text) :
    s.entered line = t.entered line ∨ OutsideAlike (s.entered line) (t.entered line) := by
  by_cases hstart : IsStart line
  · obtain ⟨tag, htag⟩ := exists_isFirst_of_isStart hstart
    refine Or.inl ?_
    rw [entered_of_isFirst htag, entered_of_isFirst htag, start, start, h.initialZ]
  · exact Or.inr ⟨active_entered_of_not_isStart h.left hstart,
      active_entered_of_not_isStart h.right hstart, by simpa using h.initialZ⟩

/-- **Step lemma.**  States that cannot be told apart expand a line in the same way, and still cannot be
told apart afterwards. -/
theorem Indistinct.step (h : Indistinct s t) (line : Text) :
    (s.step line).2 = (t.step line).2 ∧ Indistinct (s.step line).1 (t.step line).1 := by
  rcases h with rfl | houtside
  · exact ⟨rfl, Or.inl rfl⟩
  rcases houtside.entered line with hequal | hentered
  · rw [step_congr hequal]
    exact ⟨rfl, Or.inl rfl⟩
  by_cases htext : stopless line = []
  · rw [step_of_blank hentered.left htext, step_of_blank hentered.right htext]
    exact ⟨rfl, Or.inr hentered⟩
  · rw [step_of_passed hentered.left htext, step_of_passed hentered.right htext]
    refine ⟨rfl, Or.inr ⟨hentered.left, hentered.right, ?_⟩⟩
    rw [initialZ_pass, initialZ_pass, hentered.initialZ]

lemma Indistinct.active (h : Indistinct s t) : s.active = t.active := by
  rcases h with rfl | houtside
  · rfl
  · rw [houtside.left, houtside.right]

lemma Indistinct.initialZ (h : Indistinct s t) : s.initialZ = t.initialZ := by
  rcases h with rfl | houtside
  · rfl
  · exact houtside.initialZ

/-! ### All lines -/

/-- **Run lemma.** -/
theorem Indistinct.run (h : Indistinct s t) (lines : List Text) :
    Indistinct (s.run lines) (t.run lines) := by
  induction lines generalizing s t with
  | nil => exact h
  | cons line lines ih =>
      rw [run_cons, run_cons]
      exact ih (h.step line).2

theorem Indistinct.expansions (h : Indistinct s t) (lines : List Text) :
    s.expansions lines = t.expansions lines := by
  induction lines generalizing s t with
  | nil => rfl
  | cons line lines ih =>
      obtain ⟨hsame, hnext⟩ := h.step line
      rw [expansions_cons, expansions_cons, hsame, ih hnext]

/-! ### Programs one after the other -/

/-- Without a height on the lines that pass through, a fresh state learns none. -/
lemma initialZ_run_of_unnamed (h : ∀ (k : ℕ) (text : Text),
    (State.expansions {} lines)[k]? = some (.passed text) → Address.z.valueIn? text = none) :
    (State.run {} lines).initialZ = none := by
  have hlatest := (recalls_run lines le_rfl).initialZ
  rw [List.take_length] at hlatest
  cases hz : (State.run {} lines).initialZ with
  | none => rfl
  | some z =>
      rw [hz] at hlatest
      obtain ⟨k, -, ⟨text, hpasses, hvalue⟩, -⟩ := hlatest
      rw [h k text (expansion_of_passesAt hpasses)] at hvalue
      cases hvalue

/-- What a program leaves behind cannot be told apart from a fresh state, if it ends outside a cycle and
names no height there. -/
lemma indistinct_fresh (hclosed : (State.run {} lines).active = false)
    (hunnamed : ∀ (k : ℕ) (text : Text),
      (State.expansions {} lines)[k]? = some (.passed text) → Address.z.valueIn? text = none) :
    Indistinct (State.run {} lines) {} :=
  Or.inr ⟨hclosed, rfl, initialZ_run_of_unnamed hunnamed⟩

end State

/-- Without suppression a program comes out as its lines are rendered. -/
lemma expand_eq_renderAll {settings : Settings} (hplain : settings.suppressDuplicates = false)
    (program : Text) :
    expand settings program = renderAll settings (State.expansions {} program.lines) := by
  rw [expand, expandLines, hplain]
  cases renderAll settings (State.expansions {} program.lines) with
  | error e => rfl
  | ok body => simp [bind, Except.bind, pure, Except.pure]

/-- **Closed cycles are forgotten.**  Two states outside a cycle with the same height expand every line
of a program in the same way, whatever else they hold, and are in a cycle at the same times, with the
same height.  (The line written last belongs to the output, which no step reads.)  So a program behind
one that ends outside a cycle and names no height there is expanded as if it stood alone. -/
theorem closed_cycles_forgotten (settings : Settings) :
    (∀ (s t : State) (lines : List Text), s.active = false → t.active = false →
      s.initialZ = t.initialZ →
      (∀ k line, lines[k]? = some line →
        ((s.run (lines.take k)).step line).2.render settings =
          ((t.run (lines.take k)).step line).2.render settings) ∧
      ∀ n ≤ lines.length,
        (s.run (lines.take n)).active = (t.run (lines.take n)).active ∧
        (s.run (lines.take n)).initialZ = (t.run (lines.take n)).initialZ) ∧
    ∀ first second : Text, settings.suppressDuplicates = false →
      (State.run {} first.lines).active = false →
      (∀ (k : ℕ) (text : Text), (State.expansions {} first.lines)[k]? = some (.passed text) →
        Address.z.valueIn? text = none) →
      expand settings (first ++ '\n' :: second) = do
        let before ← expand settings first
        let after ← expand settings second
        return before ++ after := by
  refine ⟨fun s t lines hs ht hz => ?_, fun first second hplain hclosed hunnamed => ?_⟩
  · have hsame : State.Indistinct s t := Or.inr ⟨hs, ht, hz⟩
    refine ⟨fun k line _ => ?_, fun n _ => ?_⟩
    · rw [((hsame.run (lines.take k)).step line).1]
    · exact ⟨(hsame.run _).active, (hsame.run _).initialZ⟩
  · have hfresh := State.indistinct_fresh hclosed hunnamed
    rw [expand_eq_renderAll hplain, expand_eq_renderAll hplain, expand_eq_renderAll hplain,
      Text.lines_append, State.expansions_append, hfresh.expansions, renderAll_append]

/-- A cycle with a hole, a stop line and a position, without a height outside the cycle. -/
def closedCycle : Text :=
  "G99\nG83 X1 Z-2 R1 Q5 F60\nG80 G0 X9".toList

/-- A hole that has no height to go back to, and no R-plane of its own. -/
def bareHole : Text :=
  "G98\nG81 X2 Z-1".toList

/-- The R-plane, the feedrate and the pecks of the first cycle are gone in the second one. -/
theorem closed_cycles_forgotten_bareHole :
    (State.run {} closedCycle.lines).active = false ∧
    (State.run {} closedCycle.lines).parameters ≠ ({} : State).parameters ∧
    (∀ n ≤ bareHole.lines.length,
      ((State.run {} closedCycle.lines).run (bareHole.lines.take n)).active =
        (State.run {} (bareHole.lines.take n)).active) ∧
    expand {} (closedCycle ++ '\n' :: bareHole) = .ok (["G0 X1".toList, "G0 Z1".toList,
      "G1 F60 Z-2".toList, "G0 Z1".toList, "G0 X9".toList] ++
      ["G0 X2".toList, "G0".toList, "G1 Z-1".toList, "G0".toList]) := by
  have hclosed : (State.run {} closedCycle.lines).active = false := by decide +kernel
  have hunnamed : ∀ (k : ℕ) (text : Text),
      (State.expansions {} closedCycle.lines)[k]? = some (.passed text) →
        Address.z.valueIn? text = none := by
    intro k text hpassed
    have hall : ((State.expansions {} closedCycle.lines).all fun
        | .passed text => (Address.z.valueIn? text).isNone
        | _ => true) = true := by decide +kernel
    simpa using List.all_eq_true.mp hall _ (List.mem_of_getElem? hpassed)
  obtain ⟨hstates, hprograms⟩ := closed_cycles_forgotten {}
  refine ⟨hclosed, by decide +kernel, fun n hn => ?_, ?_⟩
  · exact ((hstates _ {} bareHole.lines hclosed rfl (by decide +kernel)).2 n hn).1
  · rw [hprograms closedCycle bareHole rfl hclosed hunnamed]
    decide +kernel

end DrillCycles.Cycle
