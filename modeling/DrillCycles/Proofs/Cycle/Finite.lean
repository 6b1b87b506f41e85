import DrillCycles.Proofs.Cycle.Block
import DrillCycles.Proofs.Cycle.PeckDepth
import DrillCycles.Proofs.Cycle.Run
import DrillCycles.Proofs.Motion.Reading

/-!
# Only finite numbers are written

Words are read with finite values only, and no line computes anything before a hole is drilled.  So the
values of a state are finite after every line (`isFinite_step`, `isFinite_run`), and so are those that a
hole is made from.

The one place where a block holds other values is the depth of a pass, which is finite too
(`Hole.IsFinite.of_carries`).  So every number on a move of a block is finite.
-/

namespace DrillCycles.Cycle

variable {s : State} {line text : Text} {lines : List Text} {h : Hole} {m : Motion}

/-- A value that is finite if it is known. -/
def FiniteIfKnown (value : Option Binary64) : Prop :=
  ∀ x, value = some x → x.isFinite = true

lemma finiteIfKnown_none : FiniteIfKnown none := fun _ h => by cases h

lemma finiteIfKnown_read (text : Text) (a : Address) : FiniteIfKnown (a.valueIn? text) :=
  fun _ hvalue => Address.isFinite_of_valueIn? hvalue

lemma FiniteIfKnown.orElse {value old : Option Binary64} (hvalue : FiniteIfKnown value)
    (hold : FiniteIfKnown old) : FiniteIfKnown (value <|> old) := by
  cases value with
  | none => exact hold
  | some x => exact hvalue

/-! ### States -/

/-- Modal values that are finite where they are known. -/
structure Parameters.IsFinite (p : Parameters) : Prop where
  rPlane : FiniteIfKnown p.rPlane
  finalDepth : FiniteIfKnown p.finalDepth
  feedrate : FiniteIfKnown p.feedrate
  dwell : FiniteIfKnown p.dwell
  peckIncrement : FiniteIfKnown p.peckIncrement

/-- A state whose values are finite where they are known. -/
structure State.IsFinite (s : State) : Prop where
  initialZ : FiniteIfKnown s.initialZ
  parameters : s.parameters.IsFinite

/-- A hole whose values are finite where they are known. -/
structure Hole.IsFinite (h : Hole) : Prop where
  x : FiniteIfKnown h.x
  y : FiniteIfKnown h.y
  retract : FiniteIfKnown h.retract
  parameters : h.parameters.IsFinite

lemma Parameters.isFinite_empty : Parameters.IsFinite {} :=
  ⟨finiteIfKnown_none, finiteIfKnown_none, finiteIfKnown_none, finiteIfKnown_none,
    finiteIfKnown_none⟩

lemma Parameters.IsFinite.update {p : Parameters} (hp : p.IsFinite) (text : Text) :
    (p.update (HoleWords.read text)).IsFinite where
  rPlane := (finiteIfKnown_read text .r).orElse hp.rPlane
  finalDepth := (finiteIfKnown_read text .z).orElse hp.finalDepth
  feedrate := (finiteIfKnown_read text .f).orElse hp.feedrate
  dwell := (finiteIfKnown_read text .p).orElse hp.dwell
  peckIncrement := (finiteIfKnown_read text .q).orElse hp.peckIncrement

namespace State

lemma IsFinite.entered (hs : s.IsFinite) (line : Text) : (s.entered line).IsFinite := by
  rcases entered_cases s line with ⟨tag, heq⟩ | heq | heq <;> rw [heq]
  · exact ⟨hs.initialZ, Parameters.isFinite_empty⟩
  · exact ⟨hs.initialZ, hs.parameters⟩
  · exact hs

lemma IsFinite.pass (hs : s.IsFinite) (text : Text) : (s.pass text).IsFinite where
  initialZ := (finiteIfKnown_read text .z).orElse hs.initialZ
  parameters := hs.parameters

lemma IsFinite.drilled (hs : s.IsFinite) (line : Text) : (s.drilled line).IsFinite where
  initialZ := by
    rw [initialZ_drilled]
    exact hs.initialZ
  parameters := by
    rw [parameters_drilled]
    exact (hs.entered line).parameters.update (holeText line)

lemma IsFinite.retractLevel (hs : s.IsFinite) : FiniteIfKnown s.retractLevel := by
  rw [State.retractLevel]
  cases s.retractMode with
  | initialPlane => exact hs.initialZ
  | rPlane => exact hs.parameters.rPlane
  | unset => exact finiteIfKnown_none

lemma IsFinite.hole (hs : s.IsFinite) (text : Text) :
    (s.hole text (HoleWords.read text)).IsFinite where
  x := finiteIfKnown_read text .x
  y := finiteIfKnown_read text .y
  retract := hs.retractLevel
  parameters := hs.parameters

/-- One line keeps all values finite, those of its hole included. -/
theorem isFinite_step (hs : s.IsFinite) (line : Text) :
    (s.step line).1.IsFinite ∧ ∀ h, (s.step line).2 = .drilled h → h.IsFinite := by
  refine ⟨?_, fun h hstep => ?_⟩
  · rcases step_cases s line with heq | heq | ⟨e, heq, -⟩ <;> rw [heq]
    · exact hs.drilled line
    · exact (hs.entered line).pass (stopless line)
    · exact hs.entered line
  · rw [eq_hole_of_step hstep]
    exact (hs.drilled line).hole (holeText line)

/-- So does a whole run. -/
theorem isFinite_run (hs : s.IsFinite) (lines : List Text) : (s.run lines).IsFinite := by
  induction lines generalizing s with
  | nil => exact hs
  | cons line lines ih => exact ih (isFinite_step hs line).1

lemma isFinite_of_expansions (hs : s.IsFinite) {k : ℕ}
    (hk : (s.expansions lines)[k]? = some (.drilled h)) : h.IsFinite := by
  rw [getElem?_expansions, Option.map_eq_some_iff] at hk
  obtain ⟨line, -, hstep⟩ := hk
  exact (isFinite_step (isFinite_run hs _) line).2 h hstep

end State

/-! ### Blocks -/

/-- All values of a block are finite. -/
theorem Hole.IsFinite.of_carries (hh : h.IsFinite) {value : Option Binary64}
    (hvalue : h.Carries value) : FiniteIfKnown value := by
  cases hvalue with
  | x => exact hh.x
  | y => exact hh.y
  | retract => exact hh.retract
  | rPlane => exact hh.parameters.rPlane
  | finalDepth => exact hh.parameters.finalDepth
  | feedrate => exact hh.parameters.feedrate
  | dwell => exact hh.parameters.dwell
  | pass hrPlane hdepth hincrement hpositive hnumber =>
      rintro _ ⟨⟩
      exact Peck.isFinite_passDepth (hh.parameters.rPlane _ hrPlane)
        (hh.parameters.finalDepth _ hdepth) (hh.parameters.peckIncrement _ hincrement) hpositive
        hnumber

/-- The move itself has at most two words, and only finite numbers. -/
lemma Hole.IsFinite.of_writes (hh : h.IsFinite) (hm : h.Writes m) : m.words.length ≤ 2 ∧
    m.IsLettered ∧ ∀ word ∈ m.words, word.2.isFinite = true := by
  obtain ⟨kind, words, rfl, hlength, hwords⟩ := hm
  refine ⟨(List.length_filterMap_le _ _).trans hlength,
    Motion.isLettered_of fun word hword => (hwords word hword).1, fun word hword => ?_⟩
  exact hh.of_carries (hwords _ (Motion.mem_words_iff.mp hword)).2 word.2 rfl

end DrillCycles.Cycle
