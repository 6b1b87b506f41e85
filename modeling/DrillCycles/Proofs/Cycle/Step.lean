import DrillCycles.Cycle.Expansion
import DrillCycles.Proofs.Tag.Removal

/-!
# One line and one step

A line is read for itself first: whether it starts or stops a cycle, and what is left of it without
the tags of either kind.  **`State.step`** is then described by four equations, one for each thing that
can become of a line: a hole (`step_of_hole`), nothing inside a cycle (`step_of_open`), a line that
passes through (`step_of_passed`), nothing outside a cycle (`step_of_blank`).  Which of them applies
depends on the line and on **`State.entered`**, the state after its start and stop tags.
-/

namespace DrillCycles.Cycle

/-! ### Lines -/

/-- A start line holds a start tag. -/
def IsStart (line : Text) : Prop :=
  Tag.AnyIn Tag.starts line.trim

/-- A stop line holds a stop tag and no start tag. -/
def IsStop (line : Text) : Prop :=
  ¬ IsStart line ∧ Tag.AnyIn Tag.stops line.trim

/-- What is left of a line without its start tags. -/
def startless (line : Text) : Text :=
  Tag.strip Tag.starts line.trim

/-- What is left of a line without its stop tags. -/
def stopless (line : Text) : Text :=
  Tag.strip Tag.stops line.trim

/-- Whether a line invokes a hole, provided that it stands in a cycle. -/
def InvokesHole (line : Text) : Prop :=
  Tag.AnyIn Tag.holes (startless line)

/-- The text that the words of a hole are read from: no start tags and no hole tags. -/
def holeText (line : Text) : Text :=
  Tag.strip Tag.holes (startless line)

instance (line : Text) : Decidable (IsStart line) :=
  inferInstanceAs (Decidable (Tag.AnyIn _ _))

instance (line : Text) : Decidable (IsStop line) :=
  inferInstanceAs (Decidable (_ ∧ _))

instance (line : Text) : Decidable (InvokesHole line) :=
  inferInstanceAs (Decidable (Tag.AnyIn _ _))

variable {s : State} {line : Text} {tag : Tag}

lemma isStart_of_isFirst (h : Tag.IsFirst Tag.starts line.trim tag) : IsStart line := by
  obtain ⟨hmem, i, hi, -⟩ := h
  exact ⟨tag, hmem, i, hi⟩

lemma exists_isFirst_of_isStart (h : IsStart line) :
    ∃ tag, Tag.IsFirst Tag.starts line.trim tag := by
  obtain ⟨tag, htag⟩ := Option.isSome_iff_exists.mp (Tag.isSome_find?_iff.mpr h)
  exact ⟨tag, Tag.find?_eq_some_iff.mp htag⟩

/-! ### Entering -/

/-- The state after the start and stop tags of a line. -/
def State.entered (s : State) (line : Text) : State :=
  (s.enter line.trim).1

namespace State

lemma enter_of_isFirst (h : Tag.IsFirst Tag.starts line.trim tag) :
    s.enter line.trim = (s.start tag, startless line) := by
  rw [enter, Tag.find?_eq_some_iff.mpr h]
  rfl

lemma enter_of_isStop (h : IsStop line) : s.enter line.trim = (s.stop, stopless line) := by
  obtain ⟨tag, htag⟩ := Option.isSome_iff_exists.mp (Tag.isSome_find?_iff.mpr h.2)
  rw [enter, Tag.find?_eq_none_iff.mpr h.1, htag]
  rfl

lemma enter_of_other (hstart : ¬ IsStart line) (hstop : ¬ IsStop line) :
    s.enter line.trim = (s, line.trim) := by
  have hnone : ¬ Tag.AnyIn Tag.stops line.trim := fun h => hstop ⟨hstart, h⟩
  rw [enter, Tag.find?_eq_none_iff.mpr hstart, Tag.find?_eq_none_iff.mpr hnone]

lemma entered_of_isFirst (h : Tag.IsFirst Tag.starts line.trim tag) :
    s.entered line = s.start tag := by
  rw [entered, enter_of_isFirst h]

lemma entered_of_isStop (h : IsStop line) : s.entered line = s.stop := by
  rw [entered, enter_of_isStop h]

lemma entered_of_other (hstart : ¬ IsStart line) (hstop : ¬ IsStop line) : s.entered line = s := by
  rw [entered, enter_of_other hstart hstop]

/-- Entering a line starts a cycle, stops it, or changes nothing. -/
lemma entered_cases (s : State) (line : Text) :
    (∃ tag, s.entered line = s.start tag) ∨ s.entered line = s.stop ∨ s.entered line = s := by
  by_cases hstart : IsStart line
  · obtain ⟨tag, htag⟩ := exists_isFirst_of_isStart hstart
    exact Or.inl ⟨tag, entered_of_isFirst htag⟩
  by_cases hstop : IsStop line
  · exact Or.inr (Or.inl (entered_of_isStop hstop))
  · exact Or.inr (Or.inr (entered_of_other hstart hstop))

/-- Entering a line leaves the height from before the cycle alone. -/
@[simp] lemma initialZ_entered (s : State) (line : Text) :
    (s.entered line).initialZ = s.initialZ := by
  rcases entered_cases s line with ⟨tag, h⟩ | h | h <;> rw [h] <;> rfl

lemma active_entered_iff : (s.entered line).active = true ↔
    IsStart line ∨ (¬ IsStop line ∧ s.active = true) := by
  by_cases hstart : IsStart line
  · obtain ⟨tag, htag⟩ := exists_isFirst_of_isStart hstart
    rw [entered_of_isFirst htag]
    exact iff_of_true rfl (Or.inl hstart)
  by_cases hstop : IsStop line
  · rw [entered_of_isStop hstop]
    simp [stop, hstart, hstop]
  · rw [entered_of_other hstart hstop]
    simp [hstart, hstop]

/-- Only a start line opens a cycle. -/
lemma active_entered_of_not_isStart (hclosed : s.active = false) (hstart : ¬ IsStart line) :
    (s.entered line).active = false := by
  rw [Bool.eq_false_iff, ne_eq, active_entered_iff, hclosed]
  simp [hstart]

/-- What is left of a line: without start tags when a cycle is open afterwards, and without stop tags
when none is.  The other kind of tag does not stand in the line then. -/
lemma enter_eq (s : State) (line : Text) : s.enter line.trim =
    (s.entered line, if (s.entered line).active then startless line else stopless line) := by
  by_cases hstart : IsStart line
  · obtain ⟨tag, htag⟩ := exists_isFirst_of_isStart hstart
    rw [entered_of_isFirst htag, enter_of_isFirst htag]
    rfl
  by_cases hstop : IsStop line
  · rw [entered_of_isStop hstop, enter_of_isStop hstop]
    rfl
  · have hnone : ¬ Tag.AnyIn Tag.stops line.trim := fun h => hstop ⟨hstart, h⟩
    rw [entered_of_other hstart hstop, enter_of_other hstart hstop, startless, stopless,
      Tag.strip_of_not_anyIn hstart, Tag.strip_of_not_anyIn hnone, Text.trim_trim, ite_self]

/-! ### The four outcomes of a step -/

/-- The state after a hole line. -/
def drilled (s : State) (line : Text) : State :=
  (s.entered line).drill (HoleWords.read (holeText line))

@[simp] lemma active_drilled (s : State) (line : Text) :
    (s.drilled line).active = (s.entered line).active := by
  rw [drilled, drill]

@[simp] lemma retractMode_drilled (s : State) (line : Text) :
    (s.drilled line).retractMode = (s.entered line).retractMode := by
  rw [drilled, drill]

@[simp] lemma initialZ_drilled (s : State) (line : Text) :
    (s.drilled line).initialZ = s.initialZ := by
  rw [drilled, drill, ← initialZ_entered s line]

@[simp] lemma parameters_drilled (s : State) (line : Text) : (s.drilled line).parameters =
    (s.entered line).parameters.update (HoleWords.read (holeText line)) := by
  rw [drilled, drill]

@[simp] lemma active_pass (s : State) (text : Text) : (s.pass text).active = s.active := rfl

@[simp] lemma retractMode_pass (s : State) (text : Text) :
    (s.pass text).retractMode = s.retractMode := rfl

@[simp] lemma initialZ_pass (s : State) (text : Text) :
    (s.pass text).initialZ = (Address.z.valueIn? text <|> s.initialZ) := rfl

@[simp] lemma parameters_pass (s : State) (text : Text) :
    (s.pass text).parameters = s.parameters := rfl

lemma step_of_hole (hopen : (s.entered line).active = true) (hhole : InvokesHole line) :
    s.step line = (s.drilled line,
      .drilled ((s.drilled line).hole (holeText line) (HoleWords.read (holeText line)))) := by
  have hfind : (Tag.find? Tag.holes (startless line)).isSome = true :=
    Tag.isSome_find?_iff.mpr hhole
  simp only [step, enter_eq, scan, hopen, if_true, hfind]
  rfl

lemma step_of_open (hopen : (s.entered line).active = true) (hhole : ¬ InvokesHole line) :
    s.step line = (s.entered line,
      if (startless line).isEmpty then .nothing else .dropped (startless line)) := by
  have hfind : (Tag.find? Tag.holes (startless line)).isSome = false := by
    rw [Bool.eq_false_iff, ne_eq, Tag.isSome_find?_iff]
    exact hhole
  simp only [step, enter_eq, scan, hopen, if_true, hfind]
  rfl

lemma step_of_passed (hclosed : (s.entered line).active = false) (htext : stopless line ≠ []) :
    s.step line = ((s.entered line).pass (stopless line), .passed (stopless line)) := by
  have hne : (stopless line).isEmpty = false := List.isEmpty_eq_false_iff.mpr htext
  simp only [step, enter_eq, scan, hclosed, hne, Bool.false_eq_true, if_false]

lemma step_of_blank (hclosed : (s.entered line).active = false) (htext : stopless line = []) :
    s.step line = (s.entered line, .nothing) := by
  simp only [step, enter_eq, scan, hclosed, htext, Bool.false_eq_true, if_false, List.isEmpty_nil,
    if_true]

@[simp] lemma x_hole (s : State) (text : Text) (words : HoleWords) :
    (s.hole text words).x = words.x := rfl

@[simp] lemma y_hole (s : State) (text : Text) (words : HoleWords) :
    (s.hole text words).y = words.y := rfl

/-- **What a step does**: it drills, or passes the line on, or does no more than enter the line. -/
theorem step_cases (s : State) (line : Text) :
    (s.step line = (s.drilled line,
      .drilled ((s.drilled line).hole (holeText line) (HoleWords.read (holeText line))))) ∨
    (s.step line = ((s.entered line).pass (stopless line), .passed (stopless line))) ∨
    ∃ e, s.step line = (s.entered line, e) ∧ ∀ h, e ≠ .drilled h := by
  cases hactive : (s.entered line).active with
  | true =>
      by_cases hhole : InvokesHole line
      · exact Or.inl (step_of_hole hactive hhole)
      · refine Or.inr (Or.inr ⟨_, step_of_open hactive hhole, fun h => ?_⟩)
        split <;> simp
  | false =>
      by_cases htext : stopless line = []
      · exact Or.inr (Or.inr ⟨_, step_of_blank hactive htext, by simp⟩)
      · exact Or.inr (Or.inl (step_of_passed hactive htext))

/-- Whether a cycle is open is decided when the line is entered. -/
lemma active_step (s : State) (line : Text) : (s.step line).1.active = (s.entered line).active := by
  rcases step_cases s line with h | h | ⟨e, h, -⟩ <;> rw [h]
  · exact active_drilled s line
  · rfl

/-- A hole comes from a hole line, with the state that has taken up its words. -/
lemma eq_hole_of_step {h : Hole} (hstep : (s.step line).2 = .drilled h) :
    h = (s.drilled line).hole (holeText line) (HoleWords.read (holeText line)) := by
  rcases step_cases s line with hdrilled | hpassed | ⟨e, hsilent, hother⟩
  · rw [hdrilled, Expansion.drilled.injEq] at hstep
    exact hstep.symm
  · rw [hpassed] at hstep
    cases hstep
  · rw [hsilent] at hstep
    exact absurd hstep (hother h)

end State

end DrillCycles.Cycle
