import DrillCycles.Proofs.Cycle.Block
import DrillCycles.Proofs.Cycle.Failure
import Mathlib.Data.List.Forall2

/-!
# Two runs with different settings

The settings decide how a program is written, not what it does.  Here the same lines are expanded twice,
from the same state and with two settings, and the two runs are compared line by line.

**The relation.**  `IsRespelling` compares two generated lines as texts: one code, and one word for each
word of the other line.  The two words have the same letter, save for a dwell, and show the same number,
each rounded as its settings say.  `Stage.IsRespelling` compares what one line comes to in the two runs.

**Main result.**  The moves of a hole are the same but for the letter of the dwell
(`forall₂_isSameMove_moves`), and rounding comes after the last decision.  `isRespelling_expandLine` is
one line, `settings_respell` is a whole run.
-/

namespace DrillCycles

open DrillCycles.Cycle

variable {settings settings' : Settings} {m m' : Motion}

/-! ### Lines and their words -/

/-- The words of a generated line: each a letter and a numeral, with a space before it. -/
structure IsSpelling (kind : MoveKind) (words : List (Char × Text)) (line : Text) : Prop where
  text : line = kind.code ++ words.flatMap fun word => ' ' :: word.1 :: word.2
  /-- The next space starts the next word. -/
  unspaced : ∀ word ∈ words, ' ' ∉ word.2

/-- What two words at the same place have in common. -/
structure IsSameWord (settings settings' : Settings) (kind : MoveKind) (word word' : Char × Text) :
    Prop where
  letter : kind ≠ .dwell → word.1 = word'.1
  dwell : kind = .dwell →
    word.1 = settings.dwellUnit.letter ∧ word'.1 = settings'.dwellUnit.letter
  numeral : settings.precision = settings'.precision → word.2 = word'.2
  value : ∃ value : Binary64, word.2 = value.written settings.precision ∧
    word'.2 = value.written settings'.precision

/-- **The same line in two spellings.** -/
def IsRespelling (settings settings' : Settings) (line line' : Text) : Prop :=
  ∃ kind words words', IsSpelling kind words line ∧ IsSpelling kind words' line' ∧
    List.Forall₂ (IsSameWord settings settings' kind) words words'

lemma Motion.isSpelling_written (precision : Option ℕ) (m : Motion) :
    IsSpelling m.kind (m.words.map fun word => (word.1, word.2.written precision))
      (m.written precision) := by
  refine ⟨?_, fun word hword hspace => ?_⟩
  · rw [Motion.written, List.flatMap_map]
    rfl
  · obtain ⟨word, -, rfl⟩ := List.mem_map.mp hword
    exact absurd (Binary64.isNumeralChar_of_mem_written hspace).not_isBlank (by decide)

/-! ### Moves -/

/-- Two moves that are equal, but for the letter of a dwell. -/
def IsSameMove (settings settings' : Settings) (m m' : Motion) : Prop :=
  (m.kind ≠ .dwell ∧ m = m') ∨ ∃ time,
    m = .of .dwell [(settings.dwellUnit.letter, some time)] ∧
    m' = .of .dwell [(settings'.dwellUnit.letter, some time)]

lemma isSameWord_written {kind : MoveKind} {letter letter' : Char} {value : Binary64}
    (hletter : kind ≠ .dwell → letter = letter')
    (hdwell : kind = .dwell →
      letter = settings.dwellUnit.letter ∧ letter' = settings'.dwellUnit.letter) :
    IsSameWord settings settings' kind (letter, value.written settings.precision)
      (letter', value.written settings'.precision) :=
  ⟨hletter, hdwell, fun h => by rw [h], value, rfl, rfl⟩

/-- Moves that are equal but for the letter of a dwell are written as the same line. -/
lemma IsSameMove.written (h : IsSameMove settings settings' m m') :
    IsRespelling settings settings' (m.written settings.precision)
      (m'.written settings'.precision) := by
  rcases h with ⟨hkind, rfl⟩ | ⟨time, rfl, rfl⟩
  · refine ⟨_, _, _, m.isSpelling_written _, m.isSpelling_written _, ?_⟩
    rw [List.forall₂_map_left_iff, List.forall₂_map_right_iff, List.forall₂_same]
    exact fun word _ => isSameWord_written (fun _ => rfl) fun hdwell => absurd hdwell hkind
  · have hspelling : ∀ settings : Settings, IsSpelling .dwell
        [(settings.dwellUnit.letter, time.written settings.precision)]
        ((Motion.of .dwell [(settings.dwellUnit.letter, some time)]).written settings.precision) :=
      fun settings => Motion.isSpelling_written _ (.of .dwell [(settings.dwellUnit.letter, some time)])
    refine ⟨.dwell, _, _, hspelling settings, hspelling settings', ?_⟩
    exact .cons (isSameWord_written (fun h => absurd rfl h) fun _ => ⟨rfl, rfl⟩) .nil

namespace Cycle

lemma forall₂_isSameMove_dwelling (settings settings' : Settings) (h : Hole) :
    List.Forall₂ (IsSameMove settings settings') (h.dwelling settings.dwellUnit)
      (h.dwelling settings'.dwellUnit) := by
  rw [Hole.dwelling, Hole.dwelling]
  cases Hole.positive? h.parameters.dwell with
  | none => exact .nil
  | some time => exact .cons (Or.inr ⟨time, rfl, rfl⟩) .nil

/-- **A hole has the same moves in all settings**, but for the letter of its dwell. -/
lemma forall₂_isSameMove_moves (settings settings' : Settings) (h : Hole) :
    List.Forall₂ (IsSameMove settings settings') (h.moves settings.dwellUnit)
      (h.moves settings'.dwellUnit) := by
  have hretraction : IsSameMove settings settings' h.retraction h.retraction :=
    Or.inl ⟨by simp [Hole.retraction, Peck.rapidTo, Motion.of], rfl⟩
  have happroach : List.Forall₂ (IsSameMove settings settings') h.approach h.approach :=
    List.forall₂_same.mpr fun m hm => Or.inl ⟨not_dwell_of_mem_approach hm, rfl⟩
  rw [moves_eq_approach, moves_eq_approach]
  exact List.rel_append happroach (List.rel_append
    (forall₂_isSameMove_dwelling settings settings' h) (.cons hretraction .nil))

lemma Hole.forall₂_isRespelling_written (settings settings' : Settings) (h : Hole) :
    List.Forall₂ (IsRespelling settings settings') (h.written settings) (h.written settings') := by
  rw [Hole.written, Hole.written, List.forall₂_map_left_iff, List.forall₂_map_right_iff]
  exact (forall₂_isSameMove_moves settings settings' h).imp fun _ _ => IsSameMove.written

/-! ### Runs -/

/-- What one line of a run comes to: the lines that come out, and the state after it. -/
structure Stage where
  lines : List Text
  state : State
  deriving DecidableEq, Repr

/-- Expands lines one after the other, and keeps what each of them comes to. -/
def expandEach (settings : Settings) : List Text → EStateM Failure State (List Stage)
  | [] => return []
  | raw :: ahead => do
    let lines ← expandLine settings raw
    let state ← get
    let stages ← expandEach settings ahead
    return ⟨lines, state⟩ :: stages

/-- **What two settings do to one line.**  Outside a cycle lines pass through, and come out the same;
inside a cycle they are generated. -/
structure Stage.IsRespelling (settings settings' : Settings) (stage stage' : Stage) : Prop where
  state : stage.state = stage'.state
  length : stage.lines.length = stage'.lines.length
  passed : stage.state.active = false → stage.lines = stage'.lines
  generated : stage.state.active = true →
    List.Forall₂ (DrillCycles.IsRespelling settings settings') stage.lines stage'.lines

variable {s : State} {raw : Text}

/-- Inside a cycle a line drills, or nothing comes out. -/
lemma step_cases_of_open (hopen : (s.entered raw).active = true) :
    (∃ hole, (s.step raw).2 = .drilled hole) ∨
      ∀ settings, (s.step raw).2.written settings = [] := by
  by_cases hhole : InvokesHole raw
  · exact Or.inl ⟨_, congrArg Prod.snd (State.step_of_hole hopen hhole)⟩
  · refine Or.inr fun settings => ?_
    rw [State.step_of_open hopen hhole]
    dsimp only
    split <;> rfl

/-- Outside a cycle no setting matters. -/
lemma written_step_of_closed (settings settings' : Settings)
    (hclosed : (s.entered raw).active = false) :
    (s.step raw).2.written settings = (s.step raw).2.written settings' := by
  by_cases htext : stopless raw = []
  · rw [State.step_of_blank hclosed htext]
    rfl
  · rw [State.step_of_passed hclosed htext]
    rfl

lemma isRespelling_step (settings settings' : Settings) (s : State) (raw : Text) :
    Stage.IsRespelling settings settings' ⟨(s.step raw).2.written settings, (s.step raw).1⟩
      ⟨(s.step raw).2.written settings', (s.step raw).1⟩ := by
  have hactive := State.active_step s raw
  cases hentered : (s.entered raw).active with
  | true =>
      have hlines : List.Forall₂ (DrillCycles.IsRespelling settings settings')
          ((s.step raw).2.written settings) ((s.step raw).2.written settings') := by
        rcases step_cases_of_open hentered with ⟨hole, hdrilled⟩ | hnone
        · rw [hdrilled]
          exact hole.forall₂_isRespelling_written settings settings'
        · rw [hnone, hnone]
          exact .nil
      rw [hentered] at hactive
      refine ⟨rfl, hlines.length_eq, fun hclosed => ?_, fun _ => hlines⟩
      exact absurd (hactive.symm.trans hclosed) (by decide)
  | false =>
      have hlines := written_step_of_closed settings settings' hentered
      rw [hentered] at hactive
      refine ⟨rfl, congrArg List.length hlines, fun _ => hlines, fun hopen => ?_⟩
      exact absurd (hopen.symm.trans hactive) (by decide)

/-- **One line** comes to the same in all settings, up to spelling. -/
theorem isRespelling_expandLine (hserved : Binary64.servable settings.precision = true)
    (hserved' : Binary64.servable settings'.precision = true) (s : State) (raw : Text) :
    ∃ stage stage' : Stage, stage.IsRespelling settings settings' stage' ∧
      expandLine settings raw s = .ok stage.lines stage.state ∧
      expandLine settings' raw s = .ok stage'.lines stage'.state :=
  ⟨_, _, isRespelling_step settings settings' s raw, expandLine_of_servable hserved s raw,
    expandLine_of_servable hserved' s raw⟩

lemma expandEach_cons {stage : Stage} {stages : List Stage} {ahead : List Text} {after : State}
    (hline : expandLine settings raw s = .ok stage.lines stage.state)
    (hahead : expandEach settings ahead stage.state = .ok stages after) :
    expandEach settings (raw :: ahead) s = .ok (stage :: stages) after := by
  have hget : (get : EStateM Failure State State) stage.state = .ok stage.state stage.state := rfl
  rw [expandEach, bind_apply_of_ok hline, bind_apply_of_ok hget, bind_apply_of_ok hahead]
  rfl

/-- **Settings change spelling only.**  The same lines, expanded from the same state with two settings
that can be served, leave the same states and come to the same number of lines each.  Lines that pass
through are identical.  Generated lines have the same code and word by word the same letters and
numbers; only the letter of a dwell is that of the unit, and only with different precisions a number is
written differently. -/
theorem settings_respell (settings settings' : Settings)
    (hserved : Binary64.servable settings.precision = true)
    (hserved' : Binary64.servable settings'.precision = true) (s : State) (lines : List Text) :
    ∃ (stages stages' : List Stage) (after : State),
      expandEach settings lines s = .ok stages after ∧
      expandEach settings' lines s = .ok stages' after ∧
      stages.length = lines.length ∧
      List.Forall₂ (Stage.IsRespelling settings settings') stages stages' := by
  induction lines generalizing s with
  | nil => exact ⟨[], [], s, rfl, rfl, rfl, .nil⟩
  | cons raw ahead ih =>
      obtain ⟨stage, stage', hstage, hline, hline'⟩ :=
        isRespelling_expandLine hserved hserved' s raw
      obtain ⟨stages, stages', after, hahead, hahead', hlength, hstages⟩ := ih stage.state
      have hcons := expandEach_cons hline hahead
      rw [hstage.state] at hahead'
      refine ⟨_, _, after, hcons, expandEach_cons hline' hahead', ?_, .cons hstage hstages⟩
      rw [List.length_cons, List.length_cons, hlength]

/-- The lines that come out of a run. -/
def outcome : EStateM.Result Failure State (List Stage) → List (List Text)
  | .ok stages _ => stages.map Stage.lines
  | .error _ _ => []

/-- A dwell and a number that is rounded, in two spellings. -/
theorem settings_respell_dwell :
    let settings : Settings := { dwellUnit := .milliseconds, precision := some 1 }
    let lines : List Text := ["G99 G82 Z-1.25 R1 P0.04 F9".toList, "G80 M5".toList]
    Binary64.servable settings.precision = true ∧
    Binary64.servable ({} : Settings).precision = true ∧
    ∃ stages stages' after, expandEach settings lines {} = .ok stages after ∧
      expandEach {} lines {} = .ok stages' after ∧
      List.Forall₂ (Stage.IsRespelling settings {}) stages stages' ∧
      stages.map Stage.lines = [["G0 Z1".toList, "G1 F9 Z-1.2".toList, "G4 P0".toList,
        "G0 Z1".toList], ["M5".toList]] ∧
      stages'.map Stage.lines = [["G0 Z1".toList, "G1 F9 Z-1.25".toList, "G4 S0.04".toList,
        "G0 Z1".toList], ["M5".toList]] := by
  intro settings lines
  obtain ⟨stages, stages', after, hrun, hrun', -, hstages⟩ :=
    settings_respell settings {} rfl rfl {} lines
  refine ⟨rfl, rfl, stages, stages', after, hrun, hrun', hstages, ?_, ?_⟩
  · have hout : stages.map Stage.lines = outcome (expandEach settings lines {}) := by rw [hrun]; rfl
    rw [hout]
    decide +kernel
  · have hout : stages'.map Stage.lines = outcome (expandEach {} lines {}) := by rw [hrun']; rfl
    rw [hout]
    decide +kernel

end Cycle

end DrillCycles
