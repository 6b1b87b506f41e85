import DrillCycles.Cycle.Expansion
import DrillCycles.Proofs.Motion.Writing
import Mathlib.Data.List.Chain

/-!
# The block of a hole

A hole becomes a block of moves.  The block is safe when no rapid goes down into the material and no
feed goes sideways; both are matters of which words stand on which moves, and in which order.

**`IsBlock`** lists the parts of a block --- positioning, cut, dwell, with the same retraction before the
cut and at the end --- and what each of them may carry.  `isBlock_moves` proves it for every hole of a
state; the loop over the passes enters in `isChain_passes` alone, where each pass starts and ends at a
rapid.

**`Hole.Carries`** lists the values that stand on the moves of a block; `Hole.writes_of_mem_moves` says
that there are no others, and that no move has more than two words.
-/

namespace DrillCycles.Cycle

variable {s : State}

/-- Whether a move may follow another one: a feed only follows a rapid. -/
def MayFollow (previous next : Motion) : Prop :=
  next.kind = .feed → previous.kind = .rapid

/-- A move of the cut: a feed with at most the modal feedrate and a depth, or a rapid back to the
R-plane. -/
def IsCutMove (p : Parameters) (m : Motion) : Prop :=
  (∃ depth, m = .of .feed [('F', p.feedrate), ('Z', depth)]) ∨
    ∃ height, p.rPlane = some height ∧ m = .of .rapid [('Z', some height)]

/-! ### The cut -/

/-- Each pass starts behind a rapid and ends with one, so passes can follow each other. -/
lemma isChain_passes (rPlane increment : Binary64) (feedrate : Option Binary64) (numbers : List ℕ)
    {first : Motion} {rest : List Motion} (hfirst : first.kind = .rapid)
    (hrest : ∀ last : Motion, last.kind = .rapid → (last :: rest).IsChain MayFollow) :
    (first :: (numbers.flatMap (Peck.pass rPlane increment feedrate) ++ rest)).IsChain
      MayFollow := by
  induction numbers generalizing first with
  | nil => exact hrest first hfirst
  | cons number numbers ih =>
      rw [List.flatMap_cons, Peck.pass, List.append_assoc, List.cons_append, List.cons_append,
        List.nil_append]
      refine List.IsChain.cons_cons (fun _ => hfirst) (List.IsChain.cons_cons ?_ (ih rfl))
      intro hfeed
      exact absurd hfeed (by simp [Peck.rapidTo, Motion.of])

/-- The cut of a hole: its pecks, or its single feed. -/
def Hole.cut (h : Hole) : List Motion :=
  h.pecks ++ h.plunge

lemma isChain_cut (h : Hole) {first : Motion} (hfirst : first.kind = .rapid) :
    (first :: h.cut).IsChain MayFollow := by
  have hsingle : ∀ (last : Motion), last.kind = .rapid → ∀ depth,
      [last, Peck.feedTo h.parameters.feedrate depth].IsChain MayFollow := by
    intro last hlast depth
    exact List.isChain_pair.mpr fun _ => hlast
  rw [Hole.cut, Hole.pecks, Hole.plunge]
  cases Hole.positive? h.parameters.peckIncrement with
  | none => exact hsingle first hfirst _
  | some increment =>
      rw [List.append_nil]
      dsimp only
      unfold Peck.moves
      split
      · rw [Peck.drill]
        refine isChain_passes _ _ _ _ hfirst fun last hlast => ?_
        split
        · exact hsingle last hlast _
        · exact List.isChain_singleton last
      · exact List.isChain_singleton first

/-- The values that stand on the moves of a block. -/
inductive Hole.Carries (h : Hole) : Option Binary64 → Prop
  | x : h.Carries h.x
  | y : h.Carries h.y
  | retract : h.Carries h.retract
  | rPlane : h.Carries h.parameters.rPlane
  | finalDepth : h.Carries h.parameters.finalDepth
  | feedrate : h.Carries h.parameters.feedrate
  | dwell : h.Carries h.parameters.dwell
  | pass {rPlane depth increment : Binary64} {number : ℕ}
      (hrPlane : h.parameters.rPlane = some rPlane) (hdepth : h.parameters.finalDepth = some depth)
      (hincrement : h.parameters.peckIncrement = some increment)
      (hpositive : Binary64.zero < increment)
      (hnumber : number < Peck.passes (Peck.wholeIncrements (rPlane - depth) increment)) :
      h.Carries (some (Peck.passDepth rPlane increment number))

/-- The moves of the cut: feeds to a depth, and rapids to the R-plane. -/
lemma cut_cases {h : Hole} {m : Motion} (hm : m ∈ h.cut) :
    (∃ depth, h.Carries depth ∧ m = Peck.feedTo h.parameters.feedrate depth) ∨
      ∃ height, h.parameters.rPlane = some height ∧ m = Peck.rapidTo (some height) := by
  rw [Hole.cut, Hole.pecks, Hole.plunge] at hm
  cases hincrement : Hole.positive? h.parameters.peckIncrement with
  | none =>
      rw [hincrement] at hm
      exact Or.inl ⟨_, Hole.Carries.finalDepth, List.mem_singleton.mp hm⟩
  | some increment =>
      rw [hincrement, List.append_nil] at hm
      dsimp only at hm
      obtain ⟨hknown, hpositive⟩ := Option.filter_eq_some_iff.mp hincrement
      rw [decide_eq_true_eq] at hpositive
      unfold Peck.moves at hm
      split at hm
      · next rPlane depth hrPlane hdepth =>
          rw [Peck.drill] at hm
          rcases List.mem_append.mp hm with hpass | hlast
          · obtain ⟨number, hnumber, hm⟩ := List.mem_flatMap.mp hpass
            have hlt : number < Peck.passes (Peck.wholeIncrements (rPlane - depth) increment) := by
              rw [List.mem_range'_1] at hnumber
              omega
            rw [Peck.pass, List.mem_cons, List.mem_singleton] at hm
            rcases hm with rfl | rfl
            · exact Or.inl ⟨_, Hole.Carries.pass hrPlane hdepth hknown hpositive hlt, rfl⟩
            · exact Or.inr ⟨rPlane, hrPlane, rfl⟩
          · split at hlast
            · exact Or.inl ⟨_, hdepth ▸ Hole.Carries.finalDepth, List.mem_singleton.mp hlast⟩
            · simp at hlast
      · simp at hm

lemma isCutMove_of_mem_cut {h : Hole} {m : Motion} (hm : m ∈ h.cut) : IsCutMove h.parameters m := by
  rcases cut_cases hm with ⟨depth, -, rfl⟩ | ⟨height, hheight, rfl⟩
  · exact Or.inl ⟨depth, rfl⟩
  · exact Or.inr ⟨height, hheight, rfl⟩

/-! ### The whole block -/

/-- **The parts of a block.**  They belong to a hole with the given words of its own, the given modal
values and the given level to retract to. -/
structure IsBlock (unit : DwellUnit) (words : HoleWords) (p : Parameters) (level : Option Binary64)
    (positioning cut dwelling block : List Motion) : Prop where
  /-- The same rapid to the retract level stands before the cut and at the end. -/
  layout : block = positioning ++ .of .rapid [('Z', level)] ::
    (cut ++ dwelling ++ [.of .rapid [('Z', level)]])
  /-- The position is that of the line itself. -/
  positioned : positioning =
    if words.x.isSome || words.y.isSome then [.of .rapid [('X', words.x), ('Y', words.y)]] else []
  /-- Positions occur nowhere else. -/
  unmoved : ∀ m ∈ cut ++ dwelling ++ [.of .rapid [('Z', level)]], ∀ word ∈ m.words,
    word.1 ≠ 'X' ∧ word.1 ≠ 'Y'
  /-- Feeds and the other rapids stand in the cut. -/
  cutting : ∀ m ∈ cut, IsCutMove p m
  /-- Every feed directly follows a rapid. -/
  fed : ∀ before m after, block = before ++ m :: after → m.kind = .feed →
    ∃ previous, before.getLast? = some previous ∧ previous.kind = .rapid
  /-- One dwell if its time is positive, and none otherwise. -/
  dwelt : (∃ time, p.dwell = some time ∧ Binary64.zero < time ∧
      dwelling = [.of .dwell [(unit.letter, some time)]]) ∨
    ((∀ time, p.dwell = some time → ¬ Binary64.zero < time) ∧ dwelling = [])

lemma dwelling_cases (unit : DwellUnit) (h : Hole) :
    (∃ time, h.parameters.dwell = some time ∧ Binary64.zero < time ∧
      h.dwelling unit = [.of .dwell [(unit.letter, some time)]]) ∨
    ((∀ time, h.parameters.dwell = some time → ¬ Binary64.zero < time) ∧
      h.dwelling unit = []) := by
  rw [Hole.dwelling]
  cases hdwell : h.parameters.dwell with
  | none => exact Or.inr ⟨by simp, rfl⟩
  | some time =>
      by_cases hpos : Binary64.zero < time
      · refine Or.inl ⟨time, rfl, hpos, ?_⟩
        simp [Hole.positive?, Option.filter, hpos]
      · refine Or.inr ⟨fun other hother => ?_, ?_⟩
        · rw [← Option.some.inj hother]
          exact hpos
        · simp [Hole.positive?, Option.filter, hpos]

/-- A feed in a chain has a move before it, if the chain does not start with it. -/
lemma exists_rapid_before {block before after : List Motion} {m : Motion}
    (hchain : block.IsChain MayFollow) (hhead : ∀ first, block.head? = some first →
      first.kind = .rapid) (hsplit : block = before ++ m :: after) (hfeed : m.kind = .feed) :
    ∃ previous, before.getLast? = some previous ∧ previous.kind = .rapid := by
  subst hsplit
  cases hlast : before.getLast? with
  | none =>
      rw [List.getLast?_eq_none_iff] at hlast
      subst hlast
      rw [hhead m rfl] at hfeed
      exact absurd hfeed (by simp)
  | some previous =>
      exact ⟨previous, rfl, (List.isChain_append.mp hchain).2.2 previous hlast m rfl hfeed⟩

lemma letter_ne_position (unit : DwellUnit) : unit.letter ≠ 'X' ∧ unit.letter ≠ 'Y' := by
  cases unit <;> decide

lemma unmoved_of_isCutMove {p : Parameters} {m : Motion} (h : IsCutMove p m)
    {word : Char × Binary64} (hword : word ∈ m.words) : word.1 ≠ 'X' ∧ word.1 ≠ 'Y' := by
  rcases h with ⟨depth, rfl⟩ | ⟨height, -, rfl⟩
  · obtain ⟨value, hvalue⟩ := Motion.exists_of_mem_words hword
    simp only [List.mem_cons, Prod.mk.injEq, List.not_mem_nil, or_false] at hvalue
    rcases hvalue with ⟨hletter, -⟩ | ⟨hletter, -⟩ <;> rw [hletter] <;> decide
  · obtain ⟨value, hvalue⟩ := Motion.exists_of_mem_words hword
    simp only [List.mem_singleton, Prod.mk.injEq] at hvalue
    rw [hvalue.1]
    decide

/-- Moves that are no feeds may follow whatever stands before them. -/
lemma isChain_append_of_not_feed {before after : List Motion} (hbefore : before.IsChain MayFollow)
    (hafter : ∀ m ∈ after, m.kind ≠ .feed) : (before ++ after).IsChain MayFollow := by
  refine List.isChain_append.mpr ⟨hbefore, ?_, fun _ _ m hm hfeed => ?_⟩
  · rw [List.isChain_iff_forall_rel_of_append_cons_cons]
    intro previous next l₁ l₂ heq hfeed
    exact absurd hfeed (hafter next (by simp [heq]))
  · exact absurd hfeed (hafter m (List.mem_of_head? hm))

lemma eq_of_mem_dwelling {unit : DwellUnit} {h : Hole} {m : Motion} (hm : m ∈ h.dwelling unit) :
    ∃ time, h.parameters.dwell = some time ∧ Binary64.zero < time ∧
      m = .of .dwell [(unit.letter, some time)] := by
  rcases dwelling_cases unit h with ⟨time, htime, hpos, heq⟩ | ⟨-, heq⟩
  · rw [heq, List.mem_singleton] at hm
    exact ⟨time, htime, hpos, hm⟩
  · rw [heq] at hm
    simp at hm

lemma not_feed_of_mem_dwelling {unit : DwellUnit} {h : Hole} {m : Motion}
    (hm : m ∈ h.dwelling unit) : m.kind ≠ .feed := by
  obtain ⟨time, -, -, rfl⟩ := eq_of_mem_dwelling hm
  simp [Motion.of]

lemma moves_eq (unit : DwellUnit) (h : Hole) : h.moves unit =
    h.positioning ++ h.retraction :: (h.cut ++ h.dwelling unit ++ [h.retraction]) := by
  simp only [Hole.moves, Hole.movesWith, Hole.cut, List.append_assoc]

lemma mem_moves_iff {unit : DwellUnit} {h : Hole} {m : Motion} : m ∈ h.moves unit ↔
    m ∈ h.positioning ∨ m = h.retraction ∨ m ∈ h.cut ∨ m ∈ h.dwelling unit := by
  rw [moves_eq, List.mem_append, List.mem_cons, List.mem_append, List.mem_append,
    List.mem_singleton]
  tauto

lemma eq_of_mem_positioning {h : Hole} {m : Motion} (hm : m ∈ h.positioning) :
    m = .of .rapid [('X', h.x), ('Y', h.y)] ∧ (h.x.isSome || h.y.isSome) = true := by
  rw [Hole.positioning] at hm
  split at hm
  · next hnamed => exact ⟨List.mem_singleton.mp hm, hnamed⟩
  · simp at hm

/-! ### The moves in front of the dwell -/

lemma not_dwell_of_mem_cut {h : Hole} {m : Motion} (hm : m ∈ h.cut) : m.kind ≠ .dwell := by
  rcases cut_cases hm with ⟨depth, -, rfl⟩ | ⟨height, -, rfl⟩ <;>
    simp [Peck.feedTo, Peck.rapidTo, Motion.of]

/-- The moves of a hole up to the end of the cut. -/
def Hole.approach (h : Hole) : List Motion :=
  h.positioning ++ h.retraction :: h.cut

lemma moves_eq_approach (unit : DwellUnit) (h : Hole) :
    h.moves unit = h.approach ++ (h.dwelling unit ++ [h.retraction]) := by
  simp [moves_eq, Hole.approach]

lemma not_dwell_of_mem_approach {h : Hole} {m : Motion} (hm : m ∈ h.approach) :
    m.kind ≠ .dwell := by
  rcases List.mem_append.mp hm with hm | hm
  · rw [(eq_of_mem_positioning hm).1]
    simp [Motion.of]
  rcases List.mem_cons.mp hm with rfl | hm
  · simp [Hole.retraction, Peck.rapidTo, Motion.of]
  · exact not_dwell_of_mem_cut hm

/-! ### The values of a block -/

section Values

variable {h : Hole} {m : Motion}

/-- A move that is made of at most two words with values of the block. -/
def Hole.Writes (h : Hole) (m : Motion) : Prop :=
  ∃ kind words, m = .of kind words ∧ words.length ≤ 2 ∧
    ∀ word ∈ words, word.1 ∈ Motion.wordLetters ∧ h.Carries word.2

lemma Hole.writes_feed {depth : Option Binary64} (hdepth : h.Carries depth) :
    h.Writes (Peck.feedTo h.parameters.feedrate depth) := by
  refine ⟨.feed, _, rfl, le_rfl, ?_⟩
  simp [Motion.wordLetters, hdepth, Hole.Carries.feedrate]

lemma Hole.writes_rapid {height : Option Binary64} (hheight : h.Carries height) :
    h.Writes (Peck.rapidTo height) := by
  refine ⟨.rapid, _, rfl, by simp, ?_⟩
  simp [Motion.wordLetters, hheight]

lemma Hole.writes_of_mem_cut (hm : m ∈ h.cut) : h.Writes m := by
  rcases cut_cases hm with ⟨depth, hdepth, rfl⟩ | ⟨height, hheight, rfl⟩
  · exact writes_feed hdepth
  · exact writes_rapid (hheight ▸ Hole.Carries.rPlane)

/-- **What stands in a block**: moves with at most two words, whose values are those of the hole and the
depths of its passes. -/
theorem Hole.writes_of_mem_moves {unit : DwellUnit} (hm : m ∈ h.moves unit) : h.Writes m := by
  rcases mem_moves_iff.mp hm with hm | rfl | hm | hm
  · refine ⟨.rapid, _, (eq_of_mem_positioning hm).1, le_rfl, ?_⟩
    simp [Motion.wordLetters, Hole.Carries.x, Hole.Carries.y]
  · exact writes_rapid Hole.Carries.retract
  · exact writes_of_mem_cut hm
  · obtain ⟨time, htime, -, hm⟩ := eq_of_mem_dwelling hm
    refine ⟨.dwell, _, hm, by simp, ?_⟩
    rintro word hword
    rw [List.mem_singleton.mp hword, ← htime]
    exact ⟨by cases unit <;> simp [Motion.wordLetters, DwellUnit.letter], Hole.Carries.dwell⟩

end Values

/-! ### Every hole becomes a block -/

lemma isChain_moves (unit : DwellUnit) (h : Hole) : (h.moves unit).IsChain MayFollow := by
  have hend : ∀ m ∈ h.dwelling unit ++ [h.retraction], m.kind ≠ .feed := by
    intro m hm
    rcases List.mem_append.mp hm with hdwell | hretract
    · exact not_feed_of_mem_dwelling hdwell
    · rw [List.mem_singleton.mp hretract]
      simp [Hole.retraction, Peck.rapidTo, Motion.of]
  have hcut : (h.retraction :: h.cut ++ (h.dwelling unit ++ [h.retraction])).IsChain MayFollow :=
    isChain_append_of_not_feed (isChain_cut h rfl) hend
  rw [moves_eq, Hole.positioning]
  split
  · refine List.IsChain.cons_cons ?_ (by simpa using hcut)
    intro hfeed
    exact absurd hfeed (by simp [Hole.retraction, Peck.rapidTo, Motion.of])
  · simpa using hcut

lemma kind_of_head?_moves {unit : DwellUnit} {h : Hole} {first : Motion}
    (hfirst : (h.moves unit).head? = some first) : first.kind = .rapid := by
  rw [moves_eq, Hole.positioning] at hfirst
  split at hfirst <;> rw [← Option.some.inj hfirst] <;> rfl

/-- Every hole becomes a block. -/
theorem isBlock_moves (unit : DwellUnit) (s : State) (text : Text) (words : HoleWords) :
    ∃ positioning cut dwelling, IsBlock unit words s.parameters s.retractLevel
      positioning cut dwelling ((s.hole text words).moves unit) := by
  set h := s.hole text words with hh
  refine ⟨h.positioning, h.cut, h.dwelling unit, moves_eq unit h, rfl, ?_,
    fun m hm => isCutMove_of_mem_cut hm, ?_, dwelling_cases unit h⟩
  · intro m hm word hword
    rcases List.mem_append.mp hm with hm | hretract
    · rcases List.mem_append.mp hm with hcut | hdwell
      · exact unmoved_of_isCutMove (isCutMove_of_mem_cut hcut) hword
      · obtain ⟨time, -, -, rfl⟩ := eq_of_mem_dwelling hdwell
        obtain ⟨value, hvalue⟩ := Motion.exists_of_mem_words hword
        simp only [List.mem_singleton, Prod.mk.injEq] at hvalue
        rw [hvalue.1]
        exact letter_ne_position unit
    · obtain ⟨value, hvalue⟩ := Motion.exists_of_mem_words (List.mem_singleton.mp hretract ▸ hword)
      simp only [List.mem_singleton, Prod.mk.injEq] at hvalue
      rw [hvalue.1]
      decide
  · intro before m after hsplit hfeed
    exact exists_rapid_before (isChain_moves unit h) (fun _ => kind_of_head?_moves) hsplit hfeed

end DrillCycles.Cycle
