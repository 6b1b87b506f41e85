import DrillCycles.Proofs.Cycle.Block
import DrillCycles.Proofs.Cycle.Run
import DrillCycles.Proofs.Text.Lines

/-!
# The lines that come out

A line that comes out is either generated or what is left of a line that passes through.  Both are
trimmed, not empty and in one piece (`isPlain_of_mem_written`): read again, they are the same lines.

**Tags.**  No generated line holds a tag (`not_occursIn_written`).  A line that passes through has lost
its stop tags and never had start tags; a tag in it has come together from the pieces on both sides of
a stop tag, `G9G80 8` being the shortest example.  `isJoined_of_mem_written` says that there is no
other way.
-/

namespace DrillCycles.Cycle

variable {settings : Settings} {s : State} {source line : Text} {m : Motion}
variable {precision : Option ℕ}

/-- A line that holds a tag which starts or stops a cycle. -/
def IsTagged (line : Text) : Prop :=
  Tag.AnyIn (Tag.starts ++ Tag.stops) line

instance (line : Text) : Decidable (IsTagged line) :=
  inferInstanceAs (Decidable (Tag.AnyIn _ _))

/-- A line that is read again as it stands. -/
structure IsPlain (line : Text) : Prop where
  trim : line.trim = line
  nonempty : line ≠ []
  unbroken : '\n' ∉ line

lemma isTagged_iff : IsTagged line ↔ Tag.AnyIn Tag.starts line ∨ Tag.AnyIn Tag.stops line := by
  simp only [IsTagged, Tag.AnyIn, List.mem_append, or_and_right, exists_or]

lemma isTagged_trim_iff : IsTagged source.trim ↔ IsStart source ∨ IsStop source := by
  rw [isTagged_iff]
  exact ⟨fun h => or_iff_not_imp_left.mpr fun hstart => ⟨hstart, h.resolve_left hstart⟩,
    fun h => h.imp_right And.right⟩

/-! ### Generated lines -/

lemma isLettered_of_mem_moves {unit : DwellUnit} {h : Hole} (hm : m ∈ h.moves unit) :
    m.IsLettered := by
  obtain ⟨kind, words, rfl, -, hwords⟩ := Hole.writes_of_mem_moves hm
  exact Motion.isLettered_of fun word hword => (hwords word hword).1

lemma isPlain_written (h : m.IsLettered) : IsPlain (m.written precision) := by
  refine ⟨Motion.trim_written h, ?_, Motion.not_mem_newline_written h⟩
  rw [Motion.written]
  cases m.kind <;> simp [MoveKind.code]

/-- The only code of a generated line stands at its start, and is none of a tag. -/
lemma not_occursIn_written (h : m.IsLettered) (tag : Tag) :
    ¬ tag.OccursIn (m.written precision) := by
  rintro ⟨i, before, after, heq, -, -⟩
  cases before with
  | nil =>
      have hsecond := congrArg (fun t : Text => t[1]?) heq
      rw [Motion.written] at hsecond
      cases hkind : m.kind <;> cases tag <;> simp [hkind, MoveKind.code, Tag.code] at hsecond
  | cons c before =>
      have htail : 'G' ∉ (m.written precision).tail := Motion.not_mem_tail_written h
      refine htail ?_
      rw [heq]
      cases tag <;> simp [Tag.code]

/-! ### Lines that pass through -/

/-- **How a tag gets into a line that comes out.**  The line is left of a stop line, and no piece of the
stop line between its stop tags holds the tag. -/
def IsJoined (source line : Text) : Prop :=
  IsStop source ∧ line = stopless source ∧ ∃ fragments, Tag.Cut .stop source.trim fragments ∧
    line = Text.trim fragments.flatten ∧ ∀ fragment ∈ fragments, ¬ IsTagged fragment

lemma stopless_eq (source : Text) : stopless source = (Tag.remove .stop source.trim).trim := rfl

lemma isJoined_stopless (h : IsStop source) : IsJoined source (stopless source) := by
  obtain ⟨fragments, hcut, hflat⟩ := Tag.exists_cut .stop source.trim
  refine ⟨h, rfl, fragments, hcut, by rw [stopless_eq, hflat], fun fragment hmem htagged => ?_⟩
  rcases isTagged_iff.mp htagged with ⟨tag, htag, hocc⟩ | ⟨tag, htag, hocc⟩
  · exact h.1 ⟨tag, htag, Tag.occursIn_of_cut hcut hmem hocc⟩
  · obtain rfl : tag = .stop := List.mem_singleton.mp htag
    exact Tag.not_occursIn_of_cut hcut hmem hocc

lemma isPlain_stopless (hunbroken : '\n' ∉ source) (hne : stopless source ≠ []) :
    IsPlain (stopless source) := by
  refine ⟨Text.trim_trim _, hne, fun hmem => hunbroken ?_⟩
  exact ((Tag.strip_sublist _ _).trans (Text.trim_sublist source)).subset hmem

/-- What is left of a stop line is shorter. -/
lemma length_stopless_lt (h : IsStop source) : (stopless source).length < source.trim.length := by
  obtain ⟨-, tag, htag, hocc⟩ := h
  obtain rfl : tag = .stop := List.mem_singleton.mp htag
  rw [stopless_eq]
  exact (Text.length_trim_le _).trans_lt (Tag.length_remove_lt hocc)

/-! ### One step -/

/-- The lines of one step are generated, or the one line is left of a line outside a cycle. -/
lemma mem_written_step (h : line ∈ (s.step source).2.written settings) :
    (∃ hole, (s.step source).2 = .drilled hole ∧
      ∃ m ∈ hole.moves settings.dwellUnit, line = m.written settings.precision) ∨
    ((s.entered source).active = false ∧ stopless source ≠ [] ∧ line = stopless source ∧
      (s.step source).2 = .passed line) := by
  cases hactive : (s.entered source).active with
  | true =>
      by_cases hhole : InvokesHole source
      · rw [State.step_of_hole hactive hhole] at h ⊢
        obtain ⟨m, hm, rfl⟩ := List.mem_map.mp h
        exact Or.inl ⟨_, rfl, m, hm, rfl⟩
      · rw [State.step_of_open hactive hhole] at h
        dsimp only at h
        split at h <;> simp [Expansion.written] at h
  | false =>
      by_cases htext : stopless source = []
      · rw [State.step_of_blank hactive htext] at h
        simp [Expansion.written] at h
      · rw [State.step_of_passed hactive htext] at h ⊢
        obtain rfl := List.mem_singleton.mp h
        exact Or.inr ⟨rfl, htext, rfl, rfl⟩

lemma isPlain_of_mem_written (hunbroken : '\n' ∉ source)
    (h : line ∈ (s.step source).2.written settings) : IsPlain line := by
  rcases mem_written_step h with ⟨hole, -, m, hm, rfl⟩ | ⟨-, hne, rfl, -⟩
  · exact isPlain_written (isLettered_of_mem_moves hm)
  · exact isPlain_stopless hunbroken hne

/-- A tag in a line that comes out has come together there. -/
theorem isJoined_of_mem_written (h : line ∈ (s.step source).2.written settings)
    (htagged : IsTagged line) : (s.step source).2 = .passed line ∧ IsJoined source line := by
  rcases mem_written_step h with ⟨hole, -, m, hm, rfl⟩ | ⟨hclosed, hne, rfl, hpassed⟩
  · obtain ⟨tag, -, hocc⟩ := htagged
    exact absurd hocc (not_occursIn_written (isLettered_of_mem_moves hm) tag)
  · refine ⟨hpassed, ?_⟩
    by_cases hstop : IsStop source
    · exact isJoined_stopless hstop
    -- The line holds no tag at all, so nothing has been taken out of it.
    have hstart : ¬ IsStart source := fun hstart =>
      Bool.eq_false_iff.mp hclosed (State.active_entered_iff.mpr (Or.inl hstart))
    have hnone : ¬ IsTagged source.trim := by
      rw [isTagged_trim_iff]
      exact not_or.mpr ⟨hstart, hstop⟩
    have hsame : stopless source = source.trim := by
      rw [stopless, Tag.strip_of_not_anyIn fun h => hnone (isTagged_iff.mpr (Or.inr h)),
        Text.trim_trim]
    rw [hsame] at htagged
    exact absurd htagged hnone

end DrillCycles.Cycle
