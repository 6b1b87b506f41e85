import DrillCycles.Proofs.Cycle.Lines
import DrillCycles.Proofs.Output.Suppression

/-!
# Expanding an expanded program

An expanded program can be joined and expanded again.

**Without tags.**  Its lines are plain, so if none of them is tagged, each passes through as it is
(`bodyLines_of_untagged`), and suppression has nothing left to do.

**With tags.**  A tagged line may open or close a cycle where there was none.  The measure is `weight`,
the total length of the tagged lines: a tagged line that passes through loses its tag, and all others
leave no tagged line behind, so one expansion makes the weight smaller (`weight_bodyLines_lt`).  Hence
a tagged program never comes out as it went in.

**Main result.**  `expand_reconverts_iff` puts both together.
-/

namespace DrillCycles

open DrillCycles.Cycle

variable {settings : Settings} {s : State} {source : Text} {lines : List Text}

/-! ### Programs without tags -/

/-- Nothing is taken out of a plain line without tags. -/
lemma stopless_of_untagged (hplain : IsPlain source) (huntagged : ¬ IsTagged source) :
    stopless source = source := by
  rw [stopless, hplain.trim,
    Tag.strip_of_not_anyIn fun h => huntagged (isTagged_iff.mpr (Or.inr h)), hplain.trim]

lemma expansions_of_untagged (hclosed : s.active = false)
    (h : ∀ line ∈ lines, IsPlain line ∧ ¬ IsTagged line) :
    s.expansions lines = lines.map .passed := by
  have hstart : ∀ line ∈ lines, ¬ IsStart line := by
    intro line hmem hstart
    obtain ⟨hplain, huntagged⟩ := h line hmem
    refine huntagged ?_
    rw [← hplain.trim]
    exact isTagged_trim_iff.mpr (Or.inl hstart)
  rw [expansions_of_unstarted hclosed hstart]
  refine List.map_congr_left fun line hmem => ?_
  obtain ⟨hplain, huntagged⟩ := h line hmem
  rw [stopless_of_untagged hplain huntagged, Expansion.remainder, if_neg hplain.nonempty]

/-- Plain lines without tags are expanded to themselves. -/
lemma bodyLines_of_untagged (h : ∀ line ∈ lines, IsPlain line ∧ ¬ IsTagged line) :
    bodyLines settings lines = lines := by
  rw [bodyLines, expansions_of_untagged rfl h, List.flatMap_map]
  exact List.flatMap_singleton' lines

/-! ### Programs with tags -/

/-- The total length of the tagged lines. -/
def weight : List Text → ℕ
  | [] => 0
  | line :: lines => if IsTagged line then line.length + weight lines else weight lines

@[simp] lemma weight_nil : weight [] = 0 := rfl

lemma weight_cons_of_tagged (h : IsTagged source) :
    weight (source :: lines) = source.length + weight lines := by
  rw [weight, if_pos h]

lemma weight_cons_of_untagged (h : ¬ IsTagged source) :
    weight (source :: lines) = weight lines := by
  rw [weight, if_neg h]

lemma weight_append (before after : List Text) :
    weight (before ++ after) = weight before + weight after := by
  induction before with
  | nil => rw [List.nil_append, weight_nil, Nat.zero_add]
  | cons line before ih =>
      rw [List.cons_append, weight, weight, ih]
      split <;> omega

lemma weight_eq_zero (h : ∀ line ∈ lines, ¬ IsTagged line) : weight lines = 0 := by
  induction lines with
  | nil => rfl
  | cons line lines ih =>
      rw [weight_cons_of_untagged (h line List.mem_cons_self)]
      exact ih fun line hmem => h line (List.mem_cons_of_mem _ hmem)

lemma weight_le_of_sublist {part whole : List Text} (h : part.Sublist whole) :
    weight part ≤ weight whole := by
  induction h with
  | slnil => exact le_rfl
  | cons line _ ih =>
      rw [weight]
      split <;> omega
  | cons_cons line _ ih =>
      rw [weight, weight]
      split <;> omega

lemma length_pos_of_isTagged (h : IsTagged source) : 0 < source.length := by
  obtain ⟨tag, -, hocc⟩ := h
  refine List.length_pos_iff.mpr fun hnil => ?_
  rw [hnil] at hocc
  exact Tag.not_occursIn_nil hocc

/-- One step leaves no tagged line behind, or a shorter one than it has read. -/
lemma weight_written_step (settings : Settings) (s : State) (source : Text) :
    weight ((s.step source).2.written settings) = 0 ∨
      IsTagged source.trim ∧
        weight ((s.step source).2.written settings) < source.trim.length := by
  by_cases h : ∃ line ∈ (s.step source).2.written settings, IsTagged line
  · obtain ⟨line, hmem, htagged⟩ := h
    obtain ⟨hpassed, hstop, hline, -⟩ := isJoined_of_mem_written hmem htagged
    refine Or.inr ⟨isTagged_trim_iff.mpr (Or.inr hstop), ?_⟩
    rw [hpassed, Expansion.written, weight_cons_of_tagged htagged, weight_nil, hline]
    exact length_stopless_lt hstop
  · exact Or.inl (weight_eq_zero fun line hmem htagged => h ⟨line, hmem, htagged⟩)

/-- Expanding trimmed lines adds no weight, and takes some away if there is any. -/
lemma weight_expansions (settings : Settings) (s : State)
    (htrim : ∀ line ∈ lines, Text.trim line = line) :
    weight ((s.expansions lines).flatMap (Expansion.written settings)) ≤ weight lines ∧
    ((∃ line ∈ lines, IsTagged line) →
      weight ((s.expansions lines).flatMap (Expansion.written settings)) < weight lines) := by
  induction lines generalizing s with
  | nil => exact ⟨le_rfl, by simp⟩
  | cons line lines ih =>
      obtain ⟨hle, hlt⟩ := ih (s.step line).1
        fun line hmem => htrim line (List.mem_cons_of_mem _ hmem)
      have hstep := weight_written_step settings s line
      rw [htrim line List.mem_cons_self] at hstep
      rw [State.expansions_cons, List.flatMap_cons, weight_append]
      by_cases htagged : IsTagged line
      · have hpos := length_pos_of_isTagged htagged
        rw [weight_cons_of_tagged htagged]
        refine ⟨?_, fun _ => ?_⟩ <;> rcases hstep with hzero | ⟨-, hshort⟩ <;> omega
      · have hzero := hstep.resolve_right fun h => htagged h.1
        rw [weight_cons_of_untagged htagged, hzero, Nat.zero_add]
        refine ⟨hle, fun ⟨other, hmem, hother⟩ => hlt ⟨other, ?_, hother⟩⟩
        rcases List.mem_cons.mp hmem with rfl | hmem
        · exact absurd hother htagged
        · exact hmem

/-! ### Expanding again -/

/-- The lines of an expanded program are the lines of some step. -/
lemma exists_step_of_mem_bodyLines {written : Text} (h : written ∈ bodyLines settings lines) :
    ∃ k source, lines[k]? = some source ∧ written ∈
      (((State.run {} (lines.take k)).step source).2).written settings := by
  obtain ⟨k, e, hk, hmem⟩ := mem_bodyLines.mp h
  rw [State.getElem?_expansions, Option.map_eq_some_iff] at hk
  obtain ⟨source, hsource, rfl⟩ := hk
  exact ⟨k, source, hsource, hmem⟩

lemma isPlain_of_mem_bodyLines (program : Text) {line : Text}
    (h : line ∈ bodyLines settings program.lines) : IsPlain line := by
  obtain ⟨k, source, hsource, hmem⟩ := exists_step_of_mem_bodyLines h
  exact isPlain_of_mem_written (Text.not_mem_of_mem_lines (List.mem_of_getElem? hsource)) hmem

/-- Joined plain lines are expanded like the lines themselves; no line at all is as good as a blank
one. -/
lemma bodyLines_intercalate (h : ∀ line ∈ lines, IsPlain line) :
    bodyLines settings (Text.lines (List.intercalate ['\n'] lines)) =
      bodyLines settings lines := by
  cases lines with
  | nil => rfl
  | cons line lines =>
      rw [Text.lines_intercalate (by simp) fun line hmem => (h line hmem).unbroken]

/-- **Expanding again.**  The expansion of a program, joined and expanded again, comes out unchanged
if and only if no line of it is tagged.  A line of it is tagged only if it is left of a stop line, and
the tag has come together from the pieces between the stop tags. -/
theorem expand_reconverts_iff (settings : Settings)
    (hserved : Binary64.servable settings.precision = true) (program : Text) :
    ∃ body : List Text, expand settings program = .ok body ∧
      (expand settings (List.intercalate ['\n'] body) = .ok body ↔
        ∀ line ∈ body, ¬ IsTagged line) ∧
      (∀ line ∈ body, ∃ (k : ℕ) (e : Expansion) (out : List Text),
        (State.expansions {} program.lines)[k]? = some e ∧ e.render settings = .ok out ∧
        line ∈ out) ∧
      ∀ (k : ℕ) (source : Text) (e : Expansion) (out : List Text) (line : Text),
        program.lines[k]? = some source → (State.expansions {} program.lines)[k]? = some e →
        e.render settings = .ok out → line ∈ out → IsTagged line →
        e = .passed line ∧ IsJoined source line := by
  have hplain : ∀ line ∈ Output.collect settings.suppressDuplicates
      (bodyLines settings program.lines), IsPlain line := fun line hmem =>
    isPlain_of_mem_bodyLines program ((Output.collect_sublist _ _).subset hmem)
  refine ⟨_, expand_eq hserved program, ?_, fun line hmem => ?_, ?_⟩
  · rw [expand_eq hserved, bodyLines_intercalate hplain, Except.ok.injEq]
    constructor
    · intro hsame line hmem htagged
      have hlt := (weight_expansions settings {} fun line hmem => (hplain line hmem).trim).2
        ⟨line, hmem, htagged⟩
      have hle := weight_le_of_sublist (Output.collect_sublist settings.suppressDuplicates
        (bodyLines settings (Output.collect settings.suppressDuplicates
          (bodyLines settings program.lines))))
      rw [hsame] at hle
      exact absurd hlt (Nat.not_lt.mpr hle)
    · intro huntagged
      rw [bodyLines_of_untagged fun line hmem => ⟨hplain line hmem, huntagged line hmem⟩,
        Output.collect_collect]
  · obtain ⟨k, e, hk, hwritten⟩ := mem_bodyLines.mp ((Output.collect_sublist _ _).subset hmem)
    exact ⟨k, e, _, hk, Expansion.render_of_servable hserved e, hwritten⟩
  · intro k source e out line hsource he hout hmem htagged
    rw [State.getElem?_expansions, hsource, Option.map_some, Option.some.injEq] at he
    rw [Expansion.render_of_servable hserved, Except.ok.injEq] at hout
    subst he hout
    exact isJoined_of_mem_written hmem htagged

/-- The shortest program that does not come out as it went in. -/
theorem expand_reconverts_iff_of_joined :
    Binary64.servable ({} : Settings).precision = true ∧
    expand {} "G9G80 8".toList = .ok ["G98".toList] ∧
    expand {} "G98".toList ≠ .ok ["G98".toList] ∧
    IsJoined "G9G80 8".toList "G98".toList := by
  obtain ⟨body, hbody, hiff, -, hjoined⟩ := expand_reconverts_iff {} rfl "G9G80 8".toList
  obtain rfl : body = ["G98".toList] := by
    refine Except.ok.inj (hbody.symm.trans ?_)
    decide
  have htagged : IsTagged "G98".toList := by decide
  refine ⟨rfl, hbody, fun hsame => ?_, ?_⟩
  · exact hiff.mp hsame _ (List.mem_singleton_self _) htagged
  · exact (hjoined 0 _ (.passed "G98".toList) ["G98".toList] _ rfl (by decide) rfl
      (List.mem_singleton_self _) htagged).2

end DrillCycles
