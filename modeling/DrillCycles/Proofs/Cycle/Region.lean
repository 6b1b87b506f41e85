import DrillCycles.Proofs.Cycle.Block
import DrillCycles.Proofs.Cycle.History

/-!
# The holes of a region

A region is what stands under one start line.  The cycle stays open in it (`openAfter_of_region`), so
nothing passes through, and the height from before the cycle stays (`initialZ_run_of_region`); the
start tag stays as well (`isLatest_firstStart_of_region`).

**Main result.**  `hole_blocks_safe` says that every hole line of a program becomes a block in the sense
of `IsBlock`, and that under a start tag for the height from before the cycle all blocks of a region
have the same level to retract to, with nothing written between them.
-/

namespace DrillCycles.Cycle

variable {lines : List Text} {line text : Text} {s : State} {k : ℕ}

lemma initialZ_step_of_open (hopen : (s.entered line).active = true) :
    (s.step line).1.initialZ = s.initialZ := by
  by_cases hhole : InvokesHole line
  · rw [State.step_of_hole hopen hhole]
    exact State.initialZ_drilled s line
  · rw [State.step_of_open hopen hhole]
    exact State.initialZ_entered s line

/-- Without stop lines in between, the cycle is still open. -/
lemma openAfter_of_region {k₁ k₂ : ℕ} (hle : k₁ ≤ k₂) (hlen : k₂ < lines.length)
    (hopen : OpenAfter lines (k₁ + 1)) (hstop : ∀ j, k₁ < j → j ≤ k₂ → ¬ StopsAt lines j) :
    OpenAfter lines (k₂ + 1) := by
  induction k₂, hle using Nat.le_induction with
  | base => exact hopen
  | succ k hle ih =>
      have hline : lines[k + 1]? = some lines[k + 1] := List.getElem?_eq_getElem hlen
      have hnot : ¬ IsStop lines[k + 1] := fun h =>
        hstop (k + 1) (by omega) le_rfl ((stopsAt_iff hline).mpr h)
      have hbefore := ih (by omega) fun j h₁ h₂ => hstop j h₁ (by omega)
      exact (openAfter_succ_iff hline).mpr (Or.inr ⟨hnot, hbefore⟩)

/-- Nothing passes through in between, so the height from before the cycle stays. -/
lemma initialZ_run_of_region {k₁ k₂ : ℕ} (hle : k₁ ≤ k₂) (hlen : k₂ < lines.length)
    (hopen : OpenAfter lines (k₁ + 1)) (hstop : ∀ j, k₁ < j → j ≤ k₂ → ¬ StopsAt lines j) :
    (State.run {} (lines.take (k₂ + 1))).initialZ =
      (State.run {} (lines.take (k₁ + 1))).initialZ := by
  induction k₂, hle using Nat.le_induction with
  | base => rfl
  | succ k hle ih =>
      have hline : lines[k + 1]? = some lines[k + 1] := List.getElem?_eq_getElem hlen
      have hafter := openAfter_of_region (Nat.le_succ_of_le hle) hlen hopen hstop
      rw [State.run_take_succ hline, initialZ_step_of_open ((active_entered_run hline).mpr hafter)]
      exact ih (by omega) fun j h₁ h₂ => hstop j h₁ (by omega)

/-- A cycle is open under a start tag, and retracts as this tag says. -/
lemma exists_startTag {n : ℕ} (h : Recalls lines n s) (hopen : OpenAfter lines n) :
    ∃ tag, IsLatest (FirstStartAt lines) n (some tag) ∧
      ((tag = .startInitialPlane ∧ s.retractLevel = s.initialZ) ∨
        (tag = .startRPlane ∧ s.retractLevel = s.parameters.rPlane)) := by
  obtain ⟨tag?, hlatest, hmode⟩ := h.retractMode
  cases tag? with
  | none =>
      obtain ⟨j, hj, ⟨line, hline, hstart⟩, -⟩ := hopen
      obtain ⟨tag, htag⟩ := exists_isFirst_of_isStart hstart
      exact absurd ⟨line, hline, htag⟩ (hlatest j hj tag)
  | some tag =>
      refine ⟨tag, hlatest, ?_⟩
      obtain ⟨j, -, ⟨line, -, hfirst⟩, -⟩ := hlatest
      have hmem : tag = .startInitialPlane ∨ tag = .startRPlane := by
        simpa [Tag.starts] using hfirst.1
      rcases hmem with rfl | rfl
      · exact Or.inl ⟨rfl, by rw [State.retractLevel, hmode]; rfl⟩
      · exact Or.inr ⟨rfl, by rw [State.retractLevel, hmode]; rfl⟩

lemma retractLevel_of_startInitialPlane {n : ℕ} (h : Recalls lines n s)
    (hlatest : IsLatest (FirstStartAt lines) n (some .startInitialPlane)) :
    s.retractLevel = s.initialZ := by
  obtain ⟨tag?, hlatest', hmode⟩ := h.retractMode
  obtain rfl := hlatest'.unique (firstStartAt_unique lines) hlatest
  rw [State.retractLevel, hmode]
  rfl

/-- Without start lines in between, the same start tag is the latest one. -/
lemma isLatest_firstStart_of_region {k₁ k₂ : ℕ} {tag : Tag} (hle : k₁ ≤ k₂)
    (hlatest : IsLatest (FirstStartAt lines) (k₁ + 1) (some tag))
    (hstart : ∀ j, k₁ < j → j ≤ k₂ → ¬ StartsAt lines j) :
    IsLatest (FirstStartAt lines) (k₂ + 1) (some tag) := by
  obtain ⟨j, hj, htag, hlater⟩ := hlatest
  refine ⟨j, by omega, htag, fun k hjk hk other hother => ?_⟩
  by_cases hfirst : k < k₁ + 1
  · exact hlater k hjk hfirst other hother
  · obtain ⟨line, hline, hother⟩ := hother
    exact hstart k (by omega) (by omega) ⟨line, hline, isStart_of_isFirst hother⟩

/-- The lines from `k₁` to `k₂` stand under one start line. -/
def SameRegion (lines : List Text) (k₁ k₂ : ℕ) : Prop :=
  ∀ j, k₁ < j → j ≤ k₂ → ¬ StartsAt lines j ∧ ¬ StopsAt lines j

lemma drillsAt_of_drilled {hole : Hole}
    (h : (State.expansions {} lines)[k]? = some (.drilled hole)) :
    ∃ text, DrillsAt lines k text := by
  by_contra hdrills
  have hpasses : ∀ text, ¬ PassesAt lines k text := by
    intro text hpasses
    rw [expansion_of_passesAt hpasses] at h
    cases h
  have hline := List.getElem?_eq_getElem (lt_length_of_expansions h)
  rcases expansion_of_silent hline (not_exists.mp hdrills) hpasses with hnothing | ⟨rest, hdropped⟩
  · rw [hnothing] at h
    cases h
  · rw [hdropped] at h
    cases h

/-- **A hole and its block**, for the hole line at `k` with this text. -/
structure SafeBlock (settings : Settings) (lines : List Text) (k : ℕ) (text : Text)
    (hole : Hole) : Prop where
  expanded : (State.expansions {} lines)[k]? = some (.drilled hole)
  level : ∃ tag, IsLatest (FirstStartAt lines) (k + 1) (some tag) ∧
    ((tag = .startInitialPlane ∧
        hole.retract = (State.run {} (lines.take (k + 1))).initialZ) ∨
      (tag = .startRPlane ∧
        hole.retract = (State.run {} (lines.take (k + 1))).parameters.rPlane))
  parts : ∃ positioning cut dwelling, IsBlock settings.dwellUnit (HoleWords.read text)
    (State.run {} (lines.take (k + 1))).parameters hole.retract positioning cut dwelling
    (hole.moves settings.dwellUnit)
  /-- The lines that come out are the moves in this order. -/
  written : ∀ out, hole.render settings = .ok out →
    List.Forall₂ (fun m line => m.render settings.precision = .ok line)
      (hole.moves settings.dwellUnit) out
  served : Binary64.servable settings.precision = true → ∃ out, hole.render settings = .ok out

lemma forall₂_render {settings : Settings} {hole : Hole} {out : List Text}
    (h : hole.render settings = .ok out) :
    List.Forall₂ (fun m line => m.render settings.precision = .ok line)
      (hole.moves settings.dwellUnit) out := by
  rw [Hole.render_eq] at h
  split at h
  · next hserved =>
      rw [← Except.ok.inj h, Hole.written, List.forall₂_map_right_iff, List.forall₂_same]
      intro m hm
      have hbare : (Binary64.servable settings.precision || m.isBare) = true := by
        rw [Bool.or_eq_true] at hserved ⊢
        exact hserved.imp_right fun hall => List.all_eq_true.mp hall m hm
      rw [Motion.render_eq, if_pos hbare]
  · cases h

lemma safeBlock_of_drillsAt (settings : Settings) (h : DrillsAt lines k text) :
    SafeBlock settings lines k text
      ((State.run {} (lines.take (k + 1))).hole text (HoleWords.read text)) := by
  have hlt : k < lines.length := by
    obtain ⟨-, line, hline, -⟩ := h
    exact (List.getElem?_eq_some_iff.mp hline).1
  refine ⟨expansion_of_drillsAt h, exists_startTag (recalls_run lines hlt) h.1,
    isBlock_moves _ _ _ _, fun out hout => forall₂_render hout, fun hserved => ?_⟩
  exact ⟨_, Hole.render_of_servable hserved _⟩

/-- A line of an open cycle that drills no hole writes nothing. -/
lemma render_of_open (settings : Settings) (hline : lines[k]? = some line)
    (hopen : OpenAfter lines (k + 1))
    (hdrilled : ∀ hole, (State.expansions {} lines)[k]? ≠ some (.drilled hole)) :
    ∃ e, (State.expansions {} lines)[k]? = some e ∧ e.render settings = .ok [] := by
  rcases expansion_of_silent hline (fun text h => hdrilled _ (expansion_of_drillsAt h))
    (fun text h => h.1 hopen) with hnothing | ⟨rest, hdropped⟩
  · exact ⟨_, hnothing, rfl⟩
  · exact ⟨_, hdropped, rfl⟩

/-- **No rapid goes down into the material, and no feed goes sideways.**  Every hole line of a program
becomes a block with the parts of `IsBlock`, whose retract level is the height from before the cycle
or the R-plane, as the start tag says.  Under one start tag for the height from before the cycle all
blocks have the same level, and nothing is written between two of them: the tool moves from hole to
hole at this level. -/
theorem hole_blocks_safe (settings : Settings) (lines : List Text) :
    (∀ k text, DrillsAt lines k text → ∃ hole, SafeBlock settings lines k text hole) ∧
    ∀ k₁ k₂ hole₁ hole₂, k₁ < k₂ → SameRegion lines k₁ k₂ →
      (State.expansions {} lines)[k₁]? = some (.drilled hole₁) →
      (State.expansions {} lines)[k₂]? = some (.drilled hole₂) →
      (IsLatest (FirstStartAt lines) (k₁ + 1) (some .startInitialPlane) →
        hole₁.retract = hole₂.retract) ∧
      ∀ j, k₁ < j → j < k₂ →
        (∀ hole, (State.expansions {} lines)[j]? ≠ some (.drilled hole)) →
        ∃ e, (State.expansions {} lines)[j]? = some e ∧ e.render settings = .ok [] := by
  refine ⟨fun k text h => ⟨_, safeBlock_of_drillsAt settings h⟩, ?_⟩
  intro k₁ k₂ hole₁ hole₂ hlt hregion h₁ h₂
  obtain ⟨text₁, hdrills₁⟩ := drillsAt_of_drilled h₁
  obtain ⟨text₂, hdrills₂⟩ := drillsAt_of_drilled h₂
  have hlen := lt_length_of_expansions h₂
  refine ⟨fun hlatest₁ => ?_, fun j hj₁ hj₂ hdrilled => ?_⟩
  · have hlatest₂ := isLatest_firstStart_of_region hlt.le hlatest₁
      fun j hj₁ hj₂ => (hregion j hj₁ hj₂).1
    have hz := initialZ_run_of_region hlt.le hlen hdrills₁.1
      fun j hj₁ hj₂ => (hregion j hj₁ hj₂).2
    rw [expansion_of_drillsAt hdrills₁, Option.some.injEq, Expansion.drilled.injEq] at h₁
    rw [expansion_of_drillsAt hdrills₂, Option.some.injEq, Expansion.drilled.injEq] at h₂
    rw [← h₁, ← h₂]
    show State.retractLevel _ = State.retractLevel _
    rw [retractLevel_of_startInitialPlane (recalls_run lines (by omega)) hlatest₁,
      retractLevel_of_startInitialPlane (recalls_run lines (by omega)) hlatest₂, hz]
  · have hjlen : j < lines.length := by omega
    have hopen : OpenAfter lines (j + 1) := openAfter_of_region hj₁.le hjlen hdrills₁.1
      fun i hi₁ hi₂ => (hregion i hi₁ (by omega)).2
    exact render_of_open settings (List.getElem?_eq_getElem hjlen) hopen hdrilled

theorem hole_blocks_safe_twoHoles :
    SameRegion twoHoles 1 3 ∧ IsLatest (FirstStartAt twoHoles) 2 (some .startInitialPlane) ∧
    ∃ hole₁ hole₂, SafeBlock {} twoHoles 1 "X1 Z-2 R1 F60".toList hole₁ ∧
      SafeBlock {} twoHoles 3 "X2".toList hole₂ ∧ hole₁.retract = hole₂.retract ∧
      ∃ e, (State.expansions {} twoHoles)[2]? = some e ∧ e.render {} = .ok [] := by
  have hregion : SameRegion twoHoles 1 3 := by
    intro j hlow hhigh
    obtain rfl | rfl : j = 2 ∨ j = 3 := by omega
    all_goals
      rw [startsAt_iff rfl, stopsAt_iff rfl]
      decide
  have hlatest : IsLatest (FirstStartAt twoHoles) 2 (some .startInitialPlane) := by
    refine ⟨1, by decide, ⟨_, rfl, Tag.find?_eq_some_iff.mp (by decide)⟩, fun k hk hk' => ?_⟩
    omega
  have hremark : ∀ hole, (State.expansions {} twoHoles)[2]? ≠ some (.drilled hole) := by
    intro hole hdrilled
    obtain ⟨text, hdrills⟩ := drillsAt_of_drilled hdrilled
    exact absurd ((drillsAt_iff rfl).mp hdrills).2.1 (by decide)
  obtain ⟨hblocks, hlevels⟩ := hole_blocks_safe {} twoHoles
  obtain ⟨hole₁, h₁⟩ := hblocks 1 _ drillsAt_twoHoles_one
  obtain ⟨hole₂, h₂⟩ := hblocks 3 _ drillsAt_twoHoles_three
  obtain ⟨hlevel, hsilent⟩ := hlevels 1 3 hole₁ hole₂ (by decide) hregion h₁.expanded h₂.expanded
  exact ⟨hregion, hlatest, hole₁, hole₂, h₁, h₂, hlevel hlatest,
    hsilent 2 (by decide) (by decide) hremark⟩

end DrillCycles.Cycle
