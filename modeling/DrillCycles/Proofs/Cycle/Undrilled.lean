import DrillCycles.Proofs.Cycle.Finite

/-!
# Holes that are not drilled

A block without a feed cuts nothing.  A notice tells of it when the R-plane or the depth is not known,
when the number of increments makes no sense, and when a move has no value.  Here are the holes that
none of these catches.

**Pecks.**  The feed to the final depth is left out when the increments come out even, and the last of
them is not drilled as a pass.  So nothing is cut on a travel of exactly one increment (`two_le_passes`
has the travels of more).  A travel upwards, or of nothing, has no passes, and a remainder above zero
only where it goes down.  `Peck.isSilent_iff` says that these are all.

**Main result.**  `undrilled_unnoticed_iff` is about whole blocks, their lines and all their notices.
-/

namespace DrillCycles.Peck

open Binary64

variable {rPlane depth increment increments travel : Binary64} {q t : Fin rankLimit}
variable {feedrate : Option Binary64}

/-- Pecks feed when there is a second pass to make room for, or something is left over. -/
lemma exists_feed_mem_drill_iff : (∃ m ∈ drill rPlane depth increment feedrate, m.kind = .feed) ↔
    1 < passes (wholeIncrements (rPlane - depth) increment) ∨
      zero < (rPlane - depth) % increment := by
  rw [drill]
  generalize passes (wholeIncrements (rPlane - depth) increment) = count
  constructor
  · rintro ⟨m, hm, -⟩
    rcases List.mem_append.mp hm with hpass | hlast
    · obtain ⟨number, hnumber, -⟩ := List.mem_flatMap.mp hpass
      rw [List.mem_range'_1] at hnumber
      exact Or.inl (by omega)
    · split at hlast
      · next hleft => exact Or.inr hleft
      · simp at hlast
  · rintro (hcount | hleft)
    · refine ⟨feedTo feedrate (some (passDepth rPlane increment 1)), ?_, rfl⟩
      refine List.mem_append_left _ (List.mem_flatMap.mpr ⟨1, ?_, List.mem_cons_self⟩)
      rw [List.mem_range'_1]
      omega
    · refine ⟨feedTo feedrate (some depth), List.mem_append_right _ ?_, rfl⟩
      rw [if_pos hleft]
      exact List.mem_singleton_self _

/-- Nothing is cut on this travel, and nothing is told about it. -/
structure IsSilent (travel increment : Binary64) : Prop where
  meant : isMeant (wholeIncrements travel increment) = true
  few : passes (wholeIncrements travel increment) ≤ 1
  even : ¬ zero < travel % increment

/-- On a travel upwards the number of increments is not positive, so it can be too large in one way
only, by not being finite. -/
lemma isSilent_negative_iff (hq : 0 < q.val) (t : Fin rankLimit) :
    IsSilent (.finite true t) (.finite false q) ↔
      (wholeIncrements (.finite true t) (.finite false q)).isFinite = true := by
  obtain ⟨rank, hrank⟩ := exists_floor_negative
    (nearestRank (units t * unitsPerOne) (units q))
  have hwhole : wholeIncrements (.finite true t) (.finite false q) = ofRank true rank := by
    rw [wholeIncrements, div_finite _ _ hq, nearest, hrank]
  rw [hwhole]
  constructor
  · intro h
    exact hwhole ▸ isFinite_of_isMeant h.meant
  · intro hfinite
    obtain ⟨s, x, hx⟩ := exists_of_isFinite hfinite
    obtain ⟨rfl, -⟩ := ofRank_eq_finite_iff.mp hx
    rw [hx] at hwhole
    refine ⟨by rw [hwhole, isMeant_negative], ?_, ?_⟩
    · rw [hwhole, passes_of_isMeant (isMeant_negative x)]
      exact Nat.zero_le 1
    · rw [rem_finite _ _ _ hq, nearest, ofRank]
      split
      · exact not_finite_lt_negative _ _
      · exact fun h => absurd h (by decide)

lemma isFinite_of_floor {v : Binary64} (h : v.floor.isFinite = true) : v.isFinite = true := by
  cases v with
  | finite s x => rfl
  | _ => exact h

/-- A travel of two or more whole increments has two or more passes, if it has a number of them. -/
lemma two_le_passes {k : ℕ} (hq : 0 < q.val) (hk : 2 ≤ k) (heven : units t = k * units q)
    (hmeant : isMeant (wholeIncrements (.finite false t) (.finite false q)) = true) :
    2 ≤ passes (wholeIncrements (.finite false t) (.finite false q)) := by
  have hfinite := isFinite_of_isMeant hmeant
  rw [passes_of_isMeant hmeant, wholeIncrements]
  rw [wholeIncrements] at hfinite
  obtain ⟨s, x, hx⟩ := exists_of_isFinite (isFinite_of_floor hfinite)
  have hquotient := hx
  rw [div_finite _ _ hq, nearest] at hquotient
  obtain ⟨rfl, hrank⟩ := ofRank_eq_finite_iff.mp hquotient
  have htwo : 2 * unitsPerOne ≤ units x := by
    obtain ⟨m, -, hm⟩ := ofNat_eq (n := 2) (by decide)
    have hscaled : units m * units q ≤ units t * unitsPerOne := by
      rw [hm, heven]
      calc 2 * unitsPerOne * units q = 2 * (units q * unitsPerOne) := by ring
        _ ≤ k * (units q * unitsPerOne) := Nat.mul_le_mul_right _ hk
        _ = k * units q * unitsPerOne := by ring
    rw [← hm, units_le_units, ← hrank, ← nearestRank_units (units_pos hq) m.val]
    exact nearestRank_mono (units_pos hq) hscaled
  rw [hx] at hfinite ⊢
  obtain ⟨y, hy, hreach⟩ := exists_floor_ge (by decide) htwo hfinite
  rw [hy]
  exact (Nat.le_div_iff_mul_le unitsPerOne_pos).mpr hreach

lemma wholeIncrements_self (hq : 0 < q.val) : ∃ x : Fin rankLimit,
    wholeIncrements (.finite false q) (.finite false q) = .finite false x ∧
      units x = 1 * unitsPerOne := by
  obtain ⟨x, hx, hunits⟩ := ofNat_eq (n := 1) (by decide)
  refine ⟨x, ?_, hunits⟩
  have hdiv : Binary64.finite false q / .finite false q = .finite false x := by
    rw [div_finite _ _ hq, ← hx, ofNat, nearest, nearest]
    exact congrArg _ (nearestRank_congr (units_pos hq) Nat.one_pos (by ring))
  rw [wholeIncrements, hdiv, floor, if_pos (by rw [hunits, Nat.mul_mod_left])]

/-- On a travel downwards there is nothing to cut if the travel is a single increment. -/
lemma isSilent_positive_iff (hq : 0 < q.val) (ht : 0 < t.val) :
    IsSilent (.finite false t) (.finite false q) ↔ t = q := by
  constructor
  · intro h
    have heven := h.even
    rw [zero_lt_rem_iff t hq, not_not] at heven
    obtain ⟨k, hk⟩ := heven
    rw [Nat.mul_comm] at hk
    have hpos : 0 < units t.val := units_pos ht
    obtain rfl : k = 1 := by
      rcases Nat.lt_trichotomy k 1 with hlt | heq | hgt
      · obtain rfl : k = 0 := by omega
        omega
      · exact heq
      · have := two_le_passes hq hgt hk h.meant
        have := h.few
        omega
    rw [Nat.one_mul] at hk
    exact Fin.ext (units_strictMono.injective hk)
  · rintro rfl
    obtain ⟨x, hx, hunits⟩ := wholeIncrements_self hq
    have hmeant : isMeant (wholeIncrements (.finite false t) (.finite false t)) = true := by
      rw [hx, isMeant_positive_iff, hunits]
      exact Nat.mul_le_mul_right _ (by decide)
    refine ⟨hmeant, ?_, ?_⟩
    · rw [passes_of_isMeant hmeant, hx]
      change units x / unitsPerOne ≤ 1
      rw [hunits, Nat.mul_div_cancel _ unitsPerOne_pos]
    · rw [zero_lt_rem_iff t hq, not_not]

/-- Without travel there is nothing to cut. -/
lemma isSilent_zero (hq : 0 < q.val) (ht : t.val = 0) :
    IsSilent (.finite false t) (.finite false q) ∧
      (wholeIncrements (.finite false t) (.finite false q)).isFinite = true := by
  have hwhole : wholeIncrements (.finite false t) (.finite false q) = zero := by
    rw [wholeIncrements, div_finite _ _ hq, ht, units_zero, Nat.zero_mul, nearest,
      nearestRank_zero (units_pos hq)]
    rfl
  have hmeant : isMeant zero = true := by
    rw [zero_eq, isMeant_positive_iff, units_zero]
    exact Nat.zero_le _
  rw [hwhole]
  refine ⟨⟨by rw [hwhole, hmeant], ?_, ?_⟩, rfl⟩
  · rw [hwhole, passes_of_isMeant hmeant, zero_eq]
    change units 0 / unitsPerOne ≤ 1
    rw [units_zero, Nat.zero_div]
    exact Nat.zero_le 1
  · rw [zero_lt_rem_iff t hq, ht, units_zero, not_not]
    exact dvd_zero _

/-- **Pecks cut nothing in silence** on a travel of exactly one increment, and on a travel upwards or of
nothing at all, as long as the number of increments is finite. -/
theorem isSilent_iff (hincrement : increment.isFinite = true) (hpos : zero < increment) :
    IsSilent travel increment ↔ travel = increment ∨
      travel ≤ zero ∧ (wholeIncrements travel increment).isFinite = true := by
  obtain ⟨q, rfl, hq⟩ := exists_of_zero_lt hpos hincrement
  have hvoid : ∀ {travel : Binary64}, (wholeIncrements travel (.finite false q)).isFinite = false →
      travel ≠ .finite false q → (IsSilent travel (.finite false q) ↔ travel = .finite false q ∨
        travel ≤ zero ∧ (wholeIncrements travel (.finite false q)).isFinite = true) := by
    intro travel hfinite hne
    have hmeant : isMeant (wholeIncrements travel (.finite false q)) = false := by
      rw [isMeant, hfinite, Bool.false_and]
    exact iff_of_false (fun h => Bool.false_ne_true (hmeant.symm.trans h.meant))
      (by simp [hne, hfinite])
  cases travel with
  | nan => exact hvoid rfl (by simp)
  | infinite s => exact hvoid rfl (by simp)
  | finite s t =>
    cases s with
    | true =>
        rw [isSilent_negative_iff hq]
        simp [negative_le_zero]
    | false =>
        rcases Nat.eq_zero_or_pos t.val with ht | ht
        · exact iff_of_true (isSilent_zero hq ht).1
            (Or.inr ⟨finite_le_zero.mpr ht, (isSilent_zero hq ht).2⟩)
        · rw [isSilent_positive_iff hq ht, finite_le_zero]
          simp [ht.ne']

end DrillCycles.Peck

namespace DrillCycles.Cycle

open Binary64

variable {settings : Settings} {h : Hole} {block : List Text} {unit : DwellUnit} {increment : Binary64}

lemma code_prefix_written_iff {precision : Option ℕ} {m : Motion} (kind : MoveKind) :
    kind.code <+: m.written precision ↔ m.kind = kind := by
  rw [Motion.written]
  cases kind <;> cases m.kind <;> simp [MoveKind.code]

lemma eq_written_of_render (hblock : h.render settings = .ok block) : block = h.written settings := by
  rw [Hole.render_eq] at hblock
  split at hblock
  · exact (Except.ok.inj hblock).symm
  · cases hblock

/-- A block has a feed exactly if the cut has one. -/
lemma exists_feed_mem_moves_iff :
    (∃ m ∈ h.moves unit, m.kind = .feed) ↔ ∃ m ∈ h.cut, m.kind = .feed := by
  constructor
  · rintro ⟨m, hm, hfeed⟩
    rcases mem_moves_iff.mp hm with hm | rfl | hm | hm
    · rw [(eq_of_mem_positioning hm).1] at hfeed
      cases hfeed
    · cases hfeed
    · exact ⟨m, hm, hfeed⟩
    · exact absurd hfeed (not_feed_of_mem_dwelling hm)
  · rintro ⟨m, hm, hfeed⟩
    exact ⟨m, mem_moves_iff.mpr (Or.inr (Or.inr (Or.inl hm))), hfeed⟩

/-- All that there is to tell about a hole is a warning. -/
lemma level_of_mem_notices {n : Notice} (hn : n ∈ h.notices settings) : n.level = .warn := by
  rw [Hole.notices, List.mem_append] at hn
  rcases hn with hn | hn
  · rw [Hole.peckNotices] at hn
    split at hn
    · rw [Peck.notices.eq_def] at hn
      split at hn
      · dsimp only at hn
        split at hn
        · simp at hn
        · rw [List.mem_singleton.mp hn]
          rfl
      · rw [List.mem_singleton.mp hn]
        rfl
    · simp at hn
  · obtain ⟨m, -, rfl⟩ := List.mem_map.mp hn
    rfl

lemma isBare_positioning {m : Motion} (hm : m ∈ h.positioning) : m.isBare = false := by
  obtain ⟨rfl, hnamed⟩ := eq_of_mem_positioning hm
  cases hx : h.x <;> cases hy : h.y <;> simp_all [Motion.isBare, Motion.of]

lemma isBare_dwelling {m : Motion} (hm : m ∈ h.dwelling unit) : m.isBare = false := by
  obtain ⟨time, -, -, rfl⟩ := eq_of_mem_dwelling hm
  rfl

lemma isBare_retraction : h.retraction.isBare = h.retract.isNone := by
  rw [Hole.retraction]
  cases h.retract <;> rfl

/-- In a block with pecks only the retraction can be without a value. -/
lemma bareMoves_eq_nil_iff (hblock : h.render settings = .ok block)
    (hincrement : Hole.positive? h.parameters.peckIncrement = some increment) :
    h.bareMoves settings = [] ↔ h.retract.isSome = true := by
  rw [Hole.render_eq] at hblock
  split at hblock
  · next hserved =>
      rw [Hole.bareMoves]
      cases hprecision : servable settings.precision with
      | true =>
          have hplunge : h.plunge = [] := by rw [Hole.plunge, hincrement]
          rw [if_pos rfl, List.filter_eq_nil_iff, Hole.movesWith, hplunge]
          constructor
          · intro hnone
            have hretraction := hnone h.retraction (by simp)
            rwa [isBare_retraction, Bool.not_eq_true, Option.isNone_eq_false_iff] at hretraction
          · intro hretract m hm
            simp only [List.nil_append, List.mem_append, List.mem_cons, List.not_mem_nil,
              or_false] at hm
            rw [Bool.not_eq_true]
            rcases hm with hm | rfl | hm | rfl
            · exact isBare_positioning hm
            · rw [isBare_retraction, Option.isNone_eq_false_iff, hretract]
            · exact isBare_dwelling hm
            · rw [isBare_retraction, Option.isNone_eq_false_iff, hretract]
      | false =>
          -- No number could be written, and the block was; so there is no number in it.
          rw [hprecision, Bool.false_or, List.all_eq_true] at hserved
          have hmem : h.retraction ∈ h.moves settings.dwellUnit :=
            mem_moves_iff.mpr (Or.inr (Or.inl rfl))
          have hretraction := hserved _ hmem
          rw [isBare_retraction] at hretraction
          refine iff_of_false ?_ (by simpa using hretraction)
          rw [if_neg Bool.false_ne_true, List.takeWhile_eq_self_iff.mpr hserved]
          exact List.ne_nil_of_mem hmem
  · cases hblock

/-- A hole that is not cut and not reported either. -/
def Hole.GoesUnnoticed (h : Hole) : Prop :=
  ∃ rPlane depth increment, h.parameters.rPlane = some rPlane ∧
    h.parameters.finalDepth = some depth ∧ h.parameters.peckIncrement = some increment ∧
    zero < increment ∧ h.retract.isSome = true ∧ (rPlane - depth = increment ∨
      rPlane - depth ≤ zero ∧ (Peck.wholeIncrements (rPlane - depth) increment).isFinite = true)

lemma positive?_eq_some_iff {value : Option Binary64} {x : Binary64} :
    Hole.positive? value = some x ↔ value = some x ∧ zero < x := by
  rw [Hole.positive?, Option.filter_eq_some_iff, decide_eq_true_eq]

/-- Without a positive increment there is a feed, and without R-plane or depth a notice. -/
lemma known_of_unnoticed (hfeed : ¬ ∃ m ∈ h.cut, m.kind = .feed) (hpecks : h.peckNotices = []) :
    ∃ rPlane depth increment, h.parameters.rPlane = some rPlane ∧
      h.parameters.finalDepth = some depth ∧
      Hole.positive? h.parameters.peckIncrement = some increment := by
  rw [Hole.peckNotices] at hpecks
  cases hincrement : Hole.positive? h.parameters.peckIncrement with
  | none =>
      refine absurd ⟨Peck.feedTo h.parameters.feedrate h.parameters.finalDepth, ?_, rfl⟩ hfeed
      rw [Hole.cut, Hole.plunge, hincrement]
      simp
  | some increment =>
      rw [hincrement] at hpecks
      cases hrPlane : h.parameters.rPlane with
      | none => simp [hrPlane, Peck.notices] at hpecks
      | some rPlane =>
          cases hdepth : h.parameters.finalDepth with
          | none => simp [hrPlane, hdepth, Peck.notices] at hpecks
          | some depth => exact ⟨rPlane, depth, increment, rfl, rfl, rfl⟩

/-- With all three values, pecks are neither cut nor reported when `Peck.IsSilent` says so. -/
lemma isSilent_iff_of_known {rPlane depth : Binary64} (hrPlane : h.parameters.rPlane = some rPlane)
    (hdepth : h.parameters.finalDepth = some depth)
    (hincrement : Hole.positive? h.parameters.peckIncrement = some increment) :
    (¬ ∃ m ∈ h.cut, m.kind = .feed) ∧ h.peckNotices = [] ↔
      Peck.IsSilent (rPlane - depth) increment := by
  have hcut : h.cut = Peck.drill rPlane depth increment h.parameters.feedrate := by
    rw [Hole.cut, Hole.pecks, Hole.plunge, hincrement, hrPlane, hdepth, List.append_nil]
    rfl
  have hpecks : h.peckNotices = [] ↔
      Peck.isMeant (Peck.wholeIncrements (rPlane - depth) increment) = true := by
    rw [Hole.peckNotices, hincrement, hrPlane, hdepth]
    simp [Peck.notices]
  rw [hcut, Peck.exists_feed_mem_drill_iff, hpecks, not_or, not_lt]
  constructor
  · rintro ⟨⟨hfew, heven⟩, hmeant⟩
    exact ⟨hmeant, hfew, heven⟩
  · intro hsilent
    exact ⟨⟨hsilent.few, hsilent.even⟩, hsilent.meant⟩

lemma Hole.IsFinite.unnoticed_iff (hfinite : h.IsFinite) (hblock : h.render settings = .ok block) :
    (¬ ∃ m ∈ h.cut, m.kind = .feed) ∧ h.notices settings = [] ↔ h.GoesUnnoticed := by
  rw [Hole.notices, List.append_eq_nil_iff, List.map_eq_nil_iff]
  constructor
  · rintro ⟨hfeed, hpecks, hbare⟩
    obtain ⟨rPlane, depth, increment, hrPlane, hdepth, hincrement⟩ := known_of_unnoticed hfeed hpecks
    obtain ⟨hknown, hpos⟩ := positive?_eq_some_iff.mp hincrement
    have hsilent := (isSilent_iff_of_known hrPlane hdepth hincrement).mp ⟨hfeed, hpecks⟩
    exact ⟨rPlane, depth, increment, hrPlane, hdepth, hknown, hpos,
      (bareMoves_eq_nil_iff hblock hincrement).mp hbare,
      (Peck.isSilent_iff (hfinite.parameters.peckIncrement _ hknown) hpos).mp hsilent⟩
  · rintro ⟨rPlane, depth, increment, hrPlane, hdepth, hknown, hpos, hretract, htravel⟩
    have hincrement := positive?_eq_some_iff.mpr ⟨hknown, hpos⟩
    obtain ⟨hfeed, hpecks⟩ := (isSilent_iff_of_known hrPlane hdepth hincrement).mpr
      ((Peck.isSilent_iff (hfinite.parameters.peckIncrement _ hknown) hpos).mpr htravel)
    exact ⟨hfeed, hpecks, (bareMoves_eq_nil_iff hblock hincrement).mpr hretract⟩

/-- **Which holes are neither drilled nor reported.**  Of the holes of a program these are the holes
with a positive increment, all heights known, and a travel that is exactly one increment, or none, or
upwards with a finite number of increments.  For every other hole there is a feed or a warning. -/
theorem undrilled_unnoticed_iff {lines : List Text} {k : ℕ}
    (hdrilled : (State.expansions {} lines)[k]? = some (.drilled h))
    (hblock : h.render settings = .ok block) :
    (∀ line ∈ block, ¬ "G1".toList <+: line) ∧ (∀ n ∈ h.notices settings, n.level ≠ .warn) ↔
      h.GoesUnnoticed := by
  have hfinite : h.IsFinite :=
    State.isFinite_of_expansions ⟨finiteIfKnown_none, Parameters.isFinite_empty⟩ hdrilled
  have hlines : (∀ line ∈ block, ¬ "G1".toList <+: line) ↔ ¬ ∃ m ∈ h.cut, m.kind = .feed := by
    rw [eq_written_of_render hblock, Hole.written, ← exists_feed_mem_moves_iff]
    simp only [List.forall_mem_map, not_exists, not_and]
    exact forall₂_congr fun m _ => not_congr (code_prefix_written_iff .feed)
  have hnotices : (∀ n ∈ h.notices settings, n.level ≠ .warn) ↔ h.notices settings = [] := by
    rw [List.eq_nil_iff_forall_not_mem]
    exact forall_congr' fun n =>
      ⟨fun hlevel hn => hlevel hn (level_of_mem_notices hn), fun hnot hn => absurd hn hnot⟩
  rw [hlines, hnotices, hfinite.unnoticed_iff hblock]

/-- A hole with the R-plane at its depth. -/
def noTravel : Hole where
  line := "X1 Z-2 R-2 Q1".toList
  x := some (.ofNat 1)
  y := none
  retract := some (.ofDecimal true 2 0)
  parameters := {
    rPlane := some (.ofDecimal true 2 0)
    finalDepth := some (.ofDecimal true 2 0)
    peckIncrement := some (.ofNat 1) }

theorem undrilled_unnoticed_iff_noTravel :
    (State.expansions {} ["G99".toList, "G83 X1 Z-2 R-2 Q1".toList])[1]? = some (.drilled noTravel) ∧
    noTravel.render {} = .ok ["G0 X1".toList, "G0 Z-2".toList, "G0 Z-2".toList] ∧
    noTravel.GoesUnnoticed := by
  have hdrilled : (State.expansions {} ["G99".toList, "G83 X1 Z-2 R-2 Q1".toList])[1]? =
      some (.drilled noTravel) := by
    decide +kernel
  have hblock : noTravel.render {} = .ok ["G0 X1".toList, "G0 Z-2".toList, "G0 Z-2".toList] := by
    decide +kernel
  exact ⟨hdrilled, hblock, (undrilled_unnoticed_iff hdrilled hblock).mp ⟨by decide, by decide +kernel⟩⟩

/-- A hole of exactly one increment is not drilled, and nobody is warned. -/
theorem undrilled_without_warning : ∃ hole block,
    (State.expansions {} ["G99".toList, "G83 X0 Y0 Z-2 R0 Q2 F50".toList])[1]? =
      some (.drilled hole) ∧
    hole.render {} = .ok block ∧ block = ["G0 X0 Y0".toList, "G0 Z0".toList, "G0 Z0".toList] ∧
    (∀ line ∈ block, ¬ "G1".toList <+: line) ∧ ¬ ∃ n ∈ hole.notices {}, n.level = .warn := by
  refine ⟨⟨"X0 Y0 Z-2 R0 Q2 F50".toList, some .zero, some .zero, some .zero,
    ⟨some .zero, some (.ofDecimal true 2 0), some (.ofNat 50), none, some (.ofNat 2)⟩⟩, _,
    ?_, ?_, rfl, ?_, ?_⟩
  · decide +kernel
  · decide +kernel
  · decide
  · decide +kernel

end DrillCycles.Cycle
