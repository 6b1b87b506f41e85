import DrillCycles.Proofs.Cycle.Block
import DrillCycles.Proofs.Cycle.Failure
import DrillCycles.Proofs.Cycle.PeckDepth

/-!
# The pecks of a hole, move by move

The travel is divided by the increment, rounded down, and made a natural number that a loop counts to.
Each of these steps has its limits: the quotient may be negative, infinite or no number at all, and
beyond a hundred thousand it is not believed.

* **`IsPassCount`** says which natural number is meant by a number of increments.  Because the latter is
  whole, it is this number and not only close to it (`isPassCount_passes`).
* **`IsPeckSequence`** says which move stands at which place, for a given number of passes.
* **`peck_sequence`** puts both together, and adds what follows: feeds and rapids take turns, and no line
  of a program comes to more lines than the passes that are believed.
-/

namespace DrillCycles

open Binary64 Peck

variable {rPlane depth increment increments : Binary64} {feedrate : Option Binary64} {n : ℕ}

namespace Peck

/-! ### The number of passes -/

/-- **The number of passes** that is meant by a number of increments: the number itself if it lies
between zero and the largest number of passes, and zero otherwise. -/
structure IsPassCount (increments : Binary64) (n : ℕ) : Prop where
  within : zero ≤ increments → increments ≤ .ofNat maxPasses →
    .ofNat n ≤ increments ∧ increments ≤ .ofNat n
  negative : increments < zero → n = 0
  notFinite : increments.isFinite = false → n = 0
  excessive : .ofNat maxPasses < increments → n = 0

lemma passes_of_not_isMeant (h : isMeant increments = false) : passes increments = 0 := by
  rw [passes, h, if_neg Bool.false_ne_true]

lemma passes_le_toNat (increments : Binary64) : passes increments ≤ increments.toNat := by
  rw [passes]
  split
  · exact le_rfl
  · exact Nat.zero_le _

lemma toNat_of_negative (h : increments < zero) : increments.toNat = 0 := by
  cases increments with
  | finite s x =>
      cases s with
      | true => rfl
      | false =>
          rw [zero_eq, finite_lt_finite] at h
          exact absurd h (Nat.not_lt_zero _)
  | _ => rfl

/-- A whole number of increments in the range is the number of passes. -/
lemma passes_within {x : Fin rankLimit} (hwhole : unitsPerOne ∣ units x)
    (hle : Binary64.finite false x ≤ .ofNat maxPasses) :
    ofNat (passes (.finite false x)) = .finite false x := by
  obtain ⟨limit, hlimit, hunits⟩ := ofNat_eq maxPasses_le
  rw [hlimit, finite_le_finite, ← units_le_units, hunits] at hle
  rw [passes_of_isMeant ((isMeant_positive_iff x).mpr hle)]
  exact ofNat_toNat hwhole (hle.trans (Nat.mul_le_mul_right _ maxPasses_le))

/-- The number of passes is what is meant by the whole part of a quotient. -/
lemma isPassCount_passes (quotient : Binary64) :
    IsPassCount quotient.floor (passes quotient.floor) := by
  refine ⟨fun hzero hmax => ?_, fun hnegative => ?_, fun hinfinite => ?_, fun hmax => ?_⟩
  · cases hfloor : quotient.floor with
    | nan =>
        rw [hfloor] at hzero
        exact absurd hzero (by decide)
    | infinite s =>
        obtain ⟨limit, hlimit, -⟩ := ofNat_eq maxPasses_le
        rw [hfloor] at hzero hmax
        cases s with
        | true => exact absurd hzero (by decide)
        | false =>
            rw [hlimit] at hmax
            have hle : (rankLimit : ℤ) ≤ limit.val := of_decide_eq_true hmax
            omega
    | finite s x =>
        rw [hfloor] at hzero hmax
        cases s with
        -- Negative zero is the only number with a sign that is not below zero.
        | true =>
            have hnone : passes (.finite true x) = 0 := Nat.le_zero.mp (passes_le_toNat _)
            rw [hnone, ofNat_zero]
            exact ⟨hzero, negative_le_zero x⟩
        | false =>
            rw [passes_within (unitsPerOne_dvd_of_floor_eq hfloor) hmax]
            exact ⟨finite_le_finite.mpr le_rfl, finite_le_finite.mpr le_rfl⟩
  · exact Nat.le_zero.mp ((passes_le_toNat _).trans_eq (toNat_of_negative hnegative))
  · exact passes_of_not_isMeant (by simp [isMeant, hinfinite])
  · exact passes_of_not_isMeant (by simp [isMeant, hmax])

/-! ### The moves -/

/-- **The moves from the R-plane to the final depth** with this number of passes.  Of the passes all but
the last are drilled, each of them two moves. -/
structure IsPeckSequence (rPlane depth increment : Binary64) (feedrate : Option Binary64) (n : ℕ)
    (moves : List Motion) : Prop where
  feed : ∀ k, 1 ≤ k → k < n → moves[2 * k - 2]? =
    some (.of .feed [('F', feedrate), ('Z', some (snap (rPlane - .ofNat k * increment)))])
  rapid : ∀ k, 1 ≤ k → k < n → moves[2 * k - 1]? = some (.of .rapid [('Z', some rPlane)])
  last : zero < (rPlane - depth) % increment → moves[2 * n - 2]? =
    some (.of .feed [('F', feedrate), ('Z', some depth)])
  /-- There are no other moves. -/
  length : moves.length = 2 * n - 2 + if zero < (rPlane - depth) % increment then 1 else 0

/-- The two moves of a pass stand at the places of the pass. -/
lemma getElem?_flatMap_pass (rPlane increment : Binary64) (feedrate : Option Binary64)
    (numbers : List ℕ) (i : ℕ) :
    (numbers.flatMap (pass rPlane increment feedrate))[2 * i]? =
        numbers[i]?.map (fun number => feedTo feedrate (some (passDepth rPlane increment number))) ∧
      (numbers.flatMap (pass rPlane increment feedrate))[2 * i + 1]? =
        numbers[i]?.map (fun _ => rapidTo (some rPlane)) := by
  induction numbers generalizing i with
  | nil => exact ⟨rfl, rfl⟩
  | cons number numbers ih =>
      cases i with
      | zero => exact ⟨rfl, rfl⟩
      | succ i => exact ih i

lemma length_flatMap_pass (rPlane increment : Binary64) (feedrate : Option Binary64)
    (numbers : List ℕ) :
    (numbers.flatMap (pass rPlane increment feedrate)).length = 2 * numbers.length := by
  induction numbers with
  | nil => rfl
  | cons number numbers ih =>
      rw [List.flatMap_cons, List.length_append, ih, pass, List.length_cons]
      simp
      omega

lemma isPeckSequence_drill (rPlane depth increment : Binary64) (feedrate : Option Binary64) :
    IsPeckSequence rPlane depth increment feedrate
      (passes (wholeIncrements (rPlane - depth) increment))
      (drill rPlane depth increment feedrate) := by
  rw [drill]
  set n := passes (wholeIncrements (rPlane - depth) increment)
  have hlength : ((List.range' 1 (n - 1)).flatMap (pass rPlane increment feedrate)).length =
      2 * n - 2 := by
    rw [length_flatMap_pass, List.length_range', Nat.mul_sub]
  have hplace : ∀ k, 1 ≤ k → k < n → (List.range' 1 (n - 1))[k - 1]? = some k := by
    intro k hlow hhigh
    rw [List.getElem?_range' (by omega)]
    congr 1
    omega
  refine ⟨fun k hlow hhigh => ?_, fun k hlow hhigh => ?_, fun hleft => ?_, ?_⟩
  · have hfeed := (getElem?_flatMap_pass rPlane increment feedrate (List.range' 1 (n - 1)) (k - 1)).1
    rw [hplace k hlow hhigh, Nat.mul_sub] at hfeed
    rw [List.getElem?_append_left (by omega), hfeed]
    rfl
  · have hrapid := (getElem?_flatMap_pass rPlane increment feedrate (List.range' 1 (n - 1)) (k - 1)).2
    have hindex : 2 * (k - 1) + 1 = 2 * k - 1 := by omega
    rw [hplace k hlow hhigh, hindex] at hrapid
    rw [List.getElem?_append_left (by omega), hrapid]
    rfl
  · rw [if_pos hleft, List.getElem?_append_right (by omega), hlength, Nat.sub_self]
    rfl
  · rw [List.length_append, hlength]
    split <;> rfl

/-- Feeds and rapids take turns, beginning with a feed. -/
def Alternates (moves : List Motion) : Prop :=
  ∀ i m, moves[i]? = some m → m.kind = if i % 2 = 0 then .feed else .rapid

lemma IsPeckSequence.alternates {moves : List Motion}
    (h : IsPeckSequence rPlane depth increment feedrate n moves) : Alternates moves := by
  intro i m hm
  have hlt : i < moves.length := (List.getElem?_eq_some_iff.mp hm).1
  rw [h.length] at hlt
  by_cases hpass : i < 2 * n - 2
  · -- The move belongs to the pass with this number.
    have hlow : 1 ≤ i / 2 + 1 := by omega
    have hhigh : i / 2 + 1 < n := by omega
    split
    · next heven =>
        have hindex : 2 * (i / 2 + 1) - 2 = i := by omega
        have hfeed := h.feed _ hlow hhigh
        rw [hindex, hm, Option.some.injEq] at hfeed
        rw [hfeed]
        rfl
    · next hodd =>
        have hindex : 2 * (i / 2 + 1) - 1 = i := by omega
        have hrapid := h.rapid _ hlow hhigh
        rw [hindex, hm, Option.some.injEq] at hrapid
        rw [hrapid]
        rfl
  · split at hlt
    · next hleft =>
        have hindex : 2 * n - 2 = i := by omega
        have hlast := h.last hleft
        rw [hindex, hm, Option.some.injEq] at hlast
        have heven : i % 2 = 0 := by omega
        rw [hlast, if_pos heven]
        rfl
    · omega

lemma IsPeckSequence.length_le {moves : List Motion}
    (h : IsPeckSequence rPlane depth increment feedrate n moves) (hn : n ≤ maxPasses) :
    moves.length ≤ 199999 := by
  have hmax : maxPasses = 100000 := rfl
  rw [h.length]
  split <;> omega

lemma moves_none_right (rPlane : Option Binary64) (increment : Binary64)
    (feedrate : Option Binary64) : Peck.moves rPlane none increment feedrate = [] := by
  cases rPlane <;> rfl

/-- The moves of a peck hole take turns, and there is a bound on them. -/
lemma moves_bounded (rPlane depth : Option Binary64) (increment : Binary64)
    (feedrate : Option Binary64) : Alternates (Peck.moves rPlane depth increment feedrate) ∧
      (Peck.moves rPlane depth increment feedrate).length ≤ 199999 := by
  cases rPlane with
  | none => exact ⟨by simp [Alternates, Peck.moves], Nat.zero_le _⟩
  | some r =>
      cases depth with
      | none => exact ⟨by simp [Alternates, Peck.moves], Nat.zero_le _⟩
      | some z =>
          have hdrill := isPeckSequence_drill r z increment feedrate
          exact ⟨hdrill.alternates, hdrill.length_le (passes_le_maxPasses _)⟩

end Peck

/-! ### Lines of a line -/

namespace Cycle

variable {settings : Settings} {raw : Text} {s after : State} {out : List Text}

lemma Hole.length_cut_le (h : Hole) : h.cut.length ≤ 199999 := by
  rw [Hole.cut, Hole.pecks, Hole.plunge]
  cases Hole.positive? h.parameters.peckIncrement with
  | none => simp
  | some increment =>
      rw [List.append_nil]
      exact (moves_bounded _ _ _ _).2

/-- Around the cut there are at most four moves. -/
lemma Hole.length_moves_le (unit : DwellUnit) (h : Hole) : (h.moves unit).length ≤ 200003 := by
  have hpositioning : h.positioning.length ≤ 1 := by
    rw [Hole.positioning]
    split <;> simp
  have hdwelling : (h.dwelling unit).length ≤ 1 := by
    rw [Hole.dwelling]
    split <;> simp
  have hcut := h.length_cut_le
  rw [moves_eq, List.length_append, List.length_cons, List.length_append, List.length_append,
    List.length_singleton]
  omega

lemma Expansion.length_written_le (settings : Settings) (e : Expansion) :
    (e.written settings).length ≤ 200003 := by
  cases e with
  | drilled hole =>
      rw [Expansion.written, Hole.written, List.length_map]
      exact hole.length_moves_le _
  | _ => simp [Expansion.written]

/-- No line comes to more lines than a hole has moves. -/
theorem length_le_of_expandLine (h : expandLine settings raw s = .ok out after) :
    out.length ≤ 200003 := by
  rw [expandLine_eq] at h
  obtain ⟨-, hrender⟩ := leaving_eq_ok h
  rw [Expansion.render_eq] at hrender
  split at hrender
  · rw [← Except.ok.inj hrender]
    exact Expansion.length_written_le _ _
  · cases hrender

/-- **What pecks a hole has, and how many.**  Without R-plane or final depth there are none.  With both,
the number of passes is the number of whole increments in the travel, and zero when this number is
negative, not finite or above a hundred thousand.  For each pass but the last there is a feed to its
depth, rounded to billionths, and a rapid to the R-plane; then a feed to the final depth itself if and
only if something is left of the travel.  So feeds and rapids take turns, there are at most 199999 of
them, and a line comes to at most 200003 lines, whatever it is and whatever the state and the
settings. -/
theorem peck_sequence (increment : Binary64) (feedrate : Option Binary64) :
    (∀ height, Peck.moves none height increment feedrate = [] ∧
      Peck.moves height none increment feedrate = []) ∧
    (∀ rPlane depth, ∃ n, IsPassCount ((rPlane - depth) / increment).floor n ∧
      IsPeckSequence rPlane depth increment feedrate n
        (Peck.moves (some rPlane) (some depth) increment feedrate)) ∧
    (∀ rPlane depth, Alternates (Peck.moves rPlane depth increment feedrate) ∧
      (Peck.moves rPlane depth increment feedrate).length ≤ 199999) ∧
    ∀ (settings : Settings) (raw : Text) (s : State) (out : List Text) (after : State),
      expandLine settings raw s = .ok out after → out.length ≤ 200003 :=
  ⟨fun height => ⟨rfl, moves_none_right height increment feedrate⟩,
    fun rPlane depth => ⟨_, isPassCount_passes _,
      isPeckSequence_drill rPlane depth increment feedrate⟩,
    fun rPlane depth => moves_bounded rPlane depth increment feedrate,
    fun _ _ _ _ _ h => length_le_of_expandLine h⟩

/-- Three increments of three in a travel of ten: two passes and the feed to the final depth.  A travel
of nine has the same three increments, and ends above its depth. -/
theorem peck_sequence_ofThree :
    IsPeckSequence zero (.ofDecimal true 10 0) (.ofNat 3) none 3
      (Peck.moves (some zero) (some (.ofDecimal true 10 0)) (.ofNat 3) none) ∧
    (Peck.moves (some zero) (some (.ofDecimal true 10 0)) (.ofNat 3) none).length = 5 ∧
    IsPeckSequence zero (.ofDecimal true 9 0) (.ofNat 3) none 3
      (Peck.moves (some zero) (some (.ofDecimal true 9 0)) (.ofNat 3) none) ∧
    (Peck.moves (some zero) (some (.ofDecimal true 9 0)) (.ofNat 3) none).length = 4 ∧
    ∃ out after, expandLine {} "G99 G83 Z-10 R0 Q3".toList {} = .ok out after ∧
      out.length ≤ 200003 := by
  obtain ⟨-, hsequence, -, hline⟩ := peck_sequence (.ofNat 3) none
  obtain ⟨n, -, hten⟩ := hsequence zero (.ofDecimal true 10 0)
  obtain ⟨n', -, hnine⟩ := hsequence zero (.ofDecimal true 9 0)
  have hfive : (Peck.moves (some zero) (some (.ofDecimal true 10 0)) (.ofNat 3) none).length = 5 := by
    decide +kernel
  have hfour : (Peck.moves (some zero) (some (.ofDecimal true 9 0)) (.ofNat 3) none).length = 4 := by
    decide +kernel
  have hleft : zero < (zero - .ofDecimal true 10 0) % .ofNat 3 := by decide +kernel
  have hnothing : ¬ zero < (zero - .ofDecimal true 9 0) % .ofNat 3 := by decide +kernel
  obtain rfl : n = 3 := by
    have hlength := hten.length
    rw [hfive, if_pos hleft] at hlength
    omega
  obtain rfl : n' = 3 := by
    have hlength := hnine.length
    rw [hfour, if_neg hnothing] at hlength
    omega
  have hserved : Binary64.servable ({} : Settings).precision = true := rfl
  have hout := expandLine_of_servable hserved {} "G99 G83 Z-10 R0 Q3".toList
  exact ⟨hten, hfive, hnine, hfour, _, _, hout, hline _ _ _ _ _ hout⟩

end Cycle

end DrillCycles
