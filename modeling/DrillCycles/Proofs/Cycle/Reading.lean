import DrillCycles.Proofs.Cycle.Block
import DrillCycles.Proofs.Cycle.Run
import DrillCycles.Proofs.Motion.Reading

/-!
# Reading generated lines

What was written can be read: the words of a written move have the values that the move has.  For a
hole this means that its position is copied.  The first line of its block is the only one that names a
position, and this position is the one on the line of the hole, to the last digit.
-/

namespace DrillCycles.Cycle

open Binary64

variable {settings : Settings} {s : State} {source line : Text} {h : Hole} {m : Motion}
variable {precision : Option ℕ}

lemma exists_read_written (hserved : servable precision = true)
    (hfinite : ∀ word ∈ m.words, word.2.isFinite = true) :
    ∃ line, m.render precision = .ok line ∧ ∀ a : Address,
      (HoleWords.read line).value a = (m.words.lookup a.letter).map (reread precision) := by
  refine ⟨m.written precision, ?_, fun a => ?_⟩
  · rw [Motion.render_eq, hserved, Bool.true_or, if_pos rfl]
  · rw [HoleWords.value_read, Motion.valueIn?_written hfinite]

/-! ### Positions -/

/-- The rapid to the position that a line names. -/
def rapidToPosition (words : HoleWords) : Motion :=
  .of .rapid [('X', words.x), ('Y', words.y)]

lemma lookup_rapidToPosition (words : HoleWords) :
    (rapidToPosition words).words.lookup 'X' = words.x ∧
      (rapidToPosition words).words.lookup 'Y' = words.y := by
  obtain ⟨x, y, -⟩ := words
  cases x <;> cases y <;> exact ⟨rfl, rfl⟩

lemma isFinite_rapidToPosition (text : Text) {word : Char × Binary64}
    (hword : word ∈ (rapidToPosition (HoleWords.read text)).words) : word.2.isFinite = true := by
  have hmem := Motion.mem_words_iff.mp hword
  simp only [List.mem_cons, Prod.mk.injEq, List.not_mem_nil, or_false] at hmem
  rcases hmem with ⟨-, hx⟩ | ⟨-, hy⟩
  · exact Address.isFinite_of_valueIn? (a := .x) hx.symm
  · exact Address.isFinite_of_valueIn? (a := .y) hy.symm

lemma read_written_rapidToPosition (text : Text) :
    (HoleWords.read ((rapidToPosition (HoleWords.read text)).written none)).x =
        (HoleWords.read text).x.map plain ∧
      (HoleWords.read ((rapidToPosition (HoleWords.read text)).written none)).y =
        (HoleWords.read text).y.map plain := by
  have hread : ∀ a : Address, a.valueIn? ((rapidToPosition (HoleWords.read text)).written none) =
      ((rapidToPosition (HoleWords.read text)).words.lookup a.letter).map plain :=
    Motion.valueIn?_written fun word hword => isFinite_rapidToPosition text hword
  obtain ⟨hx, hy⟩ := lookup_rapidToPosition (HoleWords.read text)
  refine ⟨?_, ?_⟩
  · rw [← hx]
    exact hread .x
  · rw [← hy]
    exact hread .y

/-- The block of a hole that names a position starts with it. -/
lemma exists_written_eq_cons (settings : Settings) (s : State) (text : Text)
    (hposition : ((HoleWords.read text).x.isSome || (HoleWords.read text).y.isSome) = true) :
    ∃ rest, (s.hole text (HoleWords.read text)).written settings =
        (rapidToPosition (HoleWords.read text)).written settings.precision :: rest ∧
      ∀ line ∈ rest, (HoleWords.read line).x = none ∧ (HoleWords.read line).y = none := by
  obtain ⟨positioning, cut, dwelling, hblock⟩ :=
    isBlock_moves settings.dwellUnit s text (HoleWords.read text)
  have hfirst := hblock.positioned
  rw [if_pos hposition] at hfirst
  rw [Hole.written, hblock.layout, hfirst, List.singleton_append, List.map_cons]
  refine ⟨_, rfl, fun line hline => ?_⟩
  obtain ⟨m, hm, rfl⟩ := List.mem_map.mp hline
  have hunmoved : ∀ word ∈ m.words, word.1 ≠ 'X' ∧ word.1 ≠ 'Y' := by
    refine hblock.unmoved m ?_
    rcases List.mem_cons.mp hm with rfl | hm
    · simp
    · exact hm
  exact ⟨Motion.valueIn?_written_of_no_word (a := .x) fun word hword => (hunmoved word hword).1,
    Motion.valueIn?_written_of_no_word (a := .y) fun word hword => (hunmoved word hword).2⟩

/-- **Reading undoes writing.**  From the line of a move whose numbers are finite, each letter is read
with the value of its first word, and no other letter is found: the value itself, with a precision the
number nearest to its rounding.  The first line of the block of a hole that names a position has the
position of the line of the hole; the other lines have none.  Only the sign of a zero is lost, which does
not make it another number. -/
theorem read_render :
    (∀ m : Motion, (∀ word ∈ m.words, word.2.isFinite = true) →
      ∃ line, m.render none = .ok line ∧
        ∀ a : Address, (HoleWords.read line).value a = (m.words.lookup a.letter).map plain) ∧
    (∀ places ≤ maxPrecision,
      (∀ m : Motion, (∀ word ∈ m.words, word.2.isFinite = true) →
        ∃ line, m.render (some places) = .ok line ∧
          ∀ a : Address,
            (HoleWords.read line).value a = (m.words.lookup a.letter).map (atPlaces places)) ∧
      ∀ (negative : Bool) (rank : Fin rankLimit), ∃ nearest : Fin rankLimit,
        atPlaces places (.finite negative rank) =
            .finite (negative && (Decimal.roundedTo places rank).digits != 0) nearest ∧
          IsNearest (Decimal.roundedTo places rank) nearest) ∧
    (∀ (settings : Settings) (lines : List Text) (k : ℕ) (source : Text) (h : Hole),
      settings.precision = none → lines[k]? = some source →
      (State.expansions {} lines)[k]? = some (.drilled h) → (h.x.isSome || h.y.isSome) = true →
      ∃ first rest, h.render settings = .ok (first :: rest) ∧
        (HoleWords.read first).x = (HoleWords.read (holeText source)).x.map plain ∧
        (HoleWords.read first).y = (HoleWords.read (holeText source)).y.map plain ∧
        ∀ line ∈ rest, (HoleWords.read line).x = none ∧ (HoleWords.read line).y = none) ∧
    ∀ x : Binary64, x.plain.key? = x.key? := by
  refine ⟨fun m hfinite => exists_read_written rfl hfinite, fun places hle => ⟨fun m hfinite =>
    exists_read_written (decide_eq_true hle) hfinite, atPlaces_nearest places⟩, ?_, key?_plain⟩
  intro settings lines k source h hprecision hsource hhole hposition
  rw [State.getElem?_expansions, hsource, Option.map_some, Option.some.injEq] at hhole
  obtain rfl := State.eq_hole_of_step hhole
  rw [State.x_hole, State.y_hole] at hposition
  have hserved : servable settings.precision = true := by rw [hprecision]; rfl
  obtain ⟨rest, hwritten, hrest⟩ := exists_written_eq_cons settings
    ((State.run {} (lines.take k)).drilled source) (holeText source) hposition
  have hread := read_written_rapidToPosition (holeText source)
  rw [← hprecision] at hread
  refine ⟨_, rest, ?_, hread.1, hread.2, hrest⟩
  rw [Hole.render_of_servable hserved, hwritten]

/-- A feed with two depths, the first of them a negative zero. -/
def twoDepths : Motion := ⟨.feed, [('Z', ofRank true 0), ('F', .ofNat 60), ('Z', .ofNat 1)]⟩

/-- A cycle with one hole at a position of two and a half. -/
def oneHole : List Text := ["G99".toList, "G81 X-0 Y2.5 Z-1 R1".toList]

theorem read_render_oneHole :
    (∃ line, twoDepths.render none = .ok line ∧
      (HoleWords.read line).z = some zero ∧ (HoleWords.read line).x = none) ∧
    (∃ line, twoDepths.render (some 2) = .ok line ∧ (HoleWords.read line).f = some (.ofNat 60)) ∧
    ∃ h first rest, (State.expansions {} oneHole)[1]? = some (.drilled h) ∧
      h.render {} = .ok (first :: rest) ∧ (HoleWords.read first).x = some zero ∧
      (HoleWords.read first).y = some (.ofDecimal false 25 1) := by
  have hfinite : ∀ word ∈ twoDepths.words, word.2.isFinite = true := by decide +kernel
  obtain ⟨hexact, hrounded, hhole, -⟩ := read_render
  obtain ⟨line, hline, hread⟩ := hexact twoDepths hfinite
  obtain ⟨line', hline', hread'⟩ := (hrounded 2 (by decide)).1 twoDepths hfinite
  have hexpansion : (State.expansions {} oneHole)[1]? = some (.drilled
      ((State.run {} oneHole).hole "X-0 Y2.5 Z-1 R1".toList
        (HoleWords.read "X-0 Y2.5 Z-1 R1".toList))) := by decide +kernel
  obtain ⟨first, rest, hrender, hx, hy, -⟩ := hhole {} oneHole 1 _ _ rfl rfl hexpansion
    (by decide +kernel)
  refine ⟨⟨line, hline, ?_, hread .x⟩, ⟨line', hline', ?_⟩, _, first, rest, hexpansion, hrender,
    ?_, ?_⟩
  · exact (hread .z).trans (by decide +kernel)
  · exact (hread' .f).trans (by decide +kernel)
  · exact hx.trans (by decide +kernel)
  · exact hy.trans (by decide +kernel)

end DrillCycles.Cycle
