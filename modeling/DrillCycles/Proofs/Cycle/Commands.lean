import DrillCycles.Proofs.Cycle.Finite
import DrillCycles.Proofs.Decimal.Canonical
import DrillCycles.Proofs.Output.Suppression

/-!
# Generated lines are plain commands

A controller reads a code with a few words behind it.  `IsCommand` is this grammar: one of the three
codes, at most two words, and numerals without exponents.  The names that a number may have when it is
not finite are no numerals, so the grammar alone excludes them; that all numbers of a block are finite is
what makes every generated line a command.
-/

namespace DrillCycles.Cycle

open Binary64

variable {settings : Settings} {precision : Option ℕ} {h : Hole} {m : Motion} {line t : Text}
variable {x : Binary64}

/-- Digits, perhaps with a minus sign before them and a point among them. -/
def IsNumeral (t : Text) : Prop :=
  ∃ (negative : Bool) (whole fraction : Text), t = signed negative (Decimal.positional whole fraction) ∧
    whole ≠ [] ∧ (∀ c ∈ whole, c.isDigit = true) ∧ ∀ c ∈ fraction, c.isDigit = true

/-- A code and at most two words, each of them behind a space. -/
def IsCommand (line : Text) : Prop :=
  ∃ (kind : MoveKind) (words : List (Char × Text)),
    line = kind.code ++ words.flatMap (fun word => ' ' :: word.1 :: word.2) ∧ words.length ≤ 2 ∧
    ∀ word ∈ words, word.1 ∈ Motion.wordLetters ∧ IsNumeral word.2 ∧ word.2 ≠ "-0".toList

/-! ### Numerals -/

lemma isNumeral_written (hx : x.isFinite = true) : IsNumeral (x.written precision) := by
  obtain ⟨negative, rank, rfl⟩ := exists_of_isFinite hx
  obtain ⟨n, htext, hcanonical, -⟩ :=
    Numeral.exists_signedDecimal_eq negative (decimal precision rank)
  exact ⟨n.negative, n.whole, n.fraction, htext, hcanonical.whole.ne_nil, hcanonical.whole.isDigit,
    hcanonical.fraction.isDigit⟩

/-- A minus sign stands before a digit other than zero. -/
lemma written_ne_negativeZero (hx : x.isFinite = true) : x.written precision ≠ "-0".toList := by
  obtain ⟨negative, rank, rfl⟩ := exists_of_isFinite hx
  obtain ⟨n, htext, hcanonical, hzero, -⟩ :=
    Numeral.exists_signedDecimal_eq negative (decimal precision rank)
  rw [written, htext]
  exact mt hcanonical.whole.spelling_eq_iff.mp hzero

/-! ### Lines -/

lemma isCommand_written (hlength : m.words.length ≤ 2) (hletters : m.IsLettered)
    (hfinite : ∀ word ∈ m.words, word.2.isFinite = true) : IsCommand (m.written precision) := by
  refine ⟨m.kind, m.words.map fun word => (word.1, word.2.written precision), ?_, ?_, ?_⟩
  · rw [Motion.written, List.flatMap_map]
    rfl
  · rwa [List.length_map]
  · intro word hword
    obtain ⟨source, hmem, rfl⟩ := List.mem_map.mp hword
    exact ⟨hletters source hmem, isNumeral_written (hfinite source hmem),
      written_ne_negativeZero (hfinite source hmem)⟩

lemma IsNumeral.mem (h : IsNumeral t) {c : Char} (hc : c ∈ t) :
    c.isDigit = true ∨ c ∈ ['-', '.'] := by
  obtain ⟨negative, whole, fraction, rfl, -, hwhole, hfraction⟩ := h
  have hpositional : ∀ c ∈ Decimal.positional whole fraction, c.isDigit = true ∨ c ∈ ['-', '.'] := by
    intro c hc
    rw [Decimal.positional] at hc
    split at hc
    · exact Or.inl (hwhole c hc)
    · rcases List.mem_append.mp hc with hc | hc
      · exact Or.inl (hwhole c hc)
      rcases List.mem_cons.mp hc with rfl | hc
      · exact Or.inr (by simp)
      · exact Or.inl (hfraction c hc)
  rw [signed] at hc
  split at hc
  · rcases List.mem_cons.mp hc with rfl | hc
    · exact Or.inr (by simp)
    · exact hpositional c hc
  · exact hpositional c hc

/-- Commands hold no letters but those of codes and words. -/
lemma IsCommand.mem (h : IsCommand line) {c : Char} (hc : c ∈ line) :
    c.isDigit = true ∨ c ∈ ['G', ' ', '-', '.'] ++ Motion.wordLetters := by
  obtain ⟨kind, words, rfl, -, hwords⟩ := h
  rcases List.mem_append.mp hc with hc | hc
  · cases kind <;> simp only [MoveKind.code, List.mem_cons, List.not_mem_nil, or_false] at hc <;>
      rcases hc with rfl | rfl <;> decide
  obtain ⟨word, hword, hc⟩ := List.mem_flatMap.mp hc
  obtain ⟨hletter, hnumeral, -⟩ := hwords word hword
  rcases List.mem_cons.mp hc with rfl | hc
  · exact Or.inr (by simp)
  rcases List.mem_cons.mp hc with rfl | hc
  · exact Or.inr (List.mem_append_right _ hletter)
  refine (hnumeral.mem hc).imp_right fun hother => ?_
  simp only [List.mem_cons, List.not_mem_nil, or_false] at hother
  rcases hother with rfl | rfl <;> simp

/-- No command holds the name of a number that is not finite. -/
lemma IsCommand.not_infix (h : IsCommand line) :
    ¬ "inf".toList <:+: line ∧ ¬ "NaN".toList <:+: line := by
  refine ⟨fun hname => ?_, fun hname => ?_⟩
  · have hi : 'i' ∈ line := hname.subset (by decide)
    exact absurd (h.mem hi) (by decide)
  · have hN : 'N' ∈ line := hname.subset (by decide)
    exact absurd (h.mem hN) (by decide)

/-! ### Programs -/

/-- Every line that comes out stands in the block of one line of the program. -/
lemma exists_block_of_mem (hserved : servable settings.precision = true) (program : Text) :
    ∃ out, expand settings program = .ok out ∧ ∀ line ∈ out, ∃ (k : ℕ) (e : Expansion) (block : _),
      (State.expansions {} program.lines)[k]? = some e ∧ e.render settings = .ok block ∧
        line ∈ block := by
  refine ⟨_, expand_eq hserved program, fun line hline => ?_⟩
  obtain ⟨k, e, hk, hmem⟩ := mem_bodyLines.mp ((Output.collect_sublist _ _).subset hline)
  exact ⟨k, e, _, hk, e.render_of_servable hserved, hmem⟩

/-- **Generated lines are plain commands.**  Every program is expanded.  What a hole line expands to are
commands, without the name of a number that is not finite; in particular the depth of every pass is
finite, whatever R-plane, depth and increment are read from. -/
theorem isCommand_of_drilled (settings : Settings) (hserved : servable settings.precision = true) :
    (∀ program : Text,
      (∀ (k : ℕ) (h : Hole), (State.expansions {} program.lines)[k]? = some (.drilled h) →
        ∃ block, h.render settings = .ok block ∧ ∀ line ∈ block,
          IsCommand line ∧ ¬ "inf".toList <:+: line ∧ ¬ "NaN".toList <:+: line) ∧
      ∃ out, expand settings program = .ok out ∧ ∀ line ∈ out,
        ∃ (k : ℕ) (e : Expansion) (block : List Text),
          (State.expansions {} program.lines)[k]? = some e ∧ e.render settings = .ok block ∧
            line ∈ block) ∧
    ∀ (t₁ t₂ t₃ : Text) (rPlane depth increment : Binary64), Address.r.valueIn? t₁ = some rPlane →
      Address.z.valueIn? t₂ = some depth → Address.q.valueIn? t₃ = some increment →
      zero < increment →
      ∀ pass < Peck.passes (Peck.wholeIncrements (rPlane - depth) increment),
        (Peck.passDepth rPlane increment pass).isFinite = true := by
  refine ⟨fun program => ⟨fun k h hk => ?_, exists_block_of_mem hserved program⟩, ?_⟩
  · have hfresh : State.IsFinite {} := ⟨finiteIfKnown_none, Parameters.isFinite_empty⟩
    have hfinite := State.isFinite_of_expansions hfresh hk
    refine ⟨h.written settings, h.render_of_servable hserved, fun line hline => ?_⟩
    obtain ⟨m, hm, rfl⟩ := List.mem_map.mp hline
    obtain ⟨hlength, hletters, hnumbers⟩ := hfinite.of_writes (Hole.writes_of_mem_moves hm)
    have hcommand : IsCommand (m.written settings.precision) :=
      isCommand_written hlength hletters hnumbers
    exact ⟨hcommand, hcommand.not_infix⟩
  · intro t₁ t₂ t₃ rPlane depth increment hr hz hq hpos pass hlt
    exact Peck.isFinite_passDepth (Address.isFinite_of_valueIn? hr) (Address.isFinite_of_valueIn? hz)
      (Address.isFinite_of_valueIn? hq) hpos hlt

/-- A word with three hundred zeros. -/
def longWord (letter digit : Char) : Text :=
  letter :: digit :: List.replicate 300 '0'

/-- Two passes in which scaling the depth by a billion overflows. -/
theorem isCommand_of_drilled_long :
    servable ({} : Settings).precision = true ∧
    (∃ h block, (State.expansions {} (Text.lines "G99\nG83 Z-1 R1 Q0.6".toList))[1]? =
        some (.drilled h) ∧ h.render {} = .ok block ∧ ∀ line ∈ block, IsCommand line) ∧
    Address.r.valueIn? (longWord 'R' '5') = some (.ofNat (5 * powerOfTen 300)) ∧
    Address.q.valueIn? (longWord 'Q' '2') = some (.ofNat (2 * powerOfTen 300)) ∧
    (Peck.passDepth (.ofNat (5 * powerOfTen 300)) (.ofNat (2 * powerOfTen 300)) 1).isFinite =
      true := by
  obtain ⟨hprograms, hdepths⟩ := isCommand_of_drilled {} rfl
  have hr : Address.r.valueIn? (longWord 'R' '5') = some (.ofNat (5 * powerOfTen 300)) := by
    decide +kernel
  have hz : Address.z.valueIn? ['Z', '0'] = some zero := by decide +kernel
  have hq : Address.q.valueIn? (longWord 'Q' '2') = some (.ofNat (2 * powerOfTen 300)) := by
    decide +kernel
  have hhole : (State.expansions {} (Text.lines "G99\nG83 Z-1 R1 Q0.6".toList))[1]? =
      some (.drilled ((State.run {} ["G99".toList, "G83 Z-1 R1 Q0.6".toList]).hole
        "Z-1 R1 Q0.6".toList (HoleWords.read "Z-1 R1 Q0.6".toList))) := by decide +kernel
  obtain ⟨block, hblock, hlines⟩ := (hprograms _).1 1 _ hhole
  exact ⟨rfl, ⟨_, block, hhole, hblock, fun line hline => (hlines line hline).1⟩, hr, hq,
    hdepths _ _ _ _ _ _ hr hz hq (by decide +kernel) 1 (by decide +kernel)⟩

end DrillCycles.Cycle
