import DrillCycles.Proofs.Cycle.Run
import DrillCycles.Proofs.Latest

/-!
# What a state remembers

The scanner keeps a state and changes it line by line.  Here the same knowledge is read off the list
of lines behind it, without any state: by looking for the *latest* line of some kind.

**Positions.**  `OpenAfter lines n` says that the latest start or stop line among the first `n` is a
start line.  `DrillsAt` and `PassesAt` classify the line at a position by that and by its own text.

**Latest values.**  Every register of a state holds the latest value of its kind.  The registers differ
in the lines that carry a value, and in whether a start line hides what stands before it (`CarriesAt`)
or not (`PassesZAt`, `FirstStartAt`).

**Main results.**  `recalls_step` is one step, `recalls_run` a whole run: after every prefix of a
program the state is what the lines say.  `program_history` adds what each line is expanded to.
-/

namespace DrillCycles.Cycle

variable {lines : List Text} {line text : Text} {s : State} {n k : ℕ}

/-! ### Positions -/

def StartsAt (lines : List Text) (k : ℕ) : Prop :=
  ∃ line, lines[k]? = some line ∧ IsStart line

def StopsAt (lines : List Text) (k : ℕ) : Prop :=
  ∃ line, lines[k]? = some line ∧ IsStop line

/-- The latest start or stop line among the first `n` lines is a start line. -/
def OpenAfter (lines : List Text) (n : ℕ) : Prop :=
  ∃ j < n, StartsAt lines j ∧ ∀ k, j < k → k < n → ¬ StartsAt lines k ∧ ¬ StopsAt lines k

/-- The line at `k` stands in a cycle and invokes a hole; its words are read from `text`. -/
def DrillsAt (lines : List Text) (k : ℕ) (text : Text) : Prop :=
  OpenAfter lines (k + 1) ∧
    ∃ line, lines[k]? = some line ∧ InvokesHole line ∧ holeText line = text

/-- The line at `k` stands outside a cycle, and `text` is left of it. -/
def PassesAt (lines : List Text) (k : ℕ) (text : Text) : Prop :=
  ¬ OpenAfter lines (k + 1) ∧
    ∃ line, lines[k]? = some line ∧ stopless line = text ∧ text ≠ []

/-- The start tag of the line at `k`, the leftmost one if there are several. -/
def FirstStartAt (lines : List Text) (k : ℕ) (tag : Tag) : Prop :=
  ∃ line, lines[k]? = some line ∧ Tag.IsFirst Tag.starts line.trim tag

/-- The place `k` is not before the latest start line among the first `n` lines. -/
def SinceStart (lines : List Text) (n k : ℕ) : Prop :=
  ∃ j ≤ k, StartsAt lines j ∧ ∀ i, j < i → i < n → ¬ StartsAt lines i

/-- The line at `k` is a hole line of the present cycle that carries a word with this value. -/
def CarriesAt (lines : List Text) (n : ℕ) (address : Address) (k : ℕ) (value : Binary64) : Prop :=
  SinceStart lines n k ∧ ∃ text, DrillsAt lines k text ∧ address.valueIn? text = some value

/-- The line at `k` passes through and names this height. -/
def PassesZAt (lines : List Text) (k : ℕ) (value : Binary64) : Prop :=
  ∃ text, PassesAt lines k text ∧ Address.z.valueIn? text = some value

lemma startsAt_iff (h : lines[k]? = some line) : StartsAt lines k ↔ IsStart line := by
  simp [StartsAt, h]

lemma stopsAt_iff (h : lines[k]? = some line) : StopsAt lines k ↔ IsStop line := by
  simp [StopsAt, h]

lemma drillsAt_iff (h : lines[k]? = some line) :
    DrillsAt lines k text ↔ OpenAfter lines (k + 1) ∧ InvokesHole line ∧ holeText line = text := by
  simp [DrillsAt, h]

lemma passesAt_iff (h : lines[k]? = some line) :
    PassesAt lines k text ↔ ¬ OpenAfter lines (k + 1) ∧ stopless line = text ∧ text ≠ [] := by
  simp [PassesAt, h]

/-- A start line opens, a stop line closes, and every other line leaves things as they are. -/
lemma openAfter_succ_iff (h : lines[n]? = some line) : OpenAfter lines (n + 1) ↔
    IsStart line ∨ (¬ IsStop line ∧ OpenAfter lines n) := by
  constructor
  · rintro ⟨j, hj, hstart, hnone⟩
    rcases Nat.lt_succ_iff_lt_or_eq.mp hj with hlt | rfl
    · have hlast := hnone n hlt (Nat.lt_succ_self n)
      rw [startsAt_iff h, stopsAt_iff h] at hlast
      exact Or.inr ⟨hlast.2, j, hlt, hstart, fun k hjk hkn => hnone k hjk (by omega)⟩
    · exact Or.inl ((startsAt_iff h).mp hstart)
  · rintro (hstart | ⟨hstop, j, hj, hstart, hnone⟩)
    · exact ⟨n, Nat.lt_succ_self n, (startsAt_iff h).mpr hstart, fun k _ _ => by omega⟩
    by_cases hline : IsStart line
    · exact ⟨n, Nat.lt_succ_self n, (startsAt_iff h).mpr hline, fun k _ _ => by omega⟩
    · refine ⟨j, by omega, hstart, fun k hjk hkn => ?_⟩
      rcases Nat.lt_succ_iff_lt_or_eq.mp hkn with hlt | rfl
      · exact hnone k hjk hlt
      · rw [startsAt_iff h, stopsAt_iff h]
        exact ⟨hline, hstop⟩

lemma sinceStart_of_openAfter (h : OpenAfter lines (n + 1)) : SinceStart lines (n + 1) n := by
  obtain ⟨j, hj, hstart, hnone⟩ := h
  exact ⟨j, Nat.le_of_lt_succ hj, hstart, fun i hji hin => (hnone i hji hin).1⟩

lemma firstStartAt_unique (lines : List Text) (k : ℕ) (tag other : Tag)
    (h : FirstStartAt lines k tag) (hother : FirstStartAt lines k other) : tag = other := by
  obtain ⟨line, hline, hfirst⟩ := h
  obtain ⟨line', hline', hfirst'⟩ := hother
  obtain rfl := Option.some.inj (hline.symm.trans hline')
  rw [← Tag.find?_eq_some_iff] at hfirst hfirst'
  exact Option.some.inj (hfirst.symm.trans hfirst')

/-! ### The registers of a state -/

/-- The register that the words with a letter set; X and Y set none. -/
def Parameters.value? (p : Parameters) : Address → Option Binary64
  | .z => p.finalDepth
  | .r => p.rPlane
  | .f => p.feedrate
  | .p => p.dwell
  | .q => p.peckIncrement
  | .x => none
  | .y => none

/-- A letter whose words hold for the holes after them as well. -/
def IsModal (address : Address) : Prop :=
  address ≠ .x ∧ address ≠ .y

/-- The retract mode that a start tag selects, if there has been one. -/
def modeAfter : Option Tag → RetractMode
  | some tag => .ofStart tag
  | none => .unset

/-- **What a state knows** of the first `n` lines of a program. -/
structure Recalls (lines : List Text) (n : ℕ) (s : State) : Prop where
  active : s.active = true ↔ OpenAfter lines n
  retractMode : ∃ tag?, IsLatest (FirstStartAt lines) n tag? ∧ s.retractMode = modeAfter tag?
  initialZ : IsLatest (PassesZAt lines) n s.initialZ
  parameters : ∀ address, IsModal address →
    IsLatest (CarriesAt lines n address) n (s.parameters.value? address)

lemma recalls_zero (lines : List Text) : Recalls lines 0 {} := by
  refine ⟨?_, ⟨none, isLatest_zero _, rfl⟩, isLatest_zero _, fun address _ => ?_⟩
  · refine iff_of_false (by simp) ?_
    rintro ⟨j, hj, -⟩
    omega
  · cases address <;> exact isLatest_zero _

lemma value?_update (p : Parameters) (text : Text) {address : Address} (h : IsModal address) :
    (p.update (HoleWords.read text)).value? address =
      (address.valueIn? text <|> p.value? address) := by
  obtain ⟨hx, hy⟩ := h
  cases address <;> first | rfl | contradiction

/-! ### One step -/

section Step

variable (hline : lines[n]? = some line) (h : Recalls lines n s)

include hline h

lemma active_entered_iff_openAfter :
    (s.entered line).active = true ↔ OpenAfter lines (n + 1) := by
  rw [State.active_entered_iff, openAfter_succ_iff hline, h.active]

lemma retractMode_entered : ∃ tag?, IsLatest (FirstStartAt lines) (n + 1) tag? ∧
    (s.entered line).retractMode = modeAfter tag? := by
  obtain ⟨tag?, hlatest, hmode⟩ := h.retractMode
  by_cases hstart : IsStart line
  · obtain ⟨tag, htag⟩ := exists_isFirst_of_isStart hstart
    refine ⟨some tag, hlatest.succ (some tag) fun other => ?_, ?_⟩
    · constructor
      · rintro ⟨line', hline', hother⟩
        obtain rfl := Option.some.inj (hline.symm.trans hline')
        rw [← Tag.find?_eq_some_iff] at htag hother
        exact htag.symm.trans hother
      · intro hother
        rw [← Option.some.inj hother]
        exact ⟨line, hline, htag⟩
    · rw [State.entered_of_isFirst htag]
      rfl
  · refine ⟨tag?, hlatest.succ none fun other => ?_, ?_⟩
    · refine iff_of_false ?_ (by simp)
      rintro ⟨line', hline', hother⟩
      obtain rfl := Option.some.inj (hline.symm.trans hline')
      exact hstart (isStart_of_isFirst hother)
    · by_cases hstop : IsStop line
      · rw [State.entered_of_isStop hstop]
        exact hmode
      · rw [State.entered_of_other hstart hstop]
        exact hmode

/-- A start line forgets all modal values; other lines keep them until their own words are read. -/
lemma parameters_entered (address : Address) (haddress : IsModal address) :
    IsLatest (CarriesAt lines (n + 1) address) n
      ((s.entered line).parameters.value? address) := by
  by_cases hstart : IsStart line
  · obtain ⟨tag, htag⟩ := exists_isFirst_of_isStart hstart
    have hnone : (s.entered line).parameters.value? address = none := by
      rw [State.entered_of_isFirst htag]
      cases address <;> rfl
    rw [hnone]
    rintro k hkn value ⟨⟨j, hjk, -, hlater⟩, -⟩
    exact hlater n (by omega) (Nat.lt_succ_self n) ((startsAt_iff hline).mpr hstart)
  · have hsame : (s.entered line).parameters = s.parameters := by
      by_cases hstop : IsStop line
      · rw [State.entered_of_isStop hstop]
        rfl
      · rw [State.entered_of_other hstart hstop]
    rw [hsame]
    refine (h.parameters address haddress).congr fun k _ value => and_congr_left fun _ => ?_
    refine exists_congr fun j => and_congr_right fun _ => and_congr_right fun _ => ?_
    constructor
    · exact fun hlater i hji hin => hlater i hji (by omega)
    · intro hlater i hji hin
      rcases Nat.lt_succ_iff_lt_or_eq.mp hin with hlt | rfl
      · exact hlater i hji hlt
      · exact fun hstarts => hstart ((startsAt_iff hline).mp hstarts)

/-- **Step lemma.**  What a state knows, it knows after one line more. -/
theorem recalls_step : Recalls lines (n + 1) (s.step line).1 := by
  have hactive := active_entered_iff_openAfter hline h
  have hmode := retractMode_entered hline h
  have hmodal := parameters_entered hline h
  by_cases hopen : OpenAfter lines (n + 1)
  · have hentered : (s.entered line).active = true := hactive.mpr hopen
    -- No line passes through inside a cycle.
    have hz : IsLatest (PassesZAt lines) (n + 1) s.initialZ := by
      refine h.initialZ.succ none fun value => iff_of_false ?_ (by simp)
      rintro ⟨text, hpasses, -⟩
      exact hpasses.1 hopen
    by_cases hhole : InvokesHole line
    · rw [State.step_of_hole hentered hhole]
      refine ⟨by simpa using hactive, by simpa using hmode, by simpa using hz, ?_⟩
      intro address haddress
      have hcarries : ∀ value, CarriesAt lines (n + 1) address n value ↔
          address.valueIn? (holeText line) = some value := by
        intro value
        rw [CarriesAt, and_iff_right (sinceStart_of_openAfter hopen)]
        simp [drillsAt_iff hline, hopen, hhole]
      rw [State.parameters_drilled, value?_update _ _ haddress]
      generalize address.valueIn? (holeText line) = word at hcarries ⊢
      exact (hmodal address haddress).succ word hcarries
    · rw [State.step_of_open hentered hhole]
      refine ⟨hactive, hmode, by simpa using hz, fun address haddress => ?_⟩
      refine (hmodal address haddress).succ none fun value => iff_of_false ?_ (by simp)
      rintro ⟨-, text, hdrills, -⟩
      exact hhole ((drillsAt_iff hline).mp hdrills).2.1
  · have hentered : (s.entered line).active = false := by
      rw [Bool.eq_false_iff, ne_eq, hactive]
      exact hopen
    -- No line is drilled outside a cycle.
    have hcarries : ∀ address, IsModal address → IsLatest (CarriesAt lines (n + 1) address) (n + 1)
        ((s.entered line).parameters.value? address) := by
      intro address haddress
      refine (hmodal address haddress).succ none fun value => iff_of_false ?_ (by simp)
      rintro ⟨-, text, hdrills, -⟩
      exact hopen hdrills.1
    by_cases htext : stopless line = []
    · rw [State.step_of_blank hentered htext]
      refine ⟨hactive, hmode, ?_, hcarries⟩
      rw [State.initialZ_entered]
      refine h.initialZ.succ none fun value => iff_of_false ?_ (by simp)
      rintro ⟨text, hpasses, -⟩
      obtain ⟨-, rfl, hne⟩ := (passesAt_iff hline).mp hpasses
      exact hne htext
    · rw [State.step_of_passed hentered htext]
      refine ⟨by simpa using hactive, by simpa using hmode, ?_, by simpa using hcarries⟩
      rw [State.initialZ_pass, State.initialZ_entered]
      refine h.initialZ.succ _ fun value => ?_
      simp [PassesZAt, passesAt_iff hline, hopen, htext]

end Step

/-! ### A run -/

/-- **Run lemma.**  After every prefix of a program the state knows what the lines say. -/
theorem recalls_run (lines : List Text) (hn : n ≤ lines.length) :
    Recalls lines n (State.run {} (lines.take n)) := by
  induction n with
  | zero => exact recalls_zero lines
  | succ n ih =>
      have hlt : n < lines.length := hn
      have hline : lines[n]? = some lines[n] := List.getElem?_eq_getElem hlt
      rw [State.run_take_succ hline]
      exact recalls_step hline (ih hlt.le)

/-! ### What the lines are expanded to -/

lemma getElem?_expansions_fresh (hline : lines[k]? = some line) :
    (State.expansions {} lines)[k]? =
      some ((State.run {} (lines.take k)).step line).2 := by
  rw [State.getElem?_expansions, hline, Option.map_some]

lemma active_entered_run (hline : lines[k]? = some line) :
    ((State.run {} (lines.take k)).entered line).active = true ↔ OpenAfter lines (k + 1) :=
  active_entered_iff_openAfter hline
    (recalls_run lines (List.getElem?_eq_some_iff.mp hline).1.le)

lemma active_entered_run_eq_false (hline : lines[k]? = some line)
    (hopen : ¬ OpenAfter lines (k + 1)) :
    ((State.run {} (lines.take k)).entered line).active = false := by
  rw [Bool.eq_false_iff, ne_eq, active_entered_run hline]
  exact hopen

lemma lt_length_of_expansions {e : Expansion} (he : (State.expansions {} lines)[k]? = some e) :
    k < lines.length := by
  have hlt := (List.getElem?_eq_some_iff.mp he).1
  rwa [State.length_expansions] at hlt

/-- A hole line is expanded to the hole of the state that has taken up its words. -/
lemma expansion_of_drillsAt (h : DrillsAt lines k text) : (State.expansions {} lines)[k]? =
    some (.drilled ((State.run {} (lines.take (k + 1))).hole text (HoleWords.read text))) := by
  obtain ⟨hopen, line, hline, hhole, rfl⟩ := h
  rw [getElem?_expansions_fresh hline, State.run_take_succ hline,
    State.step_of_hole ((active_entered_run hline).mpr hopen) hhole]

lemma expansion_of_passesAt (h : PassesAt lines k text) :
    (State.expansions {} lines)[k]? = some (.passed text) := by
  obtain ⟨hopen, line, hline, rfl, htext⟩ := h
  rw [getElem?_expansions_fresh hline,
    State.step_of_passed (active_entered_run_eq_false hline hopen) htext]

/-- A line that is neither drilled nor passed through leaves nothing. -/
lemma expansion_of_silent (hline : lines[k]? = some line)
    (hdrills : ∀ text, ¬ DrillsAt lines k text) (hpasses : ∀ text, ¬ PassesAt lines k text) :
    (State.expansions {} lines)[k]? = some .nothing ∨
      ∃ rest, (State.expansions {} lines)[k]? = some (.dropped rest) := by
  rw [getElem?_expansions_fresh hline]
  by_cases hopen : OpenAfter lines (k + 1)
  · have hhole : ¬ InvokesHole line := fun h => hdrills _ ⟨hopen, line, hline, h, rfl⟩
    rw [State.step_of_open ((active_entered_run hline).mpr hopen) hhole]
    dsimp only
    split
    · exact Or.inl rfl
    · exact Or.inr ⟨_, rfl⟩
  · have htext : stopless line = [] := by
      by_contra hne
      exact hpasses _ ⟨hopen, line, hline, rfl, hne⟩
    rw [State.step_of_blank (active_entered_run_eq_false hline hopen) htext]
    exact Or.inl rfl

/-- **What comes out of the line at `k`.** -/
structure Yields (settings : Settings) (lines : List Text) (k : ℕ) (out : List Text) : Prop where
  hole : ∀ text, DrillsAt lines k text →
    ((State.run {} (lines.take (k + 1))).hole text (HoleWords.read text)).render settings = .ok out
  passed : ∀ text, PassesAt lines k text → out = [text]
  silent : (∀ text, ¬ DrillsAt lines k text) → (∀ text, ¬ PassesAt lines k text) → out = []

lemma yields_written {settings : Settings} (hserved : Binary64.servable settings.precision = true)
    {e : Expansion} (he : (State.expansions {} lines)[k]? = some e) :
    Yields settings lines k (e.written settings) := by
  refine ⟨fun text h => ?_, fun text h => ?_, fun hdrills hpasses => ?_⟩
  · rw [expansion_of_drillsAt h, Option.some.injEq] at he
    rw [← he]
    exact Hole.render_of_servable hserved _
  · rw [expansion_of_passesAt h, Option.some.injEq] at he
    rw [← he]
    rfl
  · have hline := List.getElem?_eq_getElem (lt_length_of_expansions he)
    rcases expansion_of_silent hline hdrills hpasses with hnothing | ⟨rest, hdropped⟩
    · rw [← Option.some.inj (hnothing.symm.trans he)]
      rfl
    · rw [← Option.some.inj (hdropped.symm.trans he)]
      rfl

/-- **The scanner remembers exactly the latest lines of each kind.**  Feed the lines of a program one
by one from a fresh state.  After every prefix the state is what `Recalls` reads off the lines; every
line is expanded, without fail, to what `Yields` reads off them; and the program is written as all of
this in order, with repetitions suppressed if that is asked for. -/
theorem program_history (settings : Settings)
    (hserved : Binary64.servable settings.precision = true) (lines : List Text) :
    (∀ n ≤ lines.length, Recalls lines n (State.run {} (lines.take n))) ∧
    ∃ outs : List (List Text), outs.length = lines.length ∧
      (∀ k line out, lines[k]? = some line → outs[k]? = some out →
        ((State.run {} (lines.take k)).step line).2.render settings = .ok out ∧
        Yields settings lines k out) ∧
      expandLines settings [] lines =
        .ok (Output.collect settings.suppressDuplicates outs.flatten) := by
  refine ⟨fun n hn => recalls_run lines hn,
    (State.expansions {} lines).map (Expansion.written settings), ?_, ?_, ?_⟩
  · rw [List.length_map, State.length_expansions]
  · intro k line out hline hout
    rw [List.getElem?_map, getElem?_expansions_fresh hline, Option.map_some, Option.some.injEq]
      at hout
    subst hout
    exact ⟨Expansion.render_of_servable hserved _,
      yields_written hserved (getElem?_expansions_fresh hline)⟩
  · rw [expandLines_eq hserved, List.nil_append, bodyLines, List.flatMap_def]

/-- A height, a cycle of two holes with a remark between them, and the end of the cycle. -/
def twoHoles : List Text :=
  ["G0 Z5".toList, "G98 G81 X1 Z-2 R1 F60".toList, "(next)".toList, "G81 X2".toList, "G80".toList]

lemma openAfter_twoHoles {n : ℕ} (hlow : 2 ≤ n) (hhigh : n ≤ 4) : OpenAfter twoHoles n := by
  refine ⟨1, by omega, ⟨_, rfl, by decide⟩, fun k hk hkn => ?_⟩
  obtain rfl | rfl : k = 2 ∨ k = 3 := by omega
  all_goals
    rw [startsAt_iff rfl, stopsAt_iff rfl]
    decide

lemma drillsAt_twoHoles_one : DrillsAt twoHoles 1 "X1 Z-2 R1 F60".toList :=
  ⟨openAfter_twoHoles le_rfl (by decide), _, rfl, by decide, by decide⟩

lemma drillsAt_twoHoles_three : DrillsAt twoHoles 3 "X2".toList :=
  ⟨openAfter_twoHoles (by decide) le_rfl, _, rfl, by decide, by decide⟩

lemma passesAt_twoHoles_zero : PassesAt twoHoles 0 "G0 Z5".toList := by
  refine ⟨?_, _, rfl, by decide, by decide⟩
  rw [openAfter_succ_iff rfl]
  rintro (hstart | ⟨-, j, hj, -⟩)
  · exact absurd hstart (by decide)
  · omega

theorem program_history_twoHoles :
    Binary64.servable ({} : Settings).precision = true ∧
    Recalls twoHoles 4 (State.run {} (twoHoles.take 4)) ∧
    ∃ outs : List (List Text), outs.length = 5 ∧
      (∀ out, outs[0]? = some out → out = ["G0 Z5".toList]) ∧
      (∀ out, outs[3]? = some out →
        ((State.run {} (twoHoles.take 4)).hole "X2".toList (HoleWords.read "X2".toList)).render {} =
          .ok out) ∧
      expandLines {} [] twoHoles =
        .ok (Output.collect ({} : Settings).suppressDuplicates outs.flatten) := by
  obtain ⟨hstate, outs, hlength, houts, hexpand⟩ := program_history {} rfl twoHoles
  refine ⟨rfl, hstate 4 (by decide), outs, hlength, fun out hout => ?_, fun out hout => ?_, ?_⟩
  · exact (houts 0 _ out rfl hout).2.passed _ passesAt_twoHoles_zero
  · exact (houts 3 _ out rfl hout).2.hole _ drillsAt_twoHoles_three
  · exact hexpand

end DrillCycles.Cycle
