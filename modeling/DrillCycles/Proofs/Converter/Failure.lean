import DrillCycles.Converter
import DrillCycles.Proofs.Cycle.Failure

/-!
# When the expansion of a program fails

The loops around the expansion of a line, again in the order of the single operations: each line is
expanded and its lines are emitted before the next one is looked at, and the statistics of a converter
are recorded last.

**Whole runs.**  `runLines_eq` says that the loop gives what `expandLines` gives, where the lines of the
whole program are collected first.  A run fails at its first line that cannot be written; which lines
come before it does not matter to the outcome.

**Main result.**  `expansion_fails_iff` lists all that can go wrong: a number to be written with more
than 65535 decimals, and nothing else.  It also says what a failure leaves behind, in a converter and in
the state between two lines.
-/

namespace DrillCycles

open DrillCycles.Cycle

/-- What a run has at hand between two lines. -/
structure Progress where
  state : State := {}
  output : Output := {}

/-- Expands one more line and emits what comes out. -/
def feed (settings : Settings) (raw : Text) : EStateM Failure Progress Unit := fun progress =>
  match expandLine settings raw progress.state with
  | .ok lines after =>
    .ok () ⟨after, lines.foldl (Output.emit settings.suppressDuplicates) progress.output⟩
  | .error e after => .error e { progress with state := after }

/-- The lines of a run that has come to its end. -/
def finish : EStateM.Result Failure Progress Unit → Except Failure (List Text)
  | .ok _ progress => .ok progress.output.lines.toList
  | .error e _ => .error e

/-- Emits the lines of a header and runs through those of a program. -/
def runLines (settings : Settings) (header lines : List Text) : Except Failure (List Text) :=
  finish (lines.forM (feed settings)
    { output := header.foldl (Output.emit settings.suppressDuplicates) {} })

/-- Expands the text of a program. -/
def expandInOrder (settings : Settings) (program : Text) : Except Failure (List Text) :=
  runLines settings [] program.lines

/-- Converts the program of a converter and records the statistics of its output. -/
def Converter.convertInOrder (time : Instant) : EStateM Failure Converter Text := do
  let c ← get
  let lines ← MonadExcept.ofExcept (runLines c.settings (header time) c.lines)
  modify fun c => { c with statistics := c.statistics.withOutput lines }
  return Text.unlines lines

variable {settings : Settings}

/-! ### The loops -/

lemma renderAll_cons (settings : Settings) (e : Expansion) (es : List Expansion) :
    renderAll settings (e :: es) = do
      let first ← e.render settings
      let rest ← renderAll settings es
      return first ++ rest := by
  rw [renderAll, renderAll, List.mapM_cons]
  cases e.render settings with
  | error _ => rfl
  | ok first => cases es.mapM (Expansion.render settings) <;> rfl

lemma feed_apply (settings : Settings) (raw : Text) (progress : Progress) :
    feed settings raw progress = match (progress.state.step raw).2.render settings with
      | .ok lines => .ok () ⟨(progress.state.step raw).1,
          lines.foldl (Output.emit settings.suppressDuplicates) progress.output⟩
      | .error e => .error (.unwritten e) { progress with state := (progress.state.step raw).1 } := by
  rw [feed, expandLine_eq]
  cases (progress.state.step raw).2.render settings <;> rfl

/-- **A run in the middle of a program.**  What is emitted already stays in front of what the lines
ahead expand to. -/
lemma finish_forM_feed (lines : List Text) (progress : Progress) :
    finish (lines.forM (feed settings) progress) =
      ((renderAll settings (progress.state.expansions lines)).map fun body =>
        (body.foldl (Output.emit settings.suppressDuplicates)
          progress.output).lines.toList).mapError Failure.unwritten := by
  induction lines generalizing progress with
  | nil => rfl
  | cons raw lines ih =>
      have hfeed := feed_apply settings raw progress
      have hforM : (raw :: lines).forM (feed settings) =
          feed settings raw >>= fun _ => lines.forM (feed settings) := rfl
      rw [State.expansions_cons, renderAll_cons, hforM]
      cases hrender : (progress.state.step raw).2.render settings with
      | error e =>
          -- The run stops here, and the lines ahead do not matter.
          rw [hrender] at hfeed
          change finish (EStateM.bind (feed settings raw) _ progress) = _
          rw [EStateM.bind, hfeed]
          rfl
      | ok first =>
          rw [hrender] at hfeed
          rw [bind_apply_of_ok hfeed, ih]
          cases renderAll settings ((progress.state.step raw).1.expansions lines) with
          | error e => rfl
          | ok rest =>
              exact congrArg (fun o : Output => Except.ok o.lines.toList) List.foldl_append.symm

/-- Emitting line by line comes to the same as collecting all lines first. -/
theorem runLines_eq (settings : Settings) (header lines : List Text) :
    runLines settings header lines =
      (expandLines settings header lines).mapError Failure.unwritten := by
  rw [runLines, finish_forM_feed, expandLines]
  cases renderAll settings (State.expansions {} lines) with
  | error e => rfl
  | ok body => exact congrArg (fun o : Output => Except.ok o.lines.toList) List.foldl_append.symm

/-- A conversion that fails changes nothing, because the statistics are recorded last. -/
lemma Converter.convertInOrder_eq (time : Instant) (c : Converter) :
    convertInOrder time c = match c.convert time with
      | .ok (text, after) => .ok text after
      | .error e => .error (.unwritten e) c := by
  have hget : (get : EStateM Failure Converter Converter) c = .ok c c := rfl
  rw [convertInOrder, bind_apply_of_ok hget, runLines_eq, convert, convertedLines]
  cases expandLines c.settings (header time) c.lines <;> rfl

/-! ### The numbers to write -/

lemma Motion.space_mem_written_iff {precision : Option ℕ} {m : Motion} :
    ' ' ∈ m.written precision ↔ m.isBare = false := by
  obtain ⟨kind, words⟩ := m
  have hcode : ' ' ∉ kind.code := by cases kind <;> decide
  cases words with
  | nil => simpa [Motion.written, isBare] using hcode
  | cons word words => simp [Motion.written, isBare, writtenWord]

/-- The lines that a hole has when every number can be written tell whether there is a number. -/
lemma Cycle.Hole.exists_space_iff {h : Hole} :
    (∃ out line, h.render { settings with precision := none } = .ok out ∧ line ∈ out ∧ ' ' ∈ line) ↔
      (h.moves settings.dwellUnit).all Motion.isBare = false := by
  have hrender : h.render { settings with precision := none } =
      .ok ((h.moves settings.dwellUnit).map (Motion.written none)) := h.render_of_servable rfl
  rw [hrender, List.all_eq_false]
  constructor
  · rintro ⟨out, line, hout, hline, hspace⟩
    obtain rfl := Except.ok.inj hout
    obtain ⟨m, hm, rfl⟩ := List.mem_map.mp hline
    exact ⟨m, hm, by simpa using Motion.space_mem_written_iff.mp hspace⟩
  · rintro ⟨m, hm, hbare⟩
    exact ⟨_, _, rfl, List.mem_map_of_mem hm, Motion.space_mem_written_iff.mpr (by simpa using hbare)⟩

lemma Binary64.servable_eq_false_iff {precision : Option ℕ} :
    servable precision = false ↔ ∃ places, precision = some places ∧ 65535 < places := by
  cases precision with
  | none => simp [servable]
  | some places =>
      have hserved : servable (some places) = decide (places ≤ 65535) := rfl
      rw [hserved, decide_eq_false_iff_not, Nat.not_le]
      simp

lemma Cycle.Expansion.isServable_eq_false_iff {e : Expansion} : e.isServable settings = false ↔
    Binary64.servable settings.precision = false ∧ ∃ hole, e = .drilled hole ∧
      (hole.moves settings.dwellUnit).all Motion.isBare = false := by
  cases e <;> simp [isServable]

/-- A hole among these lines has a generated line with a word, when the precision is open. -/
def WritesNumber (settings : Settings) (lines : List Text) : Prop :=
  ∃ (k : ℕ) (hole : Hole) (out : List Text) (line : Text),
    (State.expansions {} lines)[k]? = some (.drilled hole) ∧
      hole.render { settings with precision := none } = .ok out ∧ line ∈ out ∧ ' ' ∈ line

/-- Lines cannot be expanded exactly when numbers cannot be written and there is one to write. -/
lemma exists_expandLines_eq_error_iff {header lines : List Text} :
    (∃ e, expandLines settings header lines = .error e) ↔
      (∃ places, settings.precision = some places ∧ 65535 < places) ∧
        WritesNumber settings lines := by
  have hfails : (∃ e, expandLines settings header lines = .error e) ↔
      (State.expansions {} lines).all (Expansion.isServable settings) = false := by
    rw [expandLines, renderAll_eq]
    cases (State.expansions {} lines).all (Expansion.isServable settings) with
    | true => simp [bind, Except.bind, pure, Except.pure]
    | false => exact iff_of_true ⟨_, rfl⟩ rfl
  rw [hfails, List.all_eq_false, ← Binary64.servable_eq_false_iff]
  constructor
  · rintro ⟨e, he, hserved⟩
    obtain ⟨hprecision, hole, rfl, hnumber⟩ :=
      Expansion.isServable_eq_false_iff.mp (by simpa using hserved)
    obtain ⟨k, hk⟩ := List.mem_iff_getElem?.mp he
    obtain ⟨out, line, hrender⟩ := Hole.exists_space_iff.mpr hnumber
    exact ⟨hprecision, k, hole, out, line, hk, hrender⟩
  · rintro ⟨hprecision, k, hole, out, line, hk, hrender⟩
    have hnumber := Hole.exists_space_iff.mp ⟨out, line, hrender⟩
    refine ⟨_, List.mem_of_getElem? hk, ?_⟩
    simpa using Expansion.isServable_eq_false_iff.mpr ⟨hprecision, hole, rfl, hnumber⟩

/-! ### All failures -/

lemma expandInOrder_eq (settings : Settings) (program : Text) :
    expandInOrder settings program = (expand settings program).mapError Failure.unwritten :=
  runLines_eq settings [] program.lines

lemma exists_mapError_eq_error_iff {α : Type} {r : Except RenderError α} :
    (∃ e, r.mapError Failure.unwritten = .error e) ↔ ∃ e, r = .error e := by
  cases r with
  | ok a => simp [Except.mapError]
  | error e => exact iff_of_true ⟨_, rfl⟩ ⟨e, rfl⟩

namespace Converter

variable {c after : Converter} {time : Instant} {e : Failure}

/-- A conversion fails where the expansion of its lines fails. -/
lemma exists_convertInOrder_eq_error_iff :
    (∃ e after, convertInOrder time c = .error e after) ↔
      ∃ e, expandLines c.settings (header time) c.lines = .error e := by
  rw [convertInOrder_eq, convert, convertedLines]
  cases expandLines c.settings (header time) c.lines with
  | ok lines => simp [bind, Except.bind, pure, Except.pure]
  | error e => exact iff_of_true ⟨_, c, rfl⟩ ⟨e, rfl⟩

lemma eq_of_convertInOrder_eq_error (h : convertInOrder time c = .error e after) :
    after = c ∧ ∃ error, e = .unwritten error ∧ c.convert time = .error error := by
  rw [convertInOrder_eq] at h
  cases hconvert : c.convert time with
  | ok done =>
      rw [hconvert] at h
      cases h
  | error error =>
      rw [hconvert] at h
      cases h
      exact ⟨rfl, error, rfl, rfl⟩

end Converter

/-- **Exactly when an expansion fails, and what a failure leaves.**

The expansion of a program fails if and only if the precision is above 65535 and a hole of the program
has a line with a word when the precision is open; words are what has a space before it.  The same holds
of a conversion.  In particular no text is ever cut inside a character, behind its end or out of order:
searching, stripping and reading by byte positions always give a result, the one that they have on
characters.  A failure is the refusal to write a number, and what the operations give in their order is
what the whole expansion gives.

A converter that fails to convert is as it was before.  A line that fails leaves the state that it
leaves when the precision is open. -/
theorem expansion_fails_iff (settings : Settings) :
    (∀ program : Text,
      ((∃ e, expandInOrder settings program = .error e) ↔
        (∃ places, settings.precision = some places ∧ 65535 < places) ∧
          WritesNumber settings program.lines) ∧
        expandInOrder settings program = (expand settings program).mapError Failure.unwritten) ∧
    (∀ candidates line, Tag.findByBytes? candidates line = Tag.find? candidates line ∧
      Tag.stripByBytes? candidates line = some (Tag.strip candidates line)) ∧
    (∀ (a : Address) (line : Text), a.valueByBytes? line = some (a.valueIn? line)) ∧
    (∀ (c : Converter) (time : Instant), c.settings = settings →
      ((∃ e after, Converter.convertInOrder time c = .error e after) ↔
        (∃ places, settings.precision = some places ∧ 65535 < places) ∧
          WritesNumber settings c.lines) ∧
      ∀ e after, Converter.convertInOrder time c = .error e after →
        after = c ∧ ∃ error, e = .unwritten error ∧ c.convert time = .error error) ∧
    (∀ (raw : Text) (s after : State) (e : Failure), expandLine settings raw s = .error e after →
      after = (s.step raw).1 ∧
        ∃ out, expandLine { settings with precision := none } raw s = .ok out after) := by
  refine ⟨fun program => ⟨?_, expandInOrder_eq settings program⟩, fun candidates line =>
    ⟨Tag.findByBytes?_eq candidates line, Tag.stripByBytes?_eq candidates line⟩,
    fun a line => a.valueByBytes?_eq line, ?_, ?_⟩
  · rw [expandInOrder_eq, exists_mapError_eq_error_iff]
    exact exists_expandLines_eq_error_iff
  · rintro c time rfl
    refine ⟨?_, fun e after h => Converter.eq_of_convertInOrder_eq_error h⟩
    rw [Converter.exists_convertInOrder_eq_error_iff]
    exact exists_expandLines_eq_error_iff
  · intro raw s after e h
    rw [expandLine_eq] at h
    obtain ⟨rfl, -⟩ := leaving_eq_error h
    exact ⟨rfl, _, by rw [expandLine_eq, Expansion.render_of_servable rfl]; rfl⟩

/-- More decimals than can be asked for. -/
def tooPrecise : Settings :=
  { precision := some 65536 }

/-- One hole in an open cycle. -/
def oneHole : Text :=
  "G99\nG81 X1 Z-1 R1 F10".toList

/-- The hole has numbers, so nothing of this program can be written. -/
theorem expansion_fails_iff_oneHole :
    (∃ e, expandInOrder tooPrecise oneHole = .error e) ∧
    (∃ e after, Converter.convertInOrder ⟨60, 0⟩
        { settings := tooPrecise, lines := oneHole.lines } = .error e after ∧
      after = { settings := tooPrecise, lines := oneHole.lines }) ∧
    ∃ e out after, expandLine tooPrecise "G99 G82 P2".toList {} = .error e after ∧
      expandLine { tooPrecise with precision := none } "G99 G82 P2".toList {} = .ok out after := by
  obtain ⟨hexpand, -, -, hconvert, hline⟩ := expansion_fails_iff tooPrecise
  have hprecise : ∃ places, tooPrecise.precision = some places ∧ 65535 < places :=
    ⟨65536, rfl, by decide⟩
  have hnumber : WritesNumber tooPrecise oneHole.lines := by
    let one : Binary64 := .ofDecimal false 1 0
    let hole : Hole := ⟨"X1 Z-1 R1 F10".toList, some one, none, some one,
      { rPlane := some one, finalDepth := some (.ofDecimal true 1 0)
        feedrate := some (.ofDecimal false 10 0) }⟩
    exact ⟨1, hole, _, "G0 X1".toList, by decide +kernel, hole.render_of_servable rfl,
      by decide +kernel, by decide⟩
  refine ⟨(hexpand oneHole).1.mpr ⟨hprecise, hnumber⟩, ?_, ?_⟩
  · obtain ⟨hfails, hleft⟩ := hconvert { settings := tooPrecise, lines := oneHole.lines } ⟨60, 0⟩ rfl
    obtain ⟨e, after, hinOrder⟩ := hfails.mpr ⟨hprecise, hnumber⟩
    exact ⟨e, after, hinOrder, (hleft e after hinOrder).1⟩
  · have hfails : (State.step {} "G99 G82 P2".toList).2.render tooPrecise =
        .error .precisionOutOfRange := by decide +kernel
    have hinOrder := expandLine_eq tooPrecise {} "G99 G82 P2".toList
    rw [hfails] at hinOrder
    obtain ⟨-, out, hout⟩ := hline _ _ _ _ hinOrder
    exact ⟨_, out, _, hinOrder, hout⟩

end DrillCycles
