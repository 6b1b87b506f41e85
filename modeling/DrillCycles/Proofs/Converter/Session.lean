import DrillCycles.Converter
import DrillCycles.Proofs.Cycle.Run
import DrillCycles.Proofs.Latest
import DrillCycles.Proofs.Output.Suppression

/-!
# Sessions with a converter

A session is any sequence of loading programs, changing settings and converting.  **`session`** runs it;
the rest of this module says what the converter holds after it, from the sequence alone.

**What counts.**  Of all settings and programs, only the latest of each kind (`latest?`): they make up
`settingsAfter` and the program to convert.  A converted program is its expansion behind a header
(`IsConversion`); the only trace of the header in it is a first line that repeats the header's last.

**Main result.**  `describes_step` is one operation, and `session_history` is the whole session.
-/

namespace DrillCycles.Converter

/-- One use of a converter. -/
inductive Operation where
  | load (now : Instant) (program : Text)
  | setSuppression (suppress : Bool)
  | setDwellUnit (unit : DwellUnit)
  | setPrecision (precision : Option Nat)
  | convert (time : Instant)
  deriving DecidableEq, Repr

namespace Operation

/-- The converter after an operation.  A conversion that fails leaves it as it was. -/
def perform (c : Converter) : Operation → Converter
  | load now program => c.load now program
  | setSuppression suppress =>
    { c with settings := { c.settings with suppressDuplicates := suppress } }
  | setDwellUnit unit => { c with settings := { c.settings with dwellUnit := unit } }
  | setPrecision precision => { c with settings := { c.settings with precision := precision } }
  | convert time =>
    match c.convert time with
    | .ok (_, after) => after
    | .error _ => c

def program? : Operation → Option Text
  | load _ program => some program
  | _ => none

def suppression? : Operation → Option Bool
  | setSuppression suppress => some suppress
  | _ => none

def dwellUnit? : Operation → Option DwellUnit
  | setDwellUnit unit => some unit
  | _ => none

def precision? : Operation → Option (Option Nat)
  | setPrecision precision => some precision
  | _ => none

/-- The settings after an operation. -/
def adjust (settings : Settings) (op : Operation) : Settings where
  dwellUnit := op.dwellUnit?.getD settings.dwellUnit
  suppressDuplicates := op.suppression?.getD settings.suppressDuplicates
  precision := op.precision?.getD settings.precision

lemma settings_perform (c : Converter) (op : Operation) :
    (op.perform c).settings = op.adjust c.settings := by
  cases op with
  | convert time =>
      rw [perform, Converter.convert]
      cases c.convertedLines time <;> rfl
  | _ => rfl

lemma lines_perform (c : Converter) (op : Operation) :
    (op.perform c).lines = op.program?.elim c.lines Text.lines := by
  cases op with
  | convert time =>
      rw [perform, Converter.convert]
      cases c.convertedLines time <;> rfl
  | _ => rfl

end Operation

variable {initial : Settings} {ops : List Operation} {op : Operation} {c : Converter} {n k : ℕ}
variable {time : Instant} {out : List Text}

/-- The converter after a session that starts with these settings and no program. -/
def session (initial : Settings) (ops : List Operation) : Converter :=
  ops.foldl Operation.perform { settings := initial }

lemma session_take_succ (h : ops[n]? = some op) :
    session initial (ops.take (n + 1)) = op.perform (session initial (ops.take n)) := by
  obtain ⟨hlt, rfl⟩ := List.getElem?_eq_some_iff.mp h
  rw [List.take_succ_eq_append_getElem hlt, session, List.foldl_append]
  rfl

/-! ### The latest of each kind -/

/-- What the latest operation that has a value of some kind has. -/
def latest? {α : Type} (value? : Operation → Option α) (ops : List Operation) : Option α :=
  (ops.filterMap value?).getLast?

lemma latest?_take_succ {α : Type} (value? : Operation → Option α) (h : ops[n]? = some op) :
    latest? value? (ops.take (n + 1)) = (value? op <|> latest? value? (ops.take n)) := by
  obtain ⟨hlt, rfl⟩ := List.getElem?_eq_some_iff.mp h
  rw [List.take_succ_eq_append_getElem hlt, latest?, latest?, List.filterMap_append]
  cases hvalue : value? ops[n] <;> simp [hvalue]

/-- The settings after a session: each the latest that was set, or else the initial one. -/
def settingsAfter (initial : Settings) (ops : List Operation) : Settings where
  dwellUnit := (latest? Operation.dwellUnit? ops).getD initial.dwellUnit
  suppressDuplicates := (latest? Operation.suppression? ops).getD initial.suppressDuplicates
  precision := (latest? Operation.precision? ops).getD initial.precision

lemma settingsAfter_take_succ (initial : Settings) (h : ops[n]? = some op) :
    settingsAfter initial (ops.take (n + 1)) = op.adjust (settingsAfter initial (ops.take n)) := by
  rw [settingsAfter, latest?_take_succ _ h, latest?_take_succ _ h, latest?_take_succ _ h,
    Operation.adjust, settingsAfter]
  cases op <;> rfl

/-- The program after a session, if one has been loaded. -/
def programAfter (ops : List Operation) : Option Text :=
  latest? Operation.program? ops

lemma programAfter_take_succ (h : ops[n]? = some op) :
    programAfter (ops.take (n + 1)) = (op.program? <|> programAfter (ops.take n)) :=
  latest?_take_succ _ h

/-! ### What is written -/

/-- The expansion of a program; without a program there is nothing to expand. -/
def bodyOf (settings : Settings) : Option Text → Except RenderError (List Text)
  | some program => expand settings program
  | none => .ok []

/-- **The lines of a converted program.** -/
def IsConversion (settings : Settings) (program : Option Text) (time : Instant)
    (out : List Text) : Prop :=
  ∃ body, bodyOf settings program = .ok body ∧
    out = header time ++
      Output.withoutRepeat settings.suppressDuplicates "(ccx 0.1.0)".toList body

/-- The operation at `k` writes these lines.  Loading writes a header; it is counted, and shown to
nobody. -/
def WritesAt (initial : Settings) (ops : List Operation) (k : ℕ) (out : List Text) : Prop :=
  (∃ now program, ops[k]? = some (.load now program) ∧ out = header now) ∨
    ∃ time, ops[k]? = some (.convert time) ∧
      IsConversion (settingsAfter initial (ops.take k)) (programAfter (ops.take k)) time out

/-- The counts for a program and the lines written last. -/
def counts (program : Option Text) (out : Option (List Text)) : Statistics :=
  let input := program.elim {} Statistics.ofProgram
  out.elim input input.withOutput

/-- **What a converter holds** after the first `n` operations of a session. -/
structure Describes (initial : Settings) (ops : List Operation) (n : ℕ) (c : Converter) : Prop where
  settings : c.settings = settingsAfter initial (ops.take n)
  lines : c.lines = (programAfter (ops.take n)).elim [] Text.lines
  statistics : ∃ out, IsLatest (WritesAt initial ops) n out ∧
    c.statistics = counts (programAfter (ops.take n)) out

lemma isChain_header (time : Instant) : (header time).IsChain (· ≠ ·) := by
  refine List.IsChain.cons_cons ?_ (List.isChain_pair.mpr (by decide))
  intro heq
  have hsecond := congrArg (fun t : Text => t[1]?) heq
  revert hsecond
  simp

lemma getLast?_header (time : Instant) : (header time).getLast? = some "(ccx 0.1.0)".toList := by
  rfl

/-- A conversion depends on the settings and the program, and changes the counts of the output. -/
lemma convert_eq {program : Option Text} (hserved : Binary64.servable c.settings.precision = true)
    (hlines : c.lines = program.elim [] Text.lines) (time : Instant) :
    ∃ out, IsConversion c.settings program time out ∧ c.convert time =
      .ok (Text.unlines out, { c with statistics := c.statistics.withOutput out }) := by
  have hbody : bodyOf c.settings program =
      .ok (Output.collect c.settings.suppressDuplicates (bodyLines c.settings c.lines)) := by
    cases program with
    | none =>
        rw [hlines]
        cases c.settings.suppressDuplicates <;> rfl
    | some text =>
        rw [bodyOf, expand_eq hserved, hlines]
        rfl
  refine ⟨_, ⟨_, hbody, rfl⟩, ?_⟩
  have hheader := Output.collect_header_append c.settings.suppressDuplicates
    (bodyLines c.settings c.lines) (isChain_header time) (getLast?_header time)
  rw [convert, convertedLines, expandLines_eq hserved, hheader]
  rfl

lemma isLatest_writesAt_succ (hop : ops[n]? = some op) {old : Option (List Text)}
    (h : IsLatest (WritesAt initial ops) n old) (hload : ∀ now program, op ≠ .load now program)
    (hconvert : ∀ time, op ≠ .convert time) : IsLatest (WritesAt initial ops) (n + 1) old := by
  refine h.succ none fun out => iff_of_false ?_ (by simp)
  rintro (⟨now, program, hk, -⟩ | ⟨time, hk, -⟩)
  · exact hload now program (Option.some.inj (hop.symm.trans hk))
  · exact hconvert time (Option.some.inj (hop.symm.trans hk))

lemma IsConversion.unique {settings : Settings} {program : Option Text} {out' : List Text}
    (h : IsConversion settings program time out) (h' : IsConversion settings program time out') :
    out = out' := by
  obtain ⟨body, hbody, rfl⟩ := h
  obtain ⟨body', hbody', rfl⟩ := h'
  rw [Except.ok.inj (hbody.symm.trans hbody')]

lemma withOutput_counts (program : Option Text) (old : Option (List Text)) (out : List Text) :
    (counts program old).withOutput out = counts program (some out) := by
  cases old <;> rfl

/-- The counts after one operation more. -/
lemma statistics_perform (hop : ops[n]? = some op) (h : Describes initial ops n c)
    (hserved : ∀ time, op = .convert time →
      Binary64.servable (settingsAfter initial (ops.take n)).precision = true) :
    ∃ out, IsLatest (WritesAt initial ops) (n + 1) out ∧
      (op.perform c).statistics = counts (programAfter (ops.take (n + 1))) out := by
  obtain ⟨out, hlatest, hcounts⟩ := h.statistics
  rw [programAfter_take_succ hop]
  cases op with
  | load now program =>
      refine ⟨some (header now), hlatest.succ (some (header now)) fun out => ?_, rfl⟩
      simp [WritesAt, hop, eq_comm]
  | convert time =>
      have hconvertible := hserved time rfl
      rw [← h.settings] at hconvertible
      obtain ⟨new, hnew, hconvert⟩ := convert_eq hconvertible h.lines time
      refine ⟨some new, hlatest.succ (some new) fun other => ?_, ?_⟩
      · rw [h.settings] at hnew
        constructor
        · rintro (⟨now, program, hload, -⟩ | ⟨time', htime, hother⟩)
          · rw [hop] at hload
            cases hload
          · obtain rfl := Operation.convert.inj (Option.some.inj (hop.symm.trans htime))
            rw [hnew.unique hother]
        · intro heq
          rw [← Option.some.inj heq]
          exact Or.inr ⟨time, hop, hnew⟩
      · rw [Operation.perform, hconvert]
        show c.statistics.withOutput new = _
        rw [hcounts, withOutput_counts]
        rfl
  | _ => exact ⟨out, isLatest_writesAt_succ hop hlatest (by simp) (by simp), hcounts⟩

/-- **Step lemma.**  What a converter holds, it holds after one operation more. -/
theorem describes_step (hop : ops[n]? = some op) (h : Describes initial ops n c)
    (hserved : ∀ time, op = .convert time →
      Binary64.servable (settingsAfter initial (ops.take n)).precision = true) :
    Describes initial ops (n + 1) (op.perform c) := by
  refine ⟨?_, ?_, statistics_perform hop h hserved⟩
  · rw [Operation.settings_perform, h.settings, settingsAfter_take_succ initial hop]
  · rw [Operation.lines_perform, h.lines, programAfter_take_succ hop]
    cases op.program? <;> rfl

lemma describes_zero (initial : Settings) (ops : List Operation) :
    Describes initial ops 0 { settings := initial } :=
  ⟨rfl, rfl, none, isLatest_zero _, rfl⟩

/-- Whenever a session converts, its numbers can be written. -/
def IsServed (initial : Settings) (ops : List Operation) : Prop :=
  ∀ k time, ops[k]? = some (.convert time) →
    Binary64.servable (settingsAfter initial (ops.take k)).precision = true

/-- **Run lemma.** -/
theorem describes_session (hserved : IsServed initial ops) (hn : n ≤ ops.length) :
    Describes initial ops n (session initial (ops.take n)) := by
  induction n with
  | zero => exact describes_zero initial ops
  | succ n ih =>
      have hlt : n < ops.length := hn
      have hop : ops[n]? = some ops[n] := List.getElem?_eq_getElem hlt
      rw [session_take_succ hop]
      refine describes_step hop (ih hlt.le) fun time htime => hserved n time ?_
      rw [hop, htime]

/-- **Conversions have no memory.**  After every operation of a session the converter holds what
`Describes` reads off the operations so far.  A conversion writes the latest program, expanded with the
latest settings, behind its header; and of the converter it changes the two counts of the output. -/
theorem session_history (initial : Settings) (ops : List Operation)
    (hserved : IsServed initial ops) :
    (∀ n ≤ ops.length, Describes initial ops n (session initial (ops.take n))) ∧
    ∀ k time, ops[k]? = some (.convert time) → ∃ out,
      IsConversion (settingsAfter initial (ops.take k)) (programAfter (ops.take k)) time out ∧
      (session initial (ops.take k)).convert time =
        .ok (Text.unlines out, session initial (ops.take (k + 1))) ∧
      session initial (ops.take (k + 1)) = { session initial (ops.take k) with
        statistics := (session initial (ops.take k)).statistics.withOutput out } := by
  refine ⟨fun n hn => describes_session hserved hn, fun k time hop => ?_⟩
  have hlt : k < ops.length := (List.getElem?_eq_some_iff.mp hop).1
  have hdescribes := describes_session hserved hlt.le
  have hconvertible := hserved k time hop
  rw [← hdescribes.settings] at hconvertible
  obtain ⟨out, hout, hconvert⟩ := convert_eq hconvertible hdescribes.lines time
  rw [hdescribes.settings] at hout
  have hafter : session initial (ops.take (k + 1)) = { session initial (ops.take k) with
      statistics := (session initial (ops.take k)).statistics.withOutput out } := by
    rw [session_take_succ hop, Operation.perform, hconvert]
  exact ⟨out, hout, by rw [hconvert, hafter], hafter⟩

/-- A program that repeats the last line of the header, converted with and without suppression. -/
def twoConversions : List Operation :=
  [.load ⟨0, 0⟩ "(ccx 0.1.0)\n(ccx 0.1.0)\nM30".toList, .setSuppression true, .convert ⟨60, 0⟩,
    .setSuppression false, .convert ⟨90, 0⟩]

theorem session_history_twoConversions :
    IsServed {} twoConversions ∧
    Describes {} twoConversions 5 (session {} twoConversions) ∧
    (session {} (twoConversions.take 2)).convert ⟨60, 0⟩ =
      .ok (Text.unlines (header ⟨60, 0⟩ ++ ["M30".toList]), session {} (twoConversions.take 3)) ∧
    (session {} (twoConversions.take 4)).convert ⟨90, 0⟩ =
      .ok (Text.unlines (header ⟨90, 0⟩ ++
        ["(ccx 0.1.0)".toList, "(ccx 0.1.0)".toList, "M30".toList]),
        session {} twoConversions) := by
  have hserved : IsServed {} twoConversions := by
    intro k time hconvert
    have hlt : k < 5 := (List.getElem?_eq_some_iff.mp hconvert).1
    obtain rfl | rfl | rfl | rfl | rfl : k = 0 ∨ k = 1 ∨ k = 2 ∨ k = 3 ∨ k = 4 := by omega
    all_goals rfl
  obtain ⟨hstates, hconversions⟩ := session_history {} twoConversions hserved
  obtain ⟨out, ⟨body, hbody, rfl⟩, hfirst, -⟩ := hconversions 2 _ rfl
  obtain ⟨out', ⟨body', hbody', rfl⟩, hsecond, -⟩ := hconversions 4 _ rfl
  have hshort : body = ["(ccx 0.1.0)".toList, "M30".toList] := by
    refine Except.ok.inj (hbody.symm.trans ?_)
    decide
  have hlong : body' = ["(ccx 0.1.0)".toList, "(ccx 0.1.0)".toList, "M30".toList] := by
    refine Except.ok.inj (hbody'.symm.trans ?_)
    decide
  subst hshort hlong
  exact ⟨hserved, hstates 5 le_rfl, hfirst, hsecond⟩

end DrillCycles.Converter
