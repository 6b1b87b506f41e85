import DrillCycles.Proofs.Output.Suppression
import Mathlib.Data.List.SplitBy

/-!
# Runs of equal lines, and single emissions

Two readings of suppression, from outside and from inside.

**From outside.**  The maximal runs of equal adjacent lines are the library's `List.splitBy` for `==`,
and **`collapse`** keeps one line of each.  `collect_true_eq_collapse` says that this is what
suppression leaves of a list of lines.

**From inside.**  Lines may be emitted one at a time, each with its own switch.  **`afterCalls`** is the
output after a list of such calls, and **`LeavesOut`** names the calls that write nothing: those with
the switch on whose line repeats the last line of the output *at that moment*.  `last_afterCalls` says
that the remembered line is always the last line of the output; a call that leaves its line out does
not change it.  `isWritten_afterCalls` says that all other lines are written, in order.

**`suppressed`** is the case in which all switches are on.  The lines that are left out are then those
that repeat the line emitted directly before them (`leavesOut_suppressed_iff`), whether that one was
written or not.
-/

namespace DrillCycles.Output

variable {line next : Text} {lines : List Text}

/-! ### Runs -/

/-- One line of every maximal run of equal adjacent lines. -/
def collapse (lines : List Text) : List Text :=
  (lines.splitBy (· == ·)).filterMap List.head?

@[simp] lemma collapse_nil : collapse [] = [] := rfl

@[simp] lemma collapse_singleton (line : Text) : collapse [line] = [line] := rfl

/-- A line that differs from the next one is a run of its own. -/
lemma collapse_cons_of_ne (h : line ≠ next) (lines : List Text) :
    collapse (line :: next :: lines) = line :: collapse (next :: lines) := by
  have hsplit : (line :: next :: lines).splitBy (· == ·) =
      [line] :: (next :: lines).splitBy (· == ·) := by
    refine List.splitBy_append_cons (l := [line]) lines ?_
    intro last hlast
    obtain rfl : line = last := by simpa using hlast
    simpa using h
  rw [collapse, hsplit, List.filterMap_cons_some (List.head?_cons), collapse]

/-- A line that equals the next one belongs to the run of the next one. -/
lemma collapse_cons_self (line : Text) (lines : List Text) :
    collapse (line :: line :: lines) = collapse (line :: lines) := by
  obtain ⟨run, runs, hruns⟩ : ∃ run runs, (line :: lines).splitBy (· == ·) = run :: runs :=
    List.exists_cons_of_ne_nil (List.splitBy_ne_nil.mpr (List.cons_ne_nil _ _))
  obtain ⟨hflat, hnil, hequal, hmaximal⟩ := List.splitBy_eq_iff.mp hruns
  obtain ⟨rest, rfl⟩ : ∃ rest, run = line :: rest := by
    cases run with
    | nil => exact absurd List.mem_cons_self hnil
    | cons first rest =>
        rw [List.flatten_cons, List.cons_append, List.cons.injEq] at hflat
        exact ⟨rest, by rw [hflat.1]⟩
  -- The same runs, with one line more in the first of them.
  have hlonger : (line :: line :: lines).splitBy (· == ·) = (line :: line :: rest) :: runs := by
    refine List.splitBy_eq_iff.mpr ⟨by rw [hflat]; rfl, by simpa using hnil, ?_, ?_⟩
    · intro other hother
      rcases List.mem_cons.mp hother with rfl | hother
      · exact List.IsChain.cons_cons (by simp) (hequal _ List.mem_cons_self)
      · exact hequal _ (List.mem_cons_of_mem _ hother)
    · cases runs with
      | nil => exact List.isChain_singleton _
      | cons second runs =>
          obtain ⟨⟨hfirst, hsecond, hdiffer⟩, htail⟩ := List.isChain_cons_cons.mp hmaximal
          exact List.IsChain.cons_cons ⟨List.cons_ne_nil _ _, hsecond, by simpa using hdiffer⟩ htail
  rw [collapse, hlonger, collapse, hruns]
  rfl

/-- The library collapses runs in the same way. -/
lemma collapse_eq_destutter (lines : List Text) : collapse lines = lines.destutter (· ≠ ·) := by
  cases lines with
  | nil => rfl
  | cons line lines =>
      rw [List.destutter_cons']
      induction lines generalizing line with
      | nil => rfl
      | cons next lines ih =>
          by_cases h : line = next
          · subst h
            rw [collapse_cons_self, ih, List.destutter'_cons_neg _ (by simp)]
          · rw [collapse_cons_of_ne h, ih, List.destutter'_cons_pos _ h]

theorem collect_true_eq_collapse (lines : List Text) : collect true lines = collapse lines := by
  rw [collect_true, collapse_eq_destutter]

lemma isChain_collapse (lines : List Text) : (collapse lines).IsChain (· ≠ ·) := by
  rw [collapse_eq_destutter]
  exact List.isChain_destutter _ lines

@[simp] lemma collapse_collapse (lines : List Text) : collapse (collapse lines) = collapse lines := by
  rw [collapse_eq_destutter, collapse_eq_destutter, List.destutter_idem]

example : collapse ["G0".toList, "G0".toList, "M5".toList, "G0".toList] =
    ["G0".toList, "M5".toList, "G0".toList] := by decide

/-! ### Single emissions -/

/-- One emission: whether repetitions are suppressed, and the line. -/
abbrev Call := Bool × Text

variable {call : Call} {calls : List Call} {k n : ℕ}

/-- The output after a list of emissions, beginning with an empty output. -/
def afterCalls (calls : List Call) : Output :=
  calls.foldl (fun output call => output.emit call.1 call.2) {}

/-- The call at position `k` has its switch on and repeats the last line of the output there. -/
def LeavesOut (calls : List Call) (k : ℕ) : Prop :=
  ∃ line, calls[k]? = some (true, line) ∧
    (afterCalls (calls.take k)).lines.toList.getLast? = some line

/-- The given lines are those of all calls that do not leave theirs out, in the order of the calls. -/
def IsWritten (calls : List Call) (lines : List Text) : Prop :=
  ∃ positions : List ℕ, positions.Pairwise (· < ·) ∧
    (∀ k, k ∈ positions ↔ k < calls.length ∧ ¬ LeavesOut calls k) ∧
    lines = positions.filterMap fun k => calls[k]?.map Prod.snd

@[simp] lemma afterCalls_nil : afterCalls [] = {} := rfl

lemma afterCalls_concat (calls : List Call) (call : Call) :
    afterCalls (calls ++ [call]) = (afterCalls calls).emit call.1 call.2 :=
  List.foldl_concat _ _ _ _

/-- A line that is written becomes the line to compare with; a line that is left out does not. -/
lemma last_emit {output : Output} (suppress : Bool) (line : Text)
    (h : output.last = output.lines.toList.getLast?) :
    (output.emit suppress line).last = (output.emit suppress line).lines.toList.getLast? := by
  rw [emit]
  split
  · exact h
  · simp

theorem last_afterCalls (calls : List Call) :
    (afterCalls calls).last = (afterCalls calls).lines.toList.getLast? := by
  induction calls using List.reverseRecOn with
  | nil => rfl
  | append_singleton calls call ih =>
      rw [afterCalls_concat]
      exact last_emit call.1 call.2 ih

/-- Whether a call leaves its line out is decided by the calls before it. -/
lemma leavesOut_concat_of_lt (h : k < calls.length) (call : Call) :
    LeavesOut (calls ++ [call]) k ↔ LeavesOut calls k := by
  rw [LeavesOut, LeavesOut, List.getElem?_append_left h, List.take_append_of_le_length h.le]

lemma leavesOut_concat_length (calls : List Call) (call : Call) :
    LeavesOut (calls ++ [call]) calls.length ↔
      call.1 = true ∧ (afterCalls calls).lines.toList.getLast? = some call.2 := by
  rw [LeavesOut, List.getElem?_concat_length, List.take_left]
  constructor
  · rintro ⟨line, hcall, hlast⟩
    rw [Option.some.injEq] at hcall
    exact ⟨by rw [hcall], by rw [hcall, hlast]⟩
  · rintro ⟨hsuppress, hlast⟩
    exact ⟨call.2, by rw [← hsuppress], hlast⟩

lemma lines_concat_of_leavesOut (h : LeavesOut (calls ++ [call]) calls.length) :
    (afterCalls (calls ++ [call])).lines.toList = (afterCalls calls).lines.toList := by
  obtain ⟨hsuppress, hlast⟩ := (leavesOut_concat_length calls call).mp h
  rw [afterCalls_concat, emit, last_afterCalls, hlast, hsuppress]
  simp

lemma lines_concat_of_not_leavesOut (h : ¬ LeavesOut (calls ++ [call]) calls.length) :
    (afterCalls (calls ++ [call])).lines.toList =
      (afterCalls calls).lines.toList ++ [call.2] := by
  have hwritten : (call.1 && (afterCalls calls).last == some call.2) = false := by
    rw [leavesOut_concat_length, ← last_afterCalls] at h
    simpa using h
  rw [afterCalls_concat, emit, hwritten]
  simp

/-- All calls write their lines, except those that leave them out. -/
theorem isWritten_afterCalls (calls : List Call) :
    IsWritten calls (afterCalls calls).lines.toList := by
  induction calls using List.reverseRecOn with
  | nil => exact ⟨[], List.Pairwise.nil, by simp, rfl⟩
  | append_singleton calls call ih =>
      obtain ⟨positions, hsorted, hmem, hlines⟩ := ih
      have hlt : ∀ k ∈ positions, k < calls.length := fun k hk => ((hmem k).mp hk).1
      have hsame : positions.filterMap (fun k => (calls ++ [call])[k]?.map Prod.snd) =
          positions.filterMap fun k => calls[k]?.map Prod.snd :=
        List.filterMap_congr fun k hk => by rw [List.getElem?_append_left (hlt k hk)]
      have hbefore : ∀ k, k ∈ positions ↔
          k < calls.length ∧ ¬ LeavesOut (calls ++ [call]) k := by
        intro k
        rw [hmem]
        exact and_congr_right fun hk => by rw [leavesOut_concat_of_lt hk]
      by_cases hout : LeavesOut (calls ++ [call]) calls.length
      · refine ⟨positions, hsorted, fun k => ?_, ?_⟩
        · rw [hbefore, List.length_append, List.length_singleton, Nat.lt_succ_iff_lt_or_eq]
          constructor
          · exact fun ⟨hk, hkept⟩ => ⟨Or.inl hk, hkept⟩
          · rintro ⟨hk | rfl, hkept⟩
            · exact ⟨hk, hkept⟩
            · exact absurd hout hkept
        · rw [lines_concat_of_leavesOut hout, hsame, hlines]
      · refine ⟨positions ++ [calls.length], ?_, fun k => ?_, ?_⟩
        · refine List.pairwise_append.mpr ⟨hsorted, List.pairwise_singleton _ _, ?_⟩
          intro k hk last hlast
          rw [List.mem_singleton.mp hlast]
          exact hlt k hk
        · rw [List.mem_append, List.mem_singleton, hbefore, List.length_append,
            List.length_singleton, Nat.lt_succ_iff_lt_or_eq]
          constructor
          · rintro (⟨hk, hkept⟩ | rfl)
            · exact ⟨Or.inl hk, hkept⟩
            · exact ⟨Or.inr rfl, hout⟩
          · rintro ⟨hk | rfl, hkept⟩
            · exact Or.inl ⟨hk, hkept⟩
            · exact Or.inr rfl
        · rw [lines_concat_of_not_leavesOut hout, List.filterMap_append, hsame, hlines]
          simp

/-! ### Emissions with all switches on -/

/-- Emissions of these lines, each with the switch on. -/
def suppressed (lines : List Text) : List Call :=
  lines.map (true, ·)

lemma lines_afterCalls_suppressed (lines : List Text) :
    (afterCalls (suppressed lines)).lines.toList = collect true lines := by
  rw [afterCalls, suppressed, List.foldl_map]
  rfl

lemma getElem?_suppressed : (suppressed lines)[k]? = some (true, line) ↔ lines[k]? = some line := by
  simp [suppressed]

lemma take_suppressed (n : ℕ) : (suppressed lines).take n = suppressed (lines.take n) :=
  List.map_take.symm

/-- An emitted line is the last line of the output afterwards: it was written, or it stood there. -/
lemma getLast?_collect_true (lines : List Text) : (collect true lines).getLast? = lines.getLast? := by
  induction lines using List.reverseRecOn with
  | nil => rfl
  | append_singleton lines line ih =>
      rw [← lines_afterCalls_suppressed, suppressed, List.map_append, List.map_singleton,
        List.getLast?_concat]
      by_cases h : LeavesOut (suppressed lines ++ [(true, line)]) (suppressed lines).length
      · have hlast := ((leavesOut_concat_length _ _).mp h).2
        exact (congrArg List.getLast? (lines_concat_of_leavesOut h)).trans hlast
      · have hwritten := lines_concat_of_not_leavesOut h
        exact (congrArg List.getLast? hwritten).trans List.getLast?_concat

/-- With all switches on, the lines that are left out are those that repeat the line before them. -/
lemma leavesOut_suppressed_iff : LeavesOut (suppressed lines) k ↔
    ∃ j line, k = j + 1 ∧ lines[j]? = some line ∧ lines[k]? = some line := by
  have hlast : ∀ line, (afterCalls ((suppressed lines).take k)).lines.toList.getLast? = some line ↔
      (lines.take k).getLast? = some line := by
    intro line
    rw [take_suppressed, lines_afterCalls_suppressed, getLast?_collect_true]
  simp only [LeavesOut, getElem?_suppressed, hlast]
  cases k with
  | zero => simp
  | succ j =>
      constructor
      · rintro ⟨line, hline, hbefore⟩
        have hlt : j < lines.length := Nat.lt_of_succ_lt (List.getElem?_eq_some_iff.mp hline).1
        rw [List.take_succ_eq_append_getElem hlt, List.getLast?_concat] at hbefore
        exact ⟨j, line, rfl, by rw [List.getElem?_eq_getElem hlt, hbefore], hline⟩
      · rintro ⟨j', line, hj, hbefore, hline⟩
        obtain rfl := Nat.succ.inj hj
        obtain ⟨hlt, rfl⟩ := List.getElem?_eq_some_iff.mp hbefore
        refine ⟨_, hline, ?_⟩
        rw [List.take_succ_eq_append_getElem hlt, List.getLast?_concat]

lemma prefix_foldl_emit (suppress : Bool) (output : Output) (lines : List Text) :
    output.lines.toList <+: (lines.foldl (emit suppress) output).lines.toList := by
  induction lines generalizing output with
  | nil => exact List.prefix_rfl
  | cons line lines ih =>
      refine List.IsPrefix.trans ?_ (ih (output.emit suppress line))
      rw [emit]
      split
      · exact List.prefix_rfl
      · simp

/-- The output at any moment is the beginning of the output at the end. -/
lemma collect_take_prefix (suppress : Bool) (lines : List Text) (n : ℕ) :
    collect suppress (lines.take n) <+: collect suppress lines := by
  conv => rhs; rw [← List.take_append_drop n lines, collect, List.foldl_append]
  exact prefix_foldl_emit suppress _ (lines.drop n)

end DrillCycles.Output
