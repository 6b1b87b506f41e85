import DrillCycles.Expand
import DrillCycles.Proofs.Cycle.Step
import DrillCycles.Proofs.Motion.Writing

/-!
# Runs and what they write

**`State.run`** is the state after a list of lines.  `State.expansions` collects what the lines of a run
expand to; each of them is the outcome of one step, taken in the state that the lines before it leave
(`getElem?_expansions`).  A run that starts outside a cycle and meets no start line stays there, and
all that it does is to take stop tags away (`expansions_of_unstarted`).

The second half is about writing them.  **`Expansion.written`** is the list of lines of one expansion,
and `expandLines_eq` says that a whole program is written exactly when its precision can be served,
or when there is no number to write.
-/

namespace DrillCycles.Cycle

/-- The state after a list of lines. -/
def State.run (s : State) (lines : List Text) : State :=
  lines.foldl (fun s line => (s.step line).1) s

namespace State

@[simp] lemma run_nil (s : State) : s.run [] = s := rfl

@[simp] lemma run_cons (s : State) (line : Text) (lines : List Text) :
    s.run (line :: lines) = (s.step line).1.run lines := rfl

lemma run_append (s : State) (before after : List Text) :
    s.run (before ++ after) = (s.run before).run after :=
  List.foldl_append

/-- A run of one line more. -/
lemma run_take_succ {s : State} {lines : List Text} {n : ℕ} {line : Text}
    (h : lines[n]? = some line) :
    s.run (lines.take (n + 1)) = ((s.run (lines.take n)).step line).1 := by
  obtain ⟨hlt, rfl⟩ := List.getElem?_eq_some_iff.mp h
  rw [List.take_succ_eq_append_getElem hlt, run_append]
  rfl

lemma foldl_advance (run : State × Array Expansion) (lines : List Text) :
    (lines.foldl advance run).2.toList = run.2.toList ++ run.1.expansions lines := by
  induction lines generalizing run with
  | nil => simp [expansions]
  | cons line lines ih =>
      rw [expansions, List.foldl_cons, List.foldl_cons, ih, ih]
      simp [advance]

@[simp] lemma expansions_nil (s : State) : s.expansions [] = [] := rfl

@[simp] lemma expansions_cons (s : State) (line : Text) (lines : List Text) :
    s.expansions (line :: lines) = (s.step line).2 :: (s.step line).1.expansions lines := by
  rw [expansions, List.foldl_cons, foldl_advance]
  rfl

@[simp] lemma length_expansions (s : State) (lines : List Text) :
    (s.expansions lines).length = lines.length := by
  induction lines generalizing s with
  | nil => rfl
  | cons line lines ih => rw [expansions_cons, List.length_cons, ih, List.length_cons]

lemma expansions_append (s : State) (before after : List Text) :
    s.expansions (before ++ after) = s.expansions before ++ (s.run before).expansions after := by
  induction before generalizing s with
  | nil => rfl
  | cons line before ih =>
      rw [List.cons_append, expansions_cons, ih, expansions_cons, run_cons, List.cons_append]

/-- Each line is expanded in the state that the lines before it leave. -/
theorem getElem?_expansions (s : State) (lines : List Text) (k : ℕ) :
    (s.expansions lines)[k]? = lines[k]?.map fun line => ((s.run (lines.take k)).step line).2 := by
  induction lines generalizing s k with
  | nil => simp
  | cons line lines ih =>
      cases k with
      | zero => simp
      | succ k => rw [expansions_cons, List.getElem?_cons_succ, ih]; rfl

end State

/-! ### Runs outside a cycle -/

section Unstarted

variable {s : State} {line : Text} {lines : List Text}

/-- What becomes of a line outside a cycle, when this text is left of it. -/
def Expansion.remainder (text : Text) : Expansion :=
  if text = [] then .nothing else .passed text

lemma step_of_unstarted (hclosed : s.active = false) (hstart : ¬ IsStart line) :
    (s.step line).1.active = false ∧ (s.step line).2 = .remainder (stopless line) := by
  have hentered := State.active_entered_of_not_isStart hclosed hstart
  refine ⟨by rw [State.active_step, hentered], ?_⟩
  rw [Expansion.remainder]
  split
  · next htext => rw [State.step_of_blank hentered htext]
  · next htext => rw [State.step_of_passed hentered htext]

/-- Without start lines nothing is drilled and nothing is dropped. -/
lemma expansions_of_unstarted (hclosed : s.active = false) (h : ∀ line ∈ lines, ¬ IsStart line) :
    s.expansions lines = lines.map fun line => .remainder (stopless line) := by
  induction lines generalizing s with
  | nil => rfl
  | cons line lines ih =>
      obtain ⟨hafter, hremainder⟩ := step_of_unstarted hclosed (h line List.mem_cons_self)
      rw [State.expansions_cons, hremainder, List.map_cons,
        ih hafter fun line hmem => h line (List.mem_cons_of_mem _ hmem)]

end Unstarted

/-! ### Writing -/

/-- The lines of a hole, where they can be written. -/
def Hole.written (settings : Settings) (h : Hole) : List Text :=
  (h.moves settings.dwellUnit).map (Motion.written settings.precision)

/-- The lines of an expansion, where they can be written. -/
def Expansion.written (settings : Settings) : Expansion → List Text
  | .nothing => []
  | .dropped _ => []
  | .passed line => [line]
  | .drilled hole => hole.written settings

variable {settings : Settings}

lemma Hole.render_eq (settings : Settings) (h : Hole) : h.render settings =
    if Binary64.servable settings.precision || (h.moves settings.dwellUnit).all Motion.isBare
    then .ok (h.written settings) else .error .precisionOutOfRange := by
  have hmoves := mapM_ite_ok (h.moves settings.dwellUnit)
    (fun m => Binary64.servable settings.precision || m.isBare)
    (Motion.written settings.precision) RenderError.precisionOutOfRange
  rw [Hole.render, funext (Motion.render_eq settings.precision), hmoves, Hole.written]
  cases Binary64.servable settings.precision <;> simp

lemma Hole.render_of_servable (hserved : Binary64.servable settings.precision = true) (h : Hole) :
    h.render settings = .ok (h.written settings) := by
  rw [Hole.render_eq, hserved, Bool.true_or, if_pos rfl]

lemma Expansion.render_eq (settings : Settings) (e : Expansion) : e.render settings =
    if e.isServable settings then .ok (e.written settings) else .error .precisionOutOfRange := by
  cases e with
  | drilled hole => exact hole.render_eq settings
  | _ => rfl

lemma Expansion.isServable_of_servable (h : Binary64.servable settings.precision = true)
    (e : Expansion) : e.isServable settings = true := by
  cases e <;> simp [Expansion.isServable, h]

lemma Expansion.render_of_servable (h : Binary64.servable settings.precision = true)
    (e : Expansion) : e.render settings = .ok (e.written settings) := by
  rw [Expansion.render_eq, if_pos (Expansion.isServable_of_servable h e)]

end Cycle

open DrillCycles.Cycle

variable {settings : Settings}

lemma renderAll_eq (settings : Settings) (expansions : List Expansion) :
    renderAll settings expansions =
      if expansions.all (Expansion.isServable settings)
      then .ok (expansions.flatMap (Expansion.written settings))
      else .error .precisionOutOfRange := by
  rw [renderAll, funext (Expansion.render_eq settings), mapM_ite_ok]
  cases expansions.all (Expansion.isServable settings) <;>
    simp [bind, Except.bind, pure, Except.pure, List.flatMap_def]

lemma renderAll_append (settings : Settings) (before after : List Expansion) :
    renderAll settings (before ++ after) = do
      let first ← renderAll settings before
      let second ← renderAll settings after
      return first ++ second := by
  rw [renderAll_eq, renderAll_eq, renderAll_eq, List.all_append, List.flatMap_append]
  cases before.all (Expansion.isServable settings) <;>
    cases after.all (Expansion.isServable settings) <;> rfl

/-- The lines that a program expands to, before repetitions are suppressed. -/
def bodyLines (settings : Settings) (lines : List Text) : List Text :=
  (State.expansions {} lines).flatMap (Expansion.written settings)

/-- A program is written when its precision can be served. -/
theorem expandLines_eq (h : Binary64.servable settings.precision = true)
    (header lines : List Text) : expandLines settings header lines =
      .ok (Output.collect settings.suppressDuplicates (header ++ bodyLines settings lines)) := by
  have hall : (State.expansions {} lines).all (Expansion.isServable settings) = true :=
    List.all_eq_true.mpr fun e _ => e.isServable_of_servable h
  rw [expandLines, renderAll_eq, if_pos hall]
  rfl

lemma expand_eq (h : Binary64.servable settings.precision = true) (program : Text) :
    expand settings program =
      .ok (Output.collect settings.suppressDuplicates (bodyLines settings program.lines)) := by
  rw [expand, expandLines_eq h]
  rfl

lemma mem_bodyLines {lines : List Text} {written : Text} :
    written ∈ bodyLines settings lines ↔
      ∃ (k : ℕ) (e : Expansion),
        (State.expansions {} lines)[k]? = some e ∧ written ∈ e.written settings := by
  rw [bodyLines, List.mem_flatMap]
  constructor
  · rintro ⟨e, he, hmem⟩
    obtain ⟨k, hk⟩ := List.mem_iff_getElem?.mp he
    exact ⟨k, e, hk, hmem⟩
  · rintro ⟨k, e, hk, hmem⟩
    exact ⟨e, List.mem_of_getElem? hk, hmem⟩

end DrillCycles
