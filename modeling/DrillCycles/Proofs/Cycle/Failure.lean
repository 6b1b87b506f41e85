import DrillCycles.Proofs.Cycle.Run
import DrillCycles.Proofs.Tag.Bytes
import DrillCycles.Proofs.Word.Bytes

/-!
# One line, store by store

`Cycle.State.step` says what a line does to the state, and `Expansion.render` what comes out or that
nothing can.  Here the same is done in the order of the single operations: positions are searched, texts
are cut at them, values are stored, moves are written.  Any cut and any number may fail, and then the
state stays as the stores up to this point have left it.

* **`Failure`** names the two ways to fail.
* **`expandLine`** is the line as such a program.
* **`expandLine_eq`** says that no cut fails, and that all stores are made before the first move is
  written: what is left after a failure is the state that the line leaves anyway.
-/

namespace DrillCycles

variable {σ α : Type}

/-- Why the expansion of a line stops. -/
inductive Failure where
  /-- A text was to be cut inside a character, behind its end, or before an earlier cut. -/
  | cut
  /-- A move could not be written. -/
  | unwritten (error : RenderError)
  deriving DecidableEq, Repr

/-- The outcome of cutting a text. -/
def cutting : Option α → EStateM Failure σ α
  | some part => pure part
  | none => throw .cut

/-- The outcome of writing moves. -/
def writing : Except RenderError α → EStateM Failure σ α
  | .ok written => pure written
  | .error e => throw (.unwritten e)

namespace Cycle

/-- Opens or closes a cycle, and takes the tags for it away. -/
def enterInOrder (line : Text) : EStateM Failure State Text := do
  match Tag.findByBytes? Tag.starts line with
  | some tag =>
    modify (·.start tag)
    cutting (Tag.stripByBytes? Tag.starts line)
  | none =>
    if (Tag.findByBytes? Tag.stops line).isSome then
      modify State.stop
      cutting (Tag.stripByBytes? Tag.stops line)
    else return line

/-- Reads the words of a hole, takes them up, and writes the moves. -/
def drillInOrder (settings : Settings) (line : Text) : EStateM Failure State (List Text) := do
  let words ← cutting (HoleWords.readByBytes? line)
  modify (·.drill words)
  let s ← get
  writing ((s.hole line words).render settings)

/-- Expands a line without start and stop tags. -/
def scanInOrder (settings : Settings) (line : Text) : EStateM Failure State (List Text) := do
  if (← get).active then
    if (Tag.findByBytes? Tag.holes line).isSome then
      let text ← cutting (Tag.stripByBytes? Tag.holes line)
      drillInOrder settings text
    else return []
  else if line.isEmpty then return []
  else
    let height ← cutting (Address.z.valueByBytes? line)
    modify fun s => { s with initialZ := height <|> s.initialZ }
    return [line]

/-- Expands one line to its lines. -/
def expandLine (settings : Settings) (raw : Text) : EStateM Failure State (List Text) := do
  let line ← enterInOrder raw.trim
  scanInOrder settings line

/-! ### What it leaves -/

/-- An outcome that leaves this state, whether it is a result or a failure. -/
def leaving (after : σ) : Except RenderError α → EStateM.Result Failure σ α
  | .ok written => .ok written after
  | .error e => .error (.unwritten e) after

lemma writing_apply (r : Except RenderError α) (s : σ) : writing r s = leaving s r := by
  cases r <;> rfl

lemma leaving_eq_error {r : Except RenderError α} {s after : σ} {e : Failure}
    (h : leaving s r = .error e after) :
    after = s ∧ ∃ error, e = .unwritten error ∧ r = .error error := by
  cases r with
  | ok a => cases h
  | error error =>
      cases h
      exact ⟨rfl, error, rfl, rfl⟩

lemma leaving_eq_ok {r : Except RenderError α} {s after : σ} {a : α}
    (h : leaving s r = .ok a after) : after = s ∧ r = .ok a := by
  cases r with
  | ok a =>
      cases h
      exact ⟨rfl, rfl⟩
  | error e => cases h

lemma bind_apply_of_ok {β : Type} {x : EStateM Failure σ α} {f : α → EStateM Failure σ β}
    {s after : σ} {a : α} (h : x s = .ok a after) : (x >>= f) s = f a after := by
  change EStateM.bind x f s = f a after
  rw [EStateM.bind, h]

variable (settings : Settings) (s : State)

lemma enterInOrder_eq (line : Text) :
    enterInOrder line s = .ok (s.enter line).2 (s.enter line).1 := by
  rw [enterInOrder, State.enter, Tag.findByBytes?_eq, Tag.findByBytes?_eq, Tag.stripByBytes?_eq,
    Tag.stripByBytes?_eq]
  cases Tag.find? Tag.starts line with
  | some tag => rfl
  | none => cases Tag.find? Tag.stops line <;> rfl

lemma drillInOrder_eq (line : Text) : drillInOrder settings line s =
    leaving (s.drill (HoleWords.read line))
      (((s.drill (HoleWords.read line)).hole line (HoleWords.read line)).render settings) := by
  rw [drillInOrder, HoleWords.readByBytes?_eq]
  exact writing_apply _ _

lemma scanInOrder_eq (line : Text) : scanInOrder settings line s =
    leaving (s.scan line).1 ((s.scan line).2.render settings) := by
  have hget : (get : EStateM Failure State State) s = .ok s s := rfl
  rw [scanInOrder, bind_apply_of_ok hget, State.scan, Tag.findByBytes?_eq, Tag.stripByBytes?_eq,
    Address.valueByBytes?_eq]
  cases s.active with
  | true =>
      cases Tag.find? Tag.holes line with
      | some tag => exact drillInOrder_eq settings s _
      | none => cases line.isEmpty <;> rfl
  | false => cases line.isEmpty <;> rfl

/-- **A line leaves its state before it writes.**  Every cut can be made, and whether the moves can be
written or not, the state is the one after the step. -/
theorem expandLine_eq (raw : Text) :
    expandLine settings raw s = leaving (s.step raw).1 ((s.step raw).2.render settings) := by
  rw [expandLine, bind_apply_of_ok (enterInOrder_eq s raw.trim), scanInOrder_eq]
  rfl

variable {settings : Settings}

lemma expandLine_of_servable (hserved : Binary64.servable settings.precision = true) (s : State)
    (raw : Text) :
    expandLine settings raw s = .ok ((s.step raw).2.written settings) (s.step raw).1 := by
  rw [expandLine_eq, Expansion.render_of_servable hserved]
  rfl

end Cycle

end DrillCycles
