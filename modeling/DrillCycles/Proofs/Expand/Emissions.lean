import DrillCycles.Proofs.Cycle.Block
import DrillCycles.Proofs.Cycle.Run
import DrillCycles.Proofs.Expand.Collapse

/-!
# Emissions

Suppression looks at the texts of lines alone.  Here every line keeps its origin on the way to the
output: an **`Emission`** is a line with the move that it was generated from, if there is one.
`emissions` lists those of a whole program, and `expandLines_unsuppressed` says that their lines are
what comes out without suppression.

**Cuts.**  A cut is a feed or a dwell.  In a block a cut follows a move of another kind
(`isChain_moves_kind`), whose code differs whatever the numbers are, and no block starts with a cut.
Both survive when lists of emissions are joined, so `keepsApart_emissions` holds for whole programs: no
cut repeats the line emitted before it.

**Suppression.**  With suppression exactly those emissions are left out that repeat the one before them
(`leavesOut_callsOf_iff`), so everything about it is a question about neighbours in this list.
-/

namespace DrillCycles

open DrillCycles.Cycle DrillCycles.Output

variable {settings : Settings} {header lines : List Text} {out : List Text}

/-- A line on its way to the output.  Lines of a header and lines that pass through come from no
move. -/
structure Emission where
  move? : Option Motion
  line : Text
  deriving DecidableEq, Repr

/-- A line that cuts or stands still in the material. -/
def Emission.IsCut (e : Emission) : Prop :=
  ∃ m, e.move? = some m ∧ m.kind ≠ .rapid

/-- The emissions of one line of a program. -/
def Cycle.Expansion.emissions (settings : Settings) : Expansion → List Emission
  | .nothing => []
  | .dropped _ => []
  | .passed line => [⟨none, line⟩]
  | .drilled hole =>
    (hole.moves settings.dwellUnit).map fun m => ⟨some m, m.written settings.precision⟩

/-- The emissions of a program behind a header. -/
def emissions (settings : Settings) (header lines : List Text) : List Emission :=
  header.map (⟨none, ·⟩) ++ (State.expansions {} lines).flatMap (Expansion.emissions settings)

/-! ### The lines of the emissions -/

lemma map_line_expansion_emissions (settings : Settings) (e : Expansion) :
    (e.emissions settings).map Emission.line = e.written settings := by
  cases e with
  | drilled hole => exact List.map_map
  | _ => rfl

lemma map_line_emissions (settings : Settings) (header lines : List Text) :
    (emissions settings header lines).map Emission.line = header ++ bodyLines settings lines := by
  rw [emissions, List.map_append, List.map_map, List.map_flatMap, bodyLines,
    funext (map_line_expansion_emissions settings)]
  exact congrArg (· ++ _) (List.map_id header)

/-- A program that comes out at all comes out as the lines of its emissions. -/
lemma expandLines_withSuppression {suppress : Bool}
    (h : expandLines (settings.withSuppression suppress) header lines = .ok out) :
    out = Output.collect suppress ((emissions settings header lines).map Emission.line) := by
  rw [expandLines, renderAll_withSuppression, renderAll_eq] at h
  split at h
  · rw [map_line_emissions]
    exact (Except.ok.inj h).symm
  · cases h

/-- Whether a program comes out does not depend on suppression; without suppression all emissions are
written. -/
lemma expandLines_unsuppressed
    (h : expandLines (settings.withSuppression true) header lines = .ok out) :
    expandLines (settings.withSuppression false) header lines =
      .ok ((emissions settings header lines).map Emission.line) := by
  rw [expandLines, renderAll_withSuppression, renderAll_eq] at h ⊢
  split at h
  · next hserved =>
      rw [if_pos hserved, map_line_emissions]
      exact congrArg Except.ok (Output.collect_false _)
  · cases h

/-! ### Cuts and their neighbours -/

/-- A move that is no rapid follows a move of another kind. -/
def ChangesKind (previous next : Motion) : Prop :=
  next.kind ≠ .rapid → previous.kind ≠ next.kind

/-- Moves of different kinds are written differently: their codes differ in the digit. -/
lemma written_ne_of_kind_ne {previous next : Motion} (h : previous.kind ≠ next.kind)
    (precision : Option ℕ) : previous.written precision ≠ next.written precision := by
  intro hsame
  have hdigit := congrArg (fun t : Text => t[1]?) hsame
  rw [Motion.written, Motion.written] at hdigit
  revert h hdigit
  cases previous.kind <;> cases next.kind <;> simp [MoveKind.code]

/-- There is one dwell at most, so none follows another. -/
lemma isChain_moves_dwell (unit : DwellUnit) (h : Hole) :
    (h.moves unit).IsChain fun previous next => next.kind = .dwell → previous.kind ≠ .dwell := by
  have hback : (h.dwelling unit ++ [h.retraction]).IsChain
      fun previous next => next.kind = .dwell → previous.kind ≠ .dwell := by
    rcases dwelling_cases unit h with ⟨time, -, -, heq⟩ | ⟨-, heq⟩
    · rw [heq]
      refine List.isChain_pair.mpr fun hdwell => absurd hdwell ?_
      simp [Hole.retraction, Peck.rapidTo, Motion.of]
    · rw [heq]
      exact List.isChain_singleton _
  rw [moves_eq_approach]
  refine List.isChain_append.mpr ⟨?_, hback, fun previous hprevious _ _ _ => ?_⟩
  · rw [List.isChain_iff_forall_rel_of_append_cons_cons]
    intro previous next before after heq _
    have hmem : previous ∈ h.approach := by simp [heq]
    exact not_dwell_of_mem_approach hmem
  · exact not_dwell_of_mem_approach (List.mem_of_getLast? hprevious)

/-- In a block every cut follows a move of another kind: a feed follows a rapid, and a dwell no
dwell. -/
lemma isChain_moves_kind (unit : DwellUnit) (h : Hole) : (h.moves unit).IsChain ChangesKind := by
  rw [List.isChain_iff_getElem]
  intro i hi hcut
  have hfeed := List.isChain_iff_getElem.mp (isChain_moves unit h) i hi
  have hdwell := List.isChain_iff_getElem.mp (isChain_moves_dwell unit h) i hi
  cases hkind : (h.moves unit)[i + 1].kind with
  | rapid => exact absurd hkind hcut
  | feed =>
      rw [hfeed hkind]
      simp
  | dwell => exact hdwell hkind

/-- A list of emissions that starts with no cut, and in which no cut repeats the line before it. -/
structure KeepsApart (emitted : List Emission) : Prop where
  first : ∀ e, emitted.head? = some e → ¬ e.IsCut
  next : emitted.IsChain fun previous e => e.IsCut → previous.line ≠ e.line

namespace KeepsApart

lemma nil : KeepsApart [] :=
  ⟨by simp, List.isChain_nil⟩

lemma append {first second : List Emission} (hfirst : KeepsApart first)
    (hsecond : KeepsApart second) : KeepsApart (first ++ second) := by
  refine ⟨fun e he => ?_, List.isChain_append.mpr ⟨hfirst.next, hsecond.next, ?_⟩⟩
  · cases first with
    | nil => exact hsecond.first e he
    | cons other first => exact hfirst.first e he
  · intro previous _ e he hcut
    exact absurd hcut (hsecond.first e he)

lemma of_not_isCut {emitted : List Emission} (h : ∀ e ∈ emitted, ¬ e.IsCut) :
    KeepsApart emitted := by
  refine ⟨fun e he => h e (List.mem_of_head? he), ?_⟩
  rw [List.isChain_iff_forall_rel_of_append_cons_cons]
  intro previous e before after heq hcut
  exact absurd hcut (h e (by simp [heq]))

lemma expansion (settings : Settings) (e : Expansion) : KeepsApart (e.emissions settings) := by
  cases e with
  | nothing => exact nil
  | dropped line => exact nil
  | passed line => exact of_not_isCut (by simp [Expansion.emissions, Emission.IsCut])
  | drilled hole =>
      refine ⟨?_, ?_⟩
      · rintro e he ⟨m, hm, hkind⟩
        rw [Expansion.emissions, List.head?_map, Option.map_eq_some_iff] at he
        obtain ⟨first, hfirst, rfl⟩ := he
        obtain rfl := Option.some.inj hm
        exact hkind (kind_of_head?_moves hfirst)
      · rw [Expansion.emissions, List.isChain_map]
        refine (isChain_moves_kind settings.dwellUnit hole).imp ?_
        rintro previous next hchange ⟨m, hm, hkind⟩
        obtain rfl := Option.some.inj hm
        exact written_ne_of_kind_ne (hchange hkind) settings.precision

lemma flatMap (settings : Settings) (expansions : List Expansion) :
    KeepsApart (expansions.flatMap (Expansion.emissions settings)) := by
  induction expansions with
  | nil => exact nil
  | cons e expansions ih =>
      rw [List.flatMap_cons]
      exact (expansion settings e).append ih

end KeepsApart

/-- No cut of a program repeats the line emitted before it. -/
theorem keepsApart_emissions (settings : Settings) (header lines : List Text) :
    KeepsApart (emissions settings header lines) :=
  (KeepsApart.of_not_isCut (by simp [Emission.IsCut])).append (KeepsApart.flatMap settings _)

/-! ### What suppression leaves out -/

section LeavesOut

variable {emitted : List Emission} {e : Emission} {k : ℕ}

/-- The calls that emit these lines with suppression. -/
def callsOf (emitted : List Emission) : List Call :=
  suppressed (emitted.map Emission.line)

/-- An emission is left out if and only if it repeats the one before it. -/
lemma leavesOut_callsOf_iff : LeavesOut (callsOf emitted) k ↔
    ∃ j previous e, k = j + 1 ∧ emitted[j]? = some previous ∧ emitted[k]? = some e ∧
      previous.line = e.line := by
  simp only [callsOf, leavesOut_suppressed_iff, List.getElem?_map, Option.map_eq_some_iff]
  constructor
  · rintro ⟨j, line, hk, ⟨previous, hprevious, rfl⟩, e, he, hsame⟩
    exact ⟨j, previous, e, hk, hprevious, he, hsame.symm⟩
  · rintro ⟨j, previous, e, hk, hprevious, he, hsame⟩
    exact ⟨j, e.line, hk, ⟨previous, hprevious, hsame⟩, e, he, rfl⟩

lemma KeepsApart.not_leavesOut (h : KeepsApart emitted) (he : emitted[k]? = some e)
    (hcut : e.IsCut) : ¬ LeavesOut (callsOf emitted) k := by
  rw [leavesOut_callsOf_iff]
  rintro ⟨j, previous, e', rfl, hprevious, he', hsame⟩
  obtain rfl := Option.some.inj (he.symm.trans he')
  obtain ⟨hj, rfl⟩ := List.getElem?_eq_some_iff.mp hprevious
  obtain ⟨hlt, rfl⟩ := List.getElem?_eq_some_iff.mp he
  exact List.isChain_iff_getElem.mp h.next j hlt hcut hsame

/-- The lines that are not left out are written, in the order of the emissions. -/
lemma isWritten_callsOf (emitted : List Emission) :
    IsWritten (callsOf emitted) (collect true (emitted.map Emission.line)) := by
  rw [← lines_afterCalls_suppressed]
  exact isWritten_afterCalls _

/-- What is left out repeats the line that stands directly before its place in the output. -/
lemma exists_before_of_leavesOut (he : emitted[k]? = some e)
    (hleft : LeavesOut (callsOf emitted) k) :
    (afterCalls ((callsOf emitted).take k)).lines.toList <+:
        collect true (emitted.map Emission.line) ∧
      (afterCalls ((callsOf emitted).take k)).lines.toList.getLast? = some e.line := by
  constructor
  · rw [callsOf, take_suppressed, lines_afterCalls_suppressed]
    exact collect_take_prefix true _ k
  · obtain ⟨line, hcall, hlast⟩ := hleft
    rw [callsOf, getElem?_suppressed, List.getElem?_map, he] at hcall
    rw [hlast, ← hcall]
    rfl

end LeavesOut

end DrillCycles
