import DrillCycles.Proofs.Tag.Seam
import DrillCycles.Proofs.Text.Lines
import Mathlib.Algebra.Order.BigOperators.Group.List
import Mathlib.Algebra.Order.Ring.Nat

/-!
# Counting tags

`Tag.count` runs through a whole text, the scanner looks at trimmed lines.  Both see the same tags,
because no code holds a blank and a blank ends a code as well as the end of the text does
(`heads_append_of_isBlank`).  So a text can be cut at its line feeds and its lines can be trimmed
without any tag being lost or found anew.

**`count_eq_sum_lines`** says this of the count, and **`count_eq_zero_iff`** what a count of zero means.
-/

namespace DrillCycles.Tag

variable {tag : Tag} {candidates : List Tag} {b c : Char} {t before after : Text} {counted : ℕ}

/-! ### Blanks between texts -/

lemma ne_code_of_isBlank (h : isBlank c = true) : c ≠ 'G' := by
  rintro rfl
  exact absurd h (by decide)

/-- Whether a tag stands at the start of a text does not depend on what follows a blank. -/
lemma heads_append_of_isBlank (hb : isBlank b = true) (tag : Tag) (t after : Text) :
    tag.heads (t ++ b :: after) = tag.heads t := by
  have hends : ∀ rest : Text, endsBefore rest = true → endsBefore (rest ++ b :: after) = true := by
    rintro (_ | ⟨c, rest⟩) hrest
    · exact endsBefore_of_isBlank (t := [b]) (by simpa using hb)
    · exact hrest
  rw [Bool.eq_iff_iff, heads_iff, heads_iff]
  constructor
  · rintro ⟨rest, h, hrest⟩
    rcases List.append_eq_append_iff.mp h with ⟨middle, hcode, hmiddle⟩ | ⟨middle, rfl, rfl⟩
    · cases middle with
      | nil => exact ⟨[], by simpa using hcode.symm, rfl⟩
      | cons c middle =>
          -- The blank would belong to the code.
          obtain ⟨rfl, -⟩ := List.cons.inj hmiddle
          have hmem : b ∈ tag.code := by simp [hcode]
          exact absurd hb (by simp [not_isBlank_of_mem_code hmem])
    · exact ⟨middle, rfl, endsBefore_of_append hrest⟩
  · rintro ⟨rest, rfl, hrest⟩
    exact ⟨_, List.append_assoc _ _ _, hends rest hrest⟩

/-! ### Counting on -/

@[simp] lemma countFrom_nil (tag : Tag) (counted : ℕ) : tag.countFrom counted [] = counted := rfl

lemma countFrom_eq (tag : Tag) (counted : ℕ) (t : Text) :
    tag.countFrom counted t = counted + tag.countFrom 0 t := by
  induction t generalizing counted with
  | nil => rfl
  | cons c t ih =>
      rw [countFrom, countFrom, ih, ih (if tag.heads (c :: t) = true then 0 + 1 else 0)]
      split <;> omega

/-- No tag starts among blanks. -/
lemma countFrom_append_left (h : ∀ c ∈ before, isBlank c = true) (t : Text) :
    tag.countFrom counted (before ++ t) = tag.countFrom counted t := by
  induction before with
  | nil => rfl
  | cons c before ih =>
      have hc : c ≠ 'G' := ne_code_of_isBlank (h c List.mem_cons_self)
      rw [List.cons_append, countFrom, if_neg (not_heads_of_ne hc),
        ih fun d hd => h d (List.mem_cons_of_mem _ hd)]

/-- A blank divides the text into two that are counted one after the other. -/
lemma countFrom_append_cons (hb : isBlank b = true) (before after : Text) :
    tag.countFrom counted (before ++ b :: after) =
      tag.countFrom (tag.countFrom counted before) after := by
  induction before generalizing counted with
  | nil =>
      have hblank : ∀ c ∈ [b], isBlank c = true := by simpa using hb
      exact countFrom_append_left hblank after
  | cons c before ih =>
      have hheads := heads_append_of_isBlank hb tag (c :: before) after
      rw [List.cons_append] at hheads ⊢
      rw [countFrom, hheads, ih, countFrom]

lemma countFrom_append_right (h : ∀ c ∈ after, isBlank c = true) (t : Text) :
    tag.countFrom counted (t ++ after) = tag.countFrom counted t := by
  cases after with
  | nil => rw [List.append_nil]
  | cons b after =>
      have hafter : ∀ c ∈ after, isBlank c = true := fun c hc => h c (List.mem_cons_of_mem _ hc)
      have hblank : tag.countFrom (tag.countFrom counted t) (after ++ []) =
          tag.countFrom counted t := countFrom_append_left hafter []
      rw [List.append_nil] at hblank
      rw [countFrom_append_cons (h b List.mem_cons_self), hblank]

/-! ### Counts of texts -/

lemma count_eq_sum (candidates : List Tag) (t : Text) :
    count candidates t = (candidates.map fun tag => tag.countFrom 0 t).sum := by
  have hfold : ∀ counted, candidates.foldl (fun counted tag => tag.countFrom counted t) counted =
      counted + (candidates.map fun tag => tag.countFrom 0 t).sum := by
    induction candidates with
    | nil => simp
    | cons tag candidates ih =>
        intro counted
        rw [List.foldl_cons, ih, countFrom_eq, List.map_cons, List.sum_cons, Nat.add_assoc]
  rw [count, hfold, Nat.zero_add]

@[simp] lemma count_nil (candidates : List Tag) : count candidates [] = 0 := by
  simp [count_eq_sum]

@[simp] lemma count_trim (candidates : List Tag) (t : Text) :
    count candidates t.trim = count candidates t := by
  obtain ⟨before, after, ht, hbefore, hafter⟩ := Text.exists_eq_trim t
  have hone : ∀ tag : Tag, tag.countFrom 0 t = tag.countFrom 0 t.trim := by
    intro tag
    conv_lhs => rw [ht]
    rw [countFrom_append_right hafter, countFrom_append_left hbefore]
  simp only [count_eq_sum, hone]

/-- A blank divides the text into two that are counted by themselves. -/
lemma count_append_cons (hb : isBlank b = true) (before after : Text) :
    count candidates (before ++ b :: after) = count candidates before + count candidates after := by
  have hone : ∀ tag : Tag, tag.countFrom 0 (before ++ b :: after) =
      tag.countFrom 0 before + tag.countFrom 0 after := by
    intro tag
    rw [countFrom_append_cons hb, countFrom_eq]
  simp only [count_eq_sum, hone, List.sum_map_add]

lemma count_intercalate (candidates : List Tag) (ls : List Text) :
    count candidates (List.intercalate ['\n'] ls) = (ls.map (count candidates)).sum := by
  induction ls with
  | nil => exact count_nil candidates
  | cons line ls ih =>
      cases ls with
      | nil => simp
      | cons next ls =>
          rw [List.intercalate_cons_cons, List.append_assoc, List.singleton_append,
            count_append_cons (by decide), ih]
          simp only [List.map_cons, List.sum_cons]

/-- **The tags of a text are those of its lines**, each of them trimmed and counted by itself. -/
theorem count_eq_sum_lines (candidates : List Tag) (t : Text) :
    count candidates t = (t.lines.map fun line => count candidates line.trim).sum := by
  simp only [count_trim]
  rw [← count_intercalate, Text.intercalate_lines]

/-! ### Nothing to count -/

lemma countFrom_eq_zero_iff : tag.countFrom 0 t = 0 ↔ ¬ tag.OccursIn t := by
  induction t with
  | nil => simp
  | cons c t ih =>
      rw [countFrom, countFrom_eq, Nat.add_eq_zero_iff, ih, occursIn_cons, not_or]
      refine and_congr_left fun _ => ?_
      split <;> simp_all

theorem count_eq_zero_iff : count candidates t = 0 ↔ ¬ AnyIn candidates t := by
  simp [count_eq_sum, List.sum_eq_zero_iff, countFrom_eq_zero_iff, AnyIn]

end DrillCycles.Tag
