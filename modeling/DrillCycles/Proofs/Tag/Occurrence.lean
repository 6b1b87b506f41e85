import DrillCycles.Tag
import Mathlib.Tactic.Common

/-!
# Where tags stand in a text

What it means that a tag occurs in a text is said here without scanning: its code stands at a
position, and what follows is no digit and no point.

* **`OccursAt`** names the position, **`OccursIn`** and **`AnyIn`** leave it open.
* **`IsFirst`** is the candidate whose occurrence has the least position.
* **`find?_eq_some_iff`** and **`isSome_find?_iff`** say that `Tag.find?` decides both.
-/

namespace DrillCycles.Tag

variable {tag : Tag} {candidates : List Tag} {c : Char} {t : Text}

/-- The code of the tag stands behind the first `i` characters, and ends there. -/
def OccursAt (tag : Tag) (t : Text) (i : Nat) : Prop :=
  ∃ before after : Text,
    t = before ++ tag.code ++ after ∧ before.length = i ∧ endsBefore after = true

/-- The tag stands somewhere in the text. -/
def OccursIn (tag : Tag) (t : Text) : Prop :=
  ∃ i, tag.OccursAt t i

/-- One of the candidates stands somewhere in the text. -/
def AnyIn (candidates : List Tag) (t : Text) : Prop :=
  ∃ tag ∈ candidates, tag.OccursIn t

/-- The candidate that stands leftmost in the text. -/
def IsFirst (candidates : List Tag) (t : Text) (tag : Tag) : Prop :=
  tag ∈ candidates ∧
    ∃ i, tag.OccursAt t i ∧ ∀ other ∈ candidates, ∀ j, other.OccursAt t j → i ≤ j

lemma code_ne_nil (tag : Tag) : tag.code ≠ [] := by
  cases tag <;> simp [code]

lemma length_code (tag : Tag) : tag.code.length = 3 := by
  cases tag <;> rfl

lemma exists_code_eq (tag : Tag) : ∃ d e : Char, tag.code = ['G', d, e] ∧ d ≠ 'G' ∧ e ≠ 'G' := by
  cases tag <;> exact ⟨_, _, rfl, by decide, by decide⟩

lemma code_injective : Function.Injective code := by
  intro a b h
  cases a <;> cases b <;> simp_all [code]

lemma heads_iff : tag.heads t = true ↔
    ∃ after, t = tag.code ++ after ∧ endsBefore after = true := by
  rw [heads, Bool.and_eq_true, List.isPrefixOf_iff_prefix]
  constructor
  · rintro ⟨⟨after, rfl⟩, hends⟩
    exact ⟨after, rfl, by simpa using hends⟩
  · rintro ⟨after, rfl, hends⟩
    exact ⟨List.prefix_append _ _, by simpa using hends⟩

@[simp] lemma heads_nil : tag.heads [] = false := by
  cases tag <;> rfl

lemma not_heads_of_ne (h : c ≠ 'G') : ¬ tag.heads (c :: t) = true := by
  obtain ⟨a, b, hcode, -⟩ := exists_code_eq tag
  simp [heads, hcode, Ne.symm h]

/-- At most one tag stands at the start of a text: all codes are equally long. -/
lemma eq_of_heads {a b : Tag} (ha : a.heads t = true) (hb : b.heads t = true) : a = b := by
  obtain ⟨after, rfl, -⟩ := heads_iff.mp ha
  obtain ⟨after', h, -⟩ := heads_iff.mp hb
  refine code_injective (List.append_inj_left h ?_)
  rw [length_code, length_code]

/-! ### Occurrences along a text -/

@[simp] lemma occursAt_zero : tag.OccursAt t 0 ↔ tag.heads t = true := by
  rw [heads_iff]
  constructor
  · rintro ⟨before, after, rfl, hlen, hends⟩
    rw [List.length_eq_zero_iff] at hlen
    exact ⟨after, by simp [hlen], hends⟩
  · rintro ⟨after, rfl, hends⟩
    exact ⟨[], after, by simp, rfl, hends⟩

@[simp] lemma occursAt_cons_succ {i : Nat} :
    tag.OccursAt (c :: t) (i + 1) ↔ tag.OccursAt t i := by
  constructor
  · rintro ⟨before, after, h, hlen, hends⟩
    cases before with
    | nil => simp at hlen
    | cons d before =>
        simp only [List.cons_append, List.cons.injEq] at h
        exact ⟨before, after, h.2, by simpa using hlen, hends⟩
  · rintro ⟨before, after, rfl, hlen, hends⟩
    exact ⟨c :: before, after, rfl, by simpa using hlen, hends⟩

@[simp] lemma not_occursIn_nil : ¬ tag.OccursIn [] := by
  rintro ⟨i, before, after, h, -⟩
  have := code_ne_nil tag
  simp_all

lemma occursIn_cons : tag.OccursIn (c :: t) ↔ tag.heads (c :: t) = true ∨ tag.OccursIn t := by
  constructor
  · rintro ⟨i, h⟩
    cases i with
    | zero => exact Or.inl (occursAt_zero.mp h)
    | succ i => exact Or.inr ⟨i, occursAt_cons_succ.mp h⟩
  · rintro (h | ⟨i, h⟩)
    · exact ⟨0, occursAt_zero.mpr h⟩
    · exact ⟨i + 1, occursAt_cons_succ.mpr h⟩

lemma anyIn_cons : AnyIn candidates (c :: t) ↔
    (∃ tag ∈ candidates, tag.heads (c :: t) = true) ∨ AnyIn candidates t := by
  simp only [AnyIn, occursIn_cons, and_or_left, exists_or]

/-! ### The search for the first tag -/

lemma find?_cons_of_heads {tag : Tag} (hmem : tag ∈ candidates)
    (h : tag.heads (c :: t) = true) : find? candidates (c :: t) = some tag := by
  rw [find?]
  cases hfound : candidates.find? (·.heads (c :: t)) with
  | none => exact absurd h (List.find?_eq_none.mp hfound tag hmem)
  | some other =>
      have hother : other.heads (c :: t) = true := by simpa using List.find?_some hfound
      rw [eq_of_heads hother h]

lemma find?_cons_of_not_heads (h : ∀ tag ∈ candidates, ¬ tag.heads (c :: t) = true) :
    find? candidates (c :: t) = find? candidates t := by
  rw [find?, List.find?_eq_none.mpr h]

/-- `Tag.find?` gives the candidate that stands leftmost. -/
theorem find?_eq_some_iff : find? candidates t = some tag ↔ IsFirst candidates t tag := by
  induction t with
  | nil =>
      refine iff_of_false (by simp [find?]) ?_
      rintro ⟨-, i, h, -⟩
      exact not_occursIn_nil ⟨i, h⟩
  | cons c t ih =>
      by_cases hheads : ∃ first ∈ candidates, first.heads (c :: t) = true
      · obtain ⟨first, hmem, hfirst⟩ := hheads
        rw [find?_cons_of_heads hmem hfirst, Option.some.injEq]
        constructor
        · rintro rfl
          exact ⟨hmem, 0, occursAt_zero.mpr hfirst, fun _ _ _ _ => Nat.zero_le _⟩
        · rintro ⟨-, i, hi, hleast⟩
          have hzero : i = 0 :=
            Nat.le_zero.mp (hleast first hmem 0 (occursAt_zero.mpr hfirst))
          subst hzero
          exact eq_of_heads hfirst (occursAt_zero.mp hi)
      · rw [find?_cons_of_not_heads (by simpa using hheads), ih]
        -- No candidate stands at the start, so all positions are one further to the right.
        refine and_congr_right fun hmem => ⟨?_, ?_⟩
        · rintro ⟨i, hi, hleast⟩
          refine ⟨i + 1, occursAt_cons_succ.mpr hi, fun other hother j hj => ?_⟩
          cases j with
          | zero => exact absurd ⟨other, hother, occursAt_zero.mp hj⟩ hheads
          | succ j => exact Nat.succ_le_succ (hleast other hother j (occursAt_cons_succ.mp hj))
        · rintro ⟨i, hi, hleast⟩
          cases i with
          | zero => exact absurd ⟨tag, hmem, occursAt_zero.mp hi⟩ hheads
          | succ i =>
              refine ⟨i, occursAt_cons_succ.mp hi, fun other hother j hj => ?_⟩
              exact Nat.le_of_succ_le_succ
                (hleast other hother (j + 1) (occursAt_cons_succ.mpr hj))

/-- Two tags stand on this line, and the one further left is found: their order in the list is
immaterial. -/
example : find? starts "X1 G99 G98".toList = some .startRPlane := by decide

/-- `Tag.find?` finds a tag exactly when a candidate stands in the text. -/
theorem isSome_find?_iff : (find? candidates t).isSome = true ↔ AnyIn candidates t := by
  induction t with
  | nil => simp [find?, AnyIn]
  | cons c t ih =>
      rw [anyIn_cons]
      by_cases hheads : ∃ first ∈ candidates, first.heads (c :: t) = true
      · obtain ⟨first, hmem, hfirst⟩ := hheads
        rw [find?_cons_of_heads hmem hfirst]
        exact iff_of_true rfl (Or.inl ⟨first, hmem, hfirst⟩)
      · rw [find?_cons_of_not_heads (by simpa using hheads), ih, or_iff_right hheads]

lemma find?_eq_none_iff : find? candidates t = none ↔ ¬ AnyIn candidates t := by
  rw [← isSome_find?_iff]
  simp

instance : Decidable (AnyIn candidates t) :=
  decidable_of_iff _ isSome_find?_iff

end DrillCycles.Tag
