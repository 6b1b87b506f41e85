import DrillCycles.Path
import Mathlib.Data.List.TakeWhile
import Mathlib.Tactic.Common

/-!
# Names of outputs

**Extensions.**  `IsSplit` says without a scan what the stem and the extension of a file name are: the
parts around its last point, provided that something stands in front of it.  `splitExtension` finds
them if there are any.

**Two templates.**  The word `expanded` goes before the extension, or behind a name without one.  In
both cases the last point of the result shows what was put together.  So a name with an extension
could meet one without only if the latter were its stem and the mark, but then that one would have an
extension too (`expandedName_ne_of_isSplit`).  Hence `expandedName_injective`.
-/

namespace DrillCycles.Path

variable {name stem extension : Text}

/-! ### Extensions -/

/-- A file name consists of a stem, its last point, and an extension.  The extension may be empty, the
stem may not. -/
structure IsSplit (name stem extension : Text) : Prop where
  eq : name = stem ++ '.' :: extension
  stem_ne_nil : stem ≠ []
  no_point : '.' ∉ extension

/-- The extension of a file name. -/
def HasExtension (name extension : Text) : Prop :=
  ∃ stem, IsSplit name stem extension

lemma bne_point_of_mem_reverse {t : Text} (h : '.' ∉ t) : ∀ c ∈ t.reverse, (c != '.') = true := by
  intro c hc
  rw [bne_iff_ne]
  rintro rfl
  exact h (List.mem_reverse.mp hc)

lemma dropWhile_reverse_append_point (stem : Text) (h : '.' ∉ extension) :
    (stem ++ '.' :: extension).reverse.dropWhile (· != '.') = '.' :: stem.reverse := by
  rw [List.reverse_append, List.reverse_cons, List.append_assoc,
    List.dropWhile_append_of_pos (bne_point_of_mem_reverse h)]
  rfl

lemma takeWhile_reverse_append_point (stem : Text) (h : '.' ∉ extension) :
    (stem ++ '.' :: extension).reverse.takeWhile (· != '.') = extension.reverse := by
  rw [List.reverse_append, List.reverse_cons, List.append_assoc,
    List.takeWhile_append_of_pos (bne_point_of_mem_reverse h)]
  exact List.append_nil _

/-- A text has only one last point. -/
lemma append_point_inj {before before' after after' : Text} (hafter : '.' ∉ after)
    (hafter' : '.' ∉ after') (h : before ++ '.' :: after = before' ++ '.' :: after') :
    before = before' ∧ after = after' := by
  have hbefore := dropWhile_reverse_append_point before hafter
  rw [h, dropWhile_reverse_append_point before' hafter'] at hbefore
  have hbehind := takeWhile_reverse_append_point before hafter
  rw [h, takeWhile_reverse_append_point before' hafter'] at hbehind
  exact ⟨(List.reverse_inj.mp (List.cons.inj hbefore).2).symm, (List.reverse_inj.mp hbehind).symm⟩

lemma exists_last_point (h : '.' ∈ name) :
    ∃ before after, name = before ++ '.' :: after ∧ '.' ∉ after := by
  obtain ⟨after, before, hname, hafter⟩ := List.eq_append_cons_of_mem (List.mem_reverse.mpr h)
  refine ⟨before.reverse, after.reverse, ?_, by simpa using hafter⟩
  rw [← List.reverse_reverse name, hname]
  simp

lemma splitExtension_of_isSplit (h : IsSplit name stem extension) :
    splitExtension name = (stem, some extension) := by
  obtain ⟨rfl, hstem, hpoint⟩ := h
  rw [splitExtension, dropWhile_reverse_append_point stem hpoint,
    takeWhile_reverse_append_point stem hpoint]
  simp [hstem]

/-- A name without an extension has no point, or its only point is at its front. -/
lemma splitExtension_of_no_extension (h : ∀ extension, ¬ HasExtension name extension) :
    splitExtension name = (name, none) := by
  by_cases hpoint : '.' ∈ name
  · obtain ⟨before, after, rfl, hafter⟩ := exists_last_point hpoint
    -- With something in front of its last point, the name would have an extension.
    obtain rfl : before = [] := by
      by_contra hbefore
      exact h after ⟨before, rfl, hbefore, hafter⟩
    rw [splitExtension, dropWhile_reverse_append_point [] hafter]
    rfl
  · rw [splitExtension, List.dropWhile_eq_nil_iff.mpr (bne_point_of_mem_reverse hpoint)]

/-! ### The mark of an output -/

/-- The mark goes between the stem and the extension. -/
lemma isSplit_expandedName (h : IsSplit name stem extension) :
    IsSplit (expandedName name) (stem ++ ".expanded".toList) extension where
  eq := by
    rw [expandedName, splitExtension_of_isSplit h]
    rfl
  stem_ne_nil := by simp [h.stem_ne_nil]
  no_point := h.no_point

/-- Without an extension the mark goes to the end. -/
lemma expandedName_of_no_extension (h : ∀ extension, ¬ HasExtension name extension) :
    expandedName name = name ++ '.' :: "expanded".toList := by
  rw [expandedName, splitExtension_of_no_extension h]
  simp

lemma exists_isSplit_or (name : Text) :
    (∃ stem extension, IsSplit name stem extension) ∨ ∀ extension, ¬ HasExtension name extension := by
  by_cases h : ∃ extension, HasExtension name extension
  · obtain ⟨extension, stem, hsplit⟩ := h
    exact Or.inl ⟨stem, extension, hsplit⟩
  · exact Or.inr (not_exists.mp h)

lemma hasExtension_expandedName (h : HasExtension name extension) :
    HasExtension (expandedName name) extension := by
  obtain ⟨stem, hsplit⟩ := h
  exact ⟨_, isSplit_expandedName hsplit⟩

lemma length_expandedName (name : Text) : (expandedName name).length = name.length + 9 := by
  obtain ⟨stem, extension, hsplit⟩ | hno := exists_isSplit_or name
  · rw [(isSplit_expandedName hsplit).eq, hsplit.eq]
    simp
    omega
  · simp [expandedName_of_no_extension hno]

lemma expandedName_ne_self (name : Text) : expandedName name ≠ name := by
  intro h
  have hlength := length_expandedName name
  rw [h] at hlength
  omega

/-- No character is put in but those of the mark. -/
lemma mem_of_mem_expandedName {c : Char} (h : c ∈ expandedName name) :
    c ∈ name ∨ c ∈ ".expanded".toList := by
  obtain ⟨stem, extension, hsplit⟩ | hno := exists_isSplit_or name
  · rw [(isSplit_expandedName hsplit).eq] at h
    rw [hsplit.eq]
    simp only [List.mem_append] at h ⊢
    tauto
  · rw [expandedName_of_no_extension hno] at h
    exact List.mem_append.mp h

lemma point_not_mem_expanded : '.' ∉ "expanded".toList := by decide

/-- A name with an extension does not meet one without: the latter would be the stem of the former with
the mark behind it, and so have an extension. -/
lemma expandedName_ne_of_isSplit {name' : Text} (hsplit : IsSplit name stem extension)
    (hno : ∀ extension, ¬ HasExtension name' extension) : expandedName name ≠ expandedName name' := by
  intro h
  have hmarked := isSplit_expandedName hsplit
  rw [hmarked.eq, expandedName_of_no_extension hno] at h
  obtain ⟨hstem, -⟩ := append_point_inj hmarked.no_point point_not_mem_expanded h
  exact hno "expanded".toList ⟨stem, hstem.symm, hsplit.stem_ne_nil, point_not_mem_expanded⟩

/-- **Two names never become one**, whether they have extensions or not. -/
theorem expandedName_injective : Function.Injective expandedName := by
  intro name name' h
  obtain ⟨stem, extension, hsplit⟩ | hno := exists_isSplit_or name <;>
    obtain ⟨stem', extension', hsplit'⟩ | hno' := exists_isSplit_or name'
  · have hmarked := isSplit_expandedName hsplit
    have hmarked' := isSplit_expandedName hsplit'
    rw [hmarked.eq, hmarked'.eq] at h
    obtain ⟨hstem, rfl⟩ := append_point_inj hmarked.no_point hmarked'.no_point h
    rw [hsplit.eq, hsplit'.eq, List.append_cancel_right hstem]
  · exact absurd h (expandedName_ne_of_isSplit hsplit hno')
  · exact absurd h.symm (expandedName_ne_of_isSplit hsplit' hno)
  · rw [expandedName_of_no_extension hno, expandedName_of_no_extension hno'] at h
    exact List.append_cancel_right h

end DrillCycles.Path
