import DrillCycles.Proofs.Tag.Removal

/-!
# Seams

Taking tags out of a line joins the text on both sides of each of them.  Characters that did not
belong together may then read as a tag: `G8G80 0` without its `G80` is `G80` again.

**Seams.**  A `Seam` is a place where one removal joins text, with everything that is left in front of
it and everything that is left behind it; `StripSeam` collects the seams of all removals of a
`Tag.strip`, which takes out its candidates one after the other.  Codes do not overlap, so a text has
one cut only (`Cut.unique`) and its seams are determined.

**Tags.**  `Tag.Forms` says that a code comes together at a seam.  A candidate that stands in a
stripped line has done so (`forms_of_occursIn_strip`); there is no other way to miss one.
-/

namespace DrillCycles.Tag

variable {tag other : Tag} {candidates : List Tag} {line s t left right : Text}

/-! ### Seams -/

/-- A place where taking out a tag joins what is left in front of it and what is left behind it. -/
def Seam (tag : Tag) (t left right : Text) : Prop :=
  ∃ before after : List Text, Cut tag t (before ++ after) ∧ before ≠ [] ∧ after ≠ [] ∧
    left = before.flatten ∧ right = after.flatten

/-- A seam of one of the removals that strip a line of all candidates, and the candidates that are
still to be removed then. -/
def StripSeam (candidates : List Tag) (line : Text) (later : List Tag) (left right : Text) : Prop :=
  ∃ (earlier : List Tag) (tag : Tag), candidates = earlier ++ tag :: later ∧
    Seam tag (earlier.foldl (fun t tag => tag.remove t) line) left right

lemma stripSeam_singleton {later : List Tag} :
    StripSeam [tag] t later left right ↔ later = [] ∧ Seam tag t left right := by
  constructor
  · rintro ⟨earlier, next, heq, hseam⟩
    obtain ⟨rfl, rfl, rfl⟩ : earlier = [] ∧ next = tag ∧ later = [] := by
      rcases List.append_eq_singleton_iff.mp heq.symm with ⟨h, h'⟩ | ⟨-, h'⟩
      · simp_all
      · cases h'
    exact ⟨rfl, hseam⟩
  · rintro ⟨rfl, hseam⟩
    exact ⟨[], tag, rfl, hseam⟩

/-- The code of a tag comes together from the end of one text and the start of another. -/
def Forms (tag : Tag) (left right : Text) : Prop :=
  ∃ front back before after : Text, tag.code = front ++ back ∧ front ≠ [] ∧ back ≠ [] ∧
    left = before ++ front ∧ right = back ++ after ∧ endsBefore after = true

lemma Forms.append_left (before : Text) (h : tag.Forms left right) :
    tag.Forms (before ++ left) right := by
  obtain ⟨front, back, start, after, hcode, hfront, hback, rfl, hright, hends⟩ := h
  exact ⟨front, back, before ++ start, after, hcode, hfront, hback, by simp, hright, hends⟩

/-! ### The seams of a text -/

lemma endsBefore_of_append (h : endsBefore (s ++ t) = true) : endsBefore s = true := by
  cases s with
  | nil => rfl
  | cons c s => exact h

/-- Codes do not overlap: behind a code another one begins at its end at the earliest. -/
lemma exists_eq_code_append {middle after after' : Text}
    (h : tag.code ++ after = middle ++ (tag.code ++ after')) (hne : middle ≠ []) :
    ∃ rest, middle = tag.code ++ rest ∧ after = rest ++ (tag.code ++ after') := by
  rcases List.append_eq_append_iff.mp h with ⟨rest, hmiddle, hafter⟩ | ⟨rest, hcode, hrest⟩
  · exact ⟨rest, hmiddle, hafter⟩
  · cases rest with
    | nil => exact ⟨[], by simpa using hcode.symm, by simpa using hrest.symm⟩
    | cons c rest =>
        -- The code would hold its first letter twice.
        obtain ⟨d, e, heq, hd, he⟩ := exists_code_eq tag
        rw [heq] at hcode hrest
        obtain rfl : c = 'G' := by
          rw [List.cons_append, List.cons_append] at hrest
          exact (List.cons.inj hrest).1.symm
        obtain ⟨first, middle, rfl⟩ := List.exists_cons_of_ne_nil hne
        have htail : 'G' ∈ [d, e] := by
          rw [(List.cons.inj hcode).2]
          simp
        simp only [List.mem_cons, List.not_mem_nil, or_false] at htail
        rcases htail with rfl | rfl
        · exact absurd rfl hd
        · exact absurd rfl he

lemma first_unique_of_append {first middle after after' : Text} (hends : endsBefore after = true)
    (hfirst : ¬ tag.OccursIn (first ++ middle))
    (h : tag.code ++ after = middle ++ (tag.code ++ after')) : middle = [] := by
  by_contra hne
  obtain ⟨rest, rfl, rfl⟩ := exists_eq_code_append h hne
  exact hfirst ⟨_, first, rest, by simp, rfl, endsBefore_of_append hends⟩

/-- The first fragment ends where the tag stands first, so there is only one. -/
lemma first_unique {first first' after after' : Text}
    (h : first ++ tag.code ++ after = first' ++ tag.code ++ after')
    (hfirst : ¬ tag.OccursIn first) (hfirst' : ¬ tag.OccursIn first')
    (hends : endsBefore after = true) (hends' : endsBefore after' = true) :
    first = first' ∧ after = after' := by
  have heq : first = first' := by
    rw [List.append_assoc, List.append_assoc] at h
    rcases List.append_eq_append_iff.mp h with ⟨middle, rfl, hmiddle⟩ | ⟨middle, rfl, hmiddle⟩
    · rw [first_unique_of_append hends hfirst' hmiddle, List.append_nil]
    · rw [first_unique_of_append hends' hfirst hmiddle, List.append_nil]
  subst heq
  exact ⟨rfl, List.append_cancel_left h⟩

lemma occursIn_of_eq {first after : Text} (h : t = first ++ tag.code ++ after)
    (hends : endsBefore after = true) : tag.OccursIn t :=
  ⟨_, first, after, h, rfl, hends⟩

lemma Cut.unique {fragments fragments' : List Text} (h : Cut tag t fragments)
    (h' : Cut tag t fragments') : fragments = fragments' := by
  induction h generalizing fragments' with
  | whole hnot =>
      cases h' with
      | whole => rfl
      | next _ hends _ => exact absurd (occursIn_of_eq rfl hends) hnot
  | @next first after fragments hfirst hends hrest ih =>
      generalize ht : first ++ tag.code ++ after = u at h'
      cases h' with
      | whole hnot => exact absurd (occursIn_of_eq ht.symm hends) hnot
      | next hfirst' hends' hrest' =>
          obtain ⟨rfl, rfl⟩ := first_unique ht hfirst hfirst' hends hends'
          rw [ih hrest']

/-- A tag that stands once in a text leaves one seam. -/
lemma seam_iff_of_once {first after : Text} (hfirst : ¬ tag.OccursIn first)
    (hends : endsBefore after = true) (hafter : ¬ tag.OccursIn (withoutSpace after)) :
    Seam tag (first ++ tag.code ++ after) left right ↔
      left = first ∧ right = withoutSpace after := by
  have hcut : Cut tag (first ++ tag.code ++ after) [first, withoutSpace after] :=
    .next hfirst hends (.whole hafter)
  constructor
  · rintro ⟨before, behind, hcut', hbefore, hbehind, rfl, rfl⟩
    have heq := hcut.unique hcut'
    obtain ⟨piece, before, rfl⟩ := List.exists_cons_of_ne_nil hbefore
    obtain ⟨piece', behind, rfl⟩ := List.exists_cons_of_ne_nil hbehind
    cases before with
    | nil => simp_all
    | cons next before => simp at heq
  · rintro ⟨rfl, rfl⟩
    exact ⟨[left], [withoutSpace after], hcut, by simp, by simp, by simp, by simp⟩

/-! ### Tags in joined texts -/

/-- A tag in a joined text stands in one of its parts, or it has come together. -/
lemma occursIn_append_cases (h : tag.OccursIn (left ++ right)) :
    tag.OccursIn left ∨ tag.OccursIn right ∨ tag.Forms left right := by
  obtain ⟨i, before, after, heq, -, hends⟩ := h
  rw [List.append_assoc] at heq
  rcases List.append_eq_append_iff.mp heq with ⟨middle, rfl, hright⟩ | ⟨middle, rfl, hcode⟩
  · -- The tag starts behind the seam.
    exact Or.inr (Or.inl ⟨_, middle, after, by rw [hright, List.append_assoc], rfl, hends⟩)
  rcases List.append_eq_append_iff.mp hcode with ⟨rest, rfl, hafter⟩ | ⟨rest, hsplit, hright⟩
  · -- The tag ends in front of the seam.
    rw [hafter] at hends
    exact Or.inl ⟨_, before, rest, by simp, rfl, endsBefore_of_append hends⟩
  rcases eq_or_ne middle [] with rfl | hmiddle
  · exact Or.inr (Or.inl ⟨_, [], after, by simp [hright, hsplit], rfl, hends⟩)
  rcases eq_or_ne rest [] with rfl | hrest
  · exact Or.inl ⟨_, before, [], by simp [hsplit], rfl, rfl⟩
  · exact Or.inr (Or.inr ⟨middle, rest, before, after, hsplit, hmiddle, hrest, rfl, hright, hends⟩)

/-- A tag in joined fragments stands in a fragment, or it has come together between two of them. -/
lemma occursIn_flatten_cases {fragments : List Text} (h : tag.OccursIn fragments.flatten) :
    (∃ fragment ∈ fragments, tag.OccursIn fragment) ∨
    ∃ before after : List Text, fragments = before ++ after ∧ before ≠ [] ∧ after ≠ [] ∧
      tag.Forms before.flatten after.flatten := by
  induction fragments with
  | nil => exact absurd h not_occursIn_nil
  | cons first fragments ih =>
      rw [List.flatten_cons] at h
      rcases occursIn_append_cases h with hfirst | hrest | hforms
      · exact Or.inl ⟨first, List.mem_cons_self, hfirst⟩
      · rcases ih hrest with ⟨fragment, hmem, hocc⟩ | ⟨before, after, rfl, -, hafter, hforms⟩
        · exact Or.inl ⟨fragment, List.mem_cons_of_mem _ hmem, hocc⟩
        · exact Or.inr ⟨first :: before, after, rfl, List.cons_ne_nil _ _, hafter,
            hforms.append_left first⟩
      · refine Or.inr ⟨[first], fragments, rfl, List.cons_ne_nil _ _, ?_, by simpa using hforms⟩
        rintro rfl
        obtain ⟨front, back, before, after, -, -, hback, -, hright, -⟩ := hforms
        exact hback (List.append_eq_nil_iff.mp hright.symm).1

/-- A tag behind one removal was there before, or it has come together at a seam.  The removed tag
itself was there only in the places that have gone. -/
lemma occursIn_remove_cases (h : other.OccursIn (tag.remove t)) :
    (other.OccursIn t ∧ other ≠ tag) ∨
    ∃ left right, Seam tag t left right ∧ other.Forms left right := by
  obtain ⟨fragments, hcut, hflat⟩ := exists_cut tag t
  rw [hflat] at h
  rcases occursIn_flatten_cases h with ⟨fragment, hmem, hocc⟩ |
    ⟨before, after, rfl, hbefore, hafter, hforms⟩
  · refine Or.inl ⟨occursIn_of_cut hcut hmem hocc, ?_⟩
    rintro rfl
    exact not_occursIn_of_cut hcut hmem hocc
  · exact Or.inr ⟨_, _, ⟨before, after, hcut, hbefore, hafter, rfl, rfl⟩, hforms⟩

lemma stripSeam_cons_of_seam (h : Seam tag t left right) :
    StripSeam (tag :: candidates) t candidates left right :=
  ⟨[], tag, rfl, h⟩

lemma StripSeam.cons {later : List Tag} (h : StripSeam candidates (tag.remove t) later left right) :
    StripSeam (tag :: candidates) t later left right := by
  obtain ⟨earlier, next, rfl, hseam⟩ := h
  exact ⟨tag :: earlier, next, rfl, hseam⟩

/-- What holds of all removals together: a tag that is left was there before and is no candidate, or
it has come together when its own removal was over. -/
lemma occursIn_foldl_remove_cases
    (h : other.OccursIn (candidates.foldl (fun t tag => tag.remove t) t)) :
    (other.OccursIn t ∧ other ∉ candidates) ∨
    ∃ later left right, StripSeam candidates t later left right ∧ other ∉ later ∧
      other.Forms left right := by
  induction candidates generalizing t with
  | nil => exact Or.inl ⟨h, List.not_mem_nil⟩
  | cons tag candidates ih =>
      rcases ih h with ⟨hocc, hmem⟩ | ⟨later, left, right, hseam, hlater, hforms⟩
      · rcases occursIn_remove_cases hocc with ⟨hbefore, hne⟩ | ⟨left, right, hseam, hforms⟩
        · exact Or.inl ⟨hbefore, List.not_mem_cons_of_ne_of_not_mem hne hmem⟩
        · exact Or.inr ⟨candidates, left, right, stripSeam_cons_of_seam hseam, hmem, hforms⟩
      · exact Or.inr ⟨later, left, right, hseam.cons, hlater, hforms⟩

/-! ### Tags in a stripped line -/

lemma endsBefore_of_isBlank (h : ∀ c ∈ t, isBlank c = true) : endsBefore t = true := by
  cases t with
  | nil => rfl
  | cons c t =>
      have hblank := h c List.mem_cons_self
      have hdigit : c.isDigit = false := by
        by_contra hdigit
        rw [not_isBlank_of_isDigit (by simpa using hdigit)] at hblank
        exact Bool.false_ne_true hblank
      have hpoint : c ≠ '.' := by
        rintro rfl
        exact absurd hblank (by decide)
      simp [endsBefore, hdigit, hpoint]

lemma not_occursIn_of_isBlank (h : ∀ c ∈ t, isBlank c = true) : ¬ tag.OccursIn t := by
  rintro ⟨i, before, after, rfl, -, -⟩
  have hblank := h 'G' (by cases tag <;> simp [code])
  exact absurd hblank (by decide)

lemma not_isBlank_of_mem_code {c : Char} (h : c ∈ tag.code) : isBlank c = false := by
  have hcases : c = 'G' ∨ c.isDigit = true := by
    cases tag <;> simp only [code, List.mem_cons, List.not_mem_nil, or_false] at h <;>
      rcases h with rfl | rfl | rfl <;> decide
  rcases hcases with rfl | hdigit
  · decide
  · exact not_isBlank_of_isDigit hdigit

/-- Both sides of a code that comes together end or start with a part of it. -/
lemma Forms.exists_not_isBlank (h : tag.Forms left right) :
    (∃ c ∈ left, isBlank c = false) ∧ ∃ c ∈ right, isBlank c = false := by
  obtain ⟨front, back, before, after, hcode, hfront, hback, rfl, rfl, -⟩ := h
  have hvisible : ∀ c ∈ tag.code, isBlank c = false := fun c hc => not_isBlank_of_mem_code hc
  obtain ⟨c, front, rfl⟩ := List.exists_cons_of_ne_nil hfront
  obtain ⟨d, back, rfl⟩ := List.exists_cons_of_ne_nil hback
  rw [hcode] at hvisible
  exact ⟨⟨c, by simp, hvisible c (by simp)⟩, ⟨d, by simp, hvisible d (by simp)⟩⟩

/-- Trimming neither takes a tag away nor brings one about: what it takes away ends a code as well as
the end of the text does. -/
lemma occursIn_trim_iff : tag.OccursIn t.trim ↔ tag.OccursIn t := by
  obtain ⟨before, after, ht, hbefore, hafter⟩ := Text.exists_eq_trim t
  constructor
  · intro h
    rw [ht, List.append_assoc]
    exact (h.append_right (endsBefore_of_isBlank hafter)).append_left before
  · intro h
    rw [ht] at h
    rcases occursIn_append_cases h with h | h | hforms
    · rcases occursIn_append_cases h with h | h | hforms
      · exact absurd h (not_occursIn_of_isBlank hbefore)
      · exact h
      · obtain ⟨⟨c, hc, hvisible⟩, -⟩ := hforms.exists_not_isBlank
        exact absurd (hbefore c hc) (by simp [hvisible])
    · exact absurd h (not_occursIn_of_isBlank hafter)
    · obtain ⟨-, c, hc, hvisible⟩ := hforms.exists_not_isBlank
      exact absurd (hafter c hc) (by simp [hvisible])

/-- A candidate in a stripped line has come together at a seam, during its own removal or later. -/
theorem forms_of_occursIn_strip (hmem : tag ∈ candidates)
    (h : tag.OccursIn (strip candidates line)) :
    ∃ later left right, StripSeam candidates line later left right ∧ tag ∉ later ∧
      tag.Forms left right := by
  rcases occursIn_foldl_remove_cases (occursIn_trim_iff.mp h) with ⟨-, hnot⟩ | hforms
  · exact absurd hmem hnot
  · exact hforms

end DrillCycles.Tag
