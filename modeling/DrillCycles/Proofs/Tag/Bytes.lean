import DrillCycles.Proofs.Tag.Removal
import DrillCycles.Proofs.Text.Bytes
import Mathlib.Data.List.MinMax

/-!
# Tags by their positions in the bytes

The search for a tag and the removal of tags, done with byte positions: the positions of a code are
listed, those behind which a number goes on are struck out, and the text is cut at what is left.  A cut
may fail, so the removal is partial here.

* **`findByBytes?`** takes the candidate with the least position; `findByBytes?_eq` says that this is
  `Tag.find?`.
* **`removeByBytes?`** and **`stripByBytes?`** cut; `stripByBytes?_eq` says that every cut is at the
  end of a character, in the right order, and that `Tag.strip` is what comes out.

Both rest on `occurrences_eq`: no code overlaps itself, so the list of positions is the one that testing
every character gives.
-/

namespace DrillCycles.Tag

variable {tag : Tag} {candidates : List Tag} {c : Char} {t front : Text} {offset : ℕ}

/-- Whether a code that ends at this position ends there. -/
def isTerminatedAt (line : Text) (stop : ℕ) : Bool :=
  match line.bytes[stop]? with
  | some b => !(Text.isDigitByte b || b == '.'.toUInt8)
  | none => true

/-- The positions of a tag in a line. -/
def occurrences (tag : Tag) (line : Text) : List ℕ :=
  (Text.offsets tag.code line).filter fun i => isTerminatedAt line (i + tag.code.size)

/-- The candidate with the least first position, the earlier one in the list if two have the same. -/
def findByBytes? (candidates : List Tag) (line : Text) : Option Tag :=
  ((candidates.filterMap fun tag => (tag.occurrences line).head?.map (·, tag)).argmin
    Prod.fst).map Prod.snd

/-- Keeps the text from the end of the last occurrence to this one, and finds the end of this one.  The
pair is the text kept so far and the end of the last occurrence. -/
def keepUpTo? (tag : Tag) (line : Text) (progress : Text × ℕ) (i : ℕ) : Option (Text × ℕ) := do
  let piece ← line.slice? progress.2 i
  let behind ← line.onwards? (i + tag.code.size)
  let stop := i + tag.code.size
  return (progress.1 ++ piece, if behind.head? = some ' ' then stop + 1 else stop)

/-- Keeps the text from the end of the last occurrence. -/
def keepRest? (line : Text) (progress : Text × ℕ) : Option Text := do
  let last ← line.onwards? progress.2
  return progress.1 ++ last

/-- A line without the occurrences of a tag. -/
def removeByBytes? (tag : Tag) (line : Text) : Option Text :=
  match tag.occurrences line with
  | [] => some line
  | positions => do
    let progress ← positions.foldlM (tag.keepUpTo? line) ([], 0)
    keepRest? line progress

/-- A line without the occurrences of the candidates, and without the blanks at its two ends. -/
def stripByBytes? (candidates : List Tag) (line : Text) : Option Text := do
  let bare ← candidates.foldlM (fun current tag => tag.removeByBytes? current) line
  return bare.trim

/-! ### Positions -/

/-- The positions of a tag by a test at every character, counted from `offset`. -/
def places (tag : Tag) (offset : ℕ) : Text → List ℕ
  | [] => []
  | c :: t =>
    if tag.heads (c :: t) then offset :: places tag (offset + c.utf8Size) t
    else places tag (offset + c.utf8Size) t

lemma places_cons_of_not_heads (h : ¬ tag.heads (c :: t) = true) :
    tag.places offset (c :: t) = tag.places (offset + c.utf8Size) t := by
  rw [places, if_neg h]

lemma places_code_append (h : endsBefore t = true) :
    tag.places offset (tag.code ++ t) = offset :: tag.places (offset + tag.code.size) t := by
  obtain ⟨a, b, hcode, ha, hb⟩ := exists_code_eq tag
  have hheads : tag.heads ('G' :: a :: b :: t) = true :=
    heads_iff.mpr ⟨t, by rw [hcode]; rfl, h⟩
  rw [hcode, List.cons_append, List.cons_append, List.cons_append, List.nil_append, places,
    if_pos hheads, places_cons_of_not_heads (not_heads_of_ne ha),
    places_cons_of_not_heads (not_heads_of_ne hb)]
  simp [Nat.add_assoc]

/-- The byte behind a code tells whether the code ends there. -/
lemma isTerminatedAt_size (front t : Text) :
    isTerminatedAt (front ++ t) front.size = endsBefore t := by
  rw [isTerminatedAt, Text.getElem?_bytes_append]
  cases t with
  | nil => rfl
  | cons c t =>
      obtain ⟨first, others, hencoded, hdigit, -⟩ := Text.exists_firstByte_digit c
      have hpoint : first = '.'.toUInt8 ↔ c = '.' := by
        have := Text.head?_bytes_eq_some_iff (t := c :: t) (a := '.') (by decide)
        simpa [Text.bytes_cons, hencoded] using this
      rw [Text.bytes_cons, hencoded, List.cons_append, List.head?_cons, endsBefore]
      simp only [hdigit, beq_eq_decide, hpoint]

/-- A match of the code takes up two characters that no code starts with, so nothing is passed over. -/
lemma filter_offsetsFrom (tag : Tag) (front t : Text) (skip : ℕ)
    (hskip : ∀ c ∈ t.take skip, c ≠ 'G') :
    (Text.offsetsFrom tag.code front.size skip t).filter
      (fun i => isTerminatedAt (front ++ t) (i + tag.code.size)) = tag.places front.size t := by
  induction t generalizing front skip with
  | nil => rfl
  | cons c t ih =>
      have hsize : (front ++ [c]).size = front.size + c.utf8Size := by simp
      -- The positions are those in the whole line, so the first character moves to the front.
      have htail : ∀ n, (∀ d ∈ t.take n, d ≠ 'G') →
          (Text.offsetsFrom tag.code (front.size + c.utf8Size) n t).filter
            (fun i => isTerminatedAt (front ++ c :: t) (i + tag.code.size)) =
          tag.places (front.size + c.utf8Size) t := by
        intro n hn
        have := ih (front ++ [c]) n hn
        rwa [hsize, List.append_assoc, List.singleton_append] at this
      cases skip with
      | succ n =>
          have hc : c ≠ 'G' := hskip c (by simp)
          rw [Text.offsetsFrom, htail n fun d hd => hskip d (by simp [hd]),
            places_cons_of_not_heads (not_heads_of_ne hc)]
      | zero =>
          rw [Text.offsetsFrom]
          split
          · next hprefix =>
              obtain ⟨after, hafter⟩ := List.isPrefixOf_iff_prefix.mp hprefix
              have hstop : isTerminatedAt (front ++ c :: t) (front.size + tag.code.size) =
                  endsBefore after := by
                rw [← hafter, ← List.append_assoc, ← Text.size_append, isTerminatedAt_size]
              have hheads : tag.heads (c :: t) = endsBefore after := by
                rw [heads, hprefix, ← hafter, List.drop_left, Bool.true_and]
              have hskipped : ∀ d ∈ t.take (tag.code.length - 1), d ≠ 'G' := by
                obtain ⟨a, b, hcode, ha, hb⟩ := exists_code_eq tag
                rw [hcode] at hafter ⊢
                obtain ⟨-, rfl⟩ := List.cons.inj hafter
                simp [ha, hb]
              rw [List.filter_cons, hstop, htail _ hskipped, places, hheads]
          · next hprefix =>
              rw [htail 0 (by simp), places_cons_of_not_heads (by simp [heads, hprefix])]

/-- The positions of a tag are those at which a test finds it. -/
lemma occurrences_eq (tag : Tag) (line : Text) : tag.occurrences line = tag.places 0 line := by
  simpa [occurrences, Text.offsets] using filter_offsetsFrom tag [] line 0 (by simp)

/-! ### The search -/

/-- All positions are behind the start. -/
lemma le_of_mem_places {i : ℕ} (h : i ∈ tag.places offset t) : offset ≤ i := by
  induction t generalizing offset with
  | nil => cases h
  | cons c t ih =>
      rw [places] at h
      split at h
      · rcases List.mem_cons.mp h with rfl | h
        · exact Nat.le_refl _
        · exact Nat.le_trans (Nat.le_add_right _ _) (ih h)
      · exact Nat.le_trans (Nat.le_add_right _ _) (ih h)

/-- The candidates that stand in a text, each with its first position. -/
def firstPlaces (candidates : List Tag) (offset : ℕ) (t : Text) : List (ℕ × Tag) :=
  candidates.filterMap fun tag => (tag.places offset t).head?.map (·, tag)

lemma mem_firstPlaces_iff {i : ℕ} : (i, tag) ∈ firstPlaces candidates offset t ↔
    tag ∈ candidates ∧ (tag.places offset t).head? = some i := by
  simp only [firstPlaces, List.mem_filterMap, Option.map_eq_some_iff, Prod.mk.injEq]
  constructor
  · rintro ⟨other, hmem, j, hj, rfl, rfl⟩
    exact ⟨hmem, hj⟩
  · rintro ⟨hmem, hi⟩
    exact ⟨tag, hmem, i, hi, rfl, rfl⟩

/-- A candidate that heads the text has the least position, and no other one has the same. -/
lemma argmin_firstPlaces_of_heads (hmem : tag ∈ candidates) (hheads : tag.heads (c :: t) = true) :
    (firstPlaces candidates offset (c :: t)).argmin Prod.fst = some (offset, tag) := by
  have hfirst : (offset, tag) ∈ firstPlaces candidates offset (c :: t) :=
    mem_firstPlaces_iff.mpr ⟨hmem, by rw [places, if_pos hheads]; rfl⟩
  cases hmin : (firstPlaces candidates offset (c :: t)).argmin Prod.fst with
  | none => simp [List.argmin_eq_none.mp hmin] at hfirst
  | some least =>
      obtain ⟨i, other⟩ := least
      obtain ⟨-, hi⟩ := mem_firstPlaces_iff.mp (List.argmin_mem hmin)
      have hle : i ≤ offset := List.le_of_mem_argmin hfirst hmin
      -- A candidate that does not head the text stands behind its first character.
      have hother : other.heads (c :: t) = true := by
        by_contra hnot
        rw [places_cons_of_not_heads hnot] at hi
        have := le_of_mem_places (List.mem_of_mem_head? hi)
        have := c.utf8Size_pos
        omega
      rw [places, if_pos hother, List.head?_cons, Option.some.injEq] at hi
      rw [hi, eq_of_heads hother hheads]

lemma map_argmin_firstPlaces (candidates : List Tag) (offset : ℕ) (t : Text) :
    ((firstPlaces candidates offset t).argmin Prod.fst).map Prod.snd = find? candidates t := by
  induction t generalizing offset with
  | nil => simp [firstPlaces, places, find?]
  | cons c t ih =>
      by_cases hheads : ∃ first ∈ candidates, first.heads (c :: t) = true
      · obtain ⟨first, hmem, hfirst⟩ := hheads
        rw [argmin_firstPlaces_of_heads hmem hfirst, find?_cons_of_heads hmem hfirst]
        rfl
      · have hnone : ∀ tag ∈ candidates, ¬ tag.heads (c :: t) = true := by simpa using hheads
        have hplaces : firstPlaces candidates offset (c :: t) =
            firstPlaces candidates (offset + c.utf8Size) t :=
          List.filterMap_congr fun tag hmem => by rw [places_cons_of_not_heads (hnone tag hmem)]
        rw [hplaces, ih, find?_cons_of_not_heads hnone]

/-- The candidate with the least position is the one that stands first. -/
theorem findByBytes?_eq (candidates : List Tag) (line : Text) :
    findByBytes? candidates line = find? candidates line := by
  rw [← map_argmin_firstPlaces candidates 0 line, findByBytes?, firstPlaces]
  simp only [occurrences_eq]

/-! ### The removal -/

/-- The space that goes with an occurrence, if there is one. -/
lemma exists_gap (t : Text) : ∃ gap : Text, t = gap ++ withoutSpace t ∧
    (∀ tag : Tag, ∀ offset, tag.places offset t = tag.places (offset + gap.size) (withoutSpace t)) ∧
    ∀ n : ℕ, (if t.head? = some ' ' then n + 1 else n) = n + gap.size := by
  by_cases hspace : t.head? = some ' '
  · obtain ⟨rest, rfl⟩ := List.head?_eq_some_iff.mp hspace
    refine ⟨[' '], rfl, fun tag offset => ?_, fun n => rfl⟩
    exact places_cons_of_not_heads (not_heads_of_ne (by decide))
  · have hrest : withoutSpace t = t := by
      unfold withoutSpace
      split
      · simp at hspace
      · rfl
    exact ⟨[], by rw [hrest]; rfl, fun tag offset => by rw [hrest]; rfl, fun n => if_neg hspace⟩

/-- One occurrence is cut out: the text before it is kept, and the next piece starts behind its space. -/
lemma keepUpTo?_append (tag : Tag) (front pending kept after : Text) :
    ∃ gap : Text, after = gap ++ withoutSpace after ∧
      tag.keepUpTo? (front ++ pending ++ (tag.code ++ after)) (kept, front.size)
        (front.size + pending.size) =
        some (kept ++ pending, (front ++ pending ++ tag.code ++ gap).size) ∧
      ∀ offset, tag.places offset after = tag.places (offset + gap.size) (withoutSpace after) := by
  obtain ⟨gap, hafter, hplaces, hstop⟩ := exists_gap after
  refine ⟨gap, hafter, ?_, hplaces tag⟩
  have hpiece := Text.slice?_append front pending (tag.code ++ after)
  have hbehind : (front ++ pending ++ (tag.code ++ after)).onwards?
      (front.size + pending.size + tag.code.size) = some after := by
    have := Text.onwards?_append (front ++ pending ++ tag.code) after
    rwa [List.append_assoc, Text.size_append, Text.size_append] at this
  simp only [keepUpTo?, hpiece, hbehind, hstop, Option.bind_eq_bind, Option.bind_some,
    Text.size_append, pure]

/-- **The removal in the middle of a line.**  `front` is done with, `pending` has been passed over since
the last occurrence, and `t` is still ahead. -/
lemma foldlM_keepUpTo? (tag : Tag) (front pending kept t : Text) :
    ((tag.places (front.size + pending.size) t).foldlM (tag.keepUpTo? (front ++ pending ++ t))
      (kept, front.size)).bind (keepRest? (front ++ pending ++ t)) =
      some (kept ++ pending ++ tag.remove t) := by
  induction hn : t.length using Nat.strong_induction_on generalizing front pending kept t with
  | _ n ih =>
      cases t with
      | nil =>
          have hlast : (front ++ pending).onwards? front.size = some pending :=
            Text.onwards?_append front pending
          simp [places, keepRest?, hlast]
      | cons c t =>
          by_cases hheads : tag.heads (c :: t) = true
          · obtain ⟨after, heq, hends⟩ := heads_iff.mp hheads
            obtain ⟨gap, hafter, hstep, hplaces⟩ := keepUpTo?_append tag front pending kept after
            have hshort : (withoutSpace after).length < n := by
              have hle := (withoutSpace_suffix after).length_le
              rw [← hn, heq, List.length_append, length_code]
              omega
            -- The line is done with up to the space, and nothing is pending behind it.
            have hrest := ih _ hshort (front ++ pending ++ tag.code ++ gap) [] (kept ++ pending)
              (withoutSpace after) rfl
            have hline : front ++ pending ++ tag.code ++ gap ++ [] ++ withoutSpace after =
                front ++ pending ++ (tag.code ++ after) := by
              conv_rhs => rw [hafter]
              simp
            rw [hline, Text.size_nil, Nat.add_zero, List.append_nil] at hrest
            rw [heq, places_code_append hends, hplaces, List.foldlM_cons, hstep, Option.bind_eq_bind,
              Option.bind_some, remove_code_append hends]
            simpa [Nat.add_assoc] using hrest
          · have hrest := ih t.length (by rw [← hn]; simp) front (pending ++ [c]) kept t rfl
            rw [places_cons_of_not_heads hheads, remove_cons_of_not_heads hheads]
            simpa [Nat.add_assoc] using hrest

/-- Every cut can be made, and what is left is the line without the tag. -/
theorem removeByBytes?_eq (tag : Tag) (line : Text) :
    tag.removeByBytes? line = some (tag.remove line) := by
  have hfold := foldlM_keepUpTo? tag [] [] [] line
  rw [removeByBytes?, occurrences_eq]
  cases hplaces : tag.places 0 line with
  | nil =>
      simp only [Text.size_nil, Nat.add_zero, hplaces] at hfold
      have hlast : line.onwards? 0 = some line := Text.onwards?_append [] line
      simpa [keepRest?, hlast] using hfold
  | cons i positions =>
      simp only [Text.size_nil, Nat.add_zero, hplaces] at hfold
      exact hfold

theorem stripByBytes?_eq (candidates : List Tag) (line : Text) :
    stripByBytes? candidates line = some (strip candidates line) := by
  have hfold : ∀ current : Text,
      candidates.foldlM (fun current tag => tag.removeByBytes? current) current =
        some (candidates.foldl (fun current tag => tag.remove current) current) := by
    intro current
    simp only [removeByBytes?_eq]
    exact List.foldlM_pure
  rw [stripByBytes?, hfold]
  rfl

/-- Two occurrences behind a letter of two bytes, the second one without a space. -/
example : removeByBytes? .drill "é G81 X1G81Y2".toList = some "é X1Y2".toList := by
  decide +kernel

end DrillCycles.Tag
