import DrillCycles.Proofs.Tag.Bytes
import DrillCycles.Proofs.Tag.Count
import DrillCycles.Proofs.Text.Layout
import Mathlib.Data.Set.Card

/-!
# One notion of a tag

Counting, searching and stripping walk through a text in three ways.  `StandsAt` says without a walk
what all of them go by: the characters of a code at a position in the bytes, and a byte behind them that
does not go on with a number.

**Positions.**  `mem_occurrences_iff` says that the list of positions has all of these and nothing else,
although a match takes up its characters; it is in ascending order, so that its length counts.
`isFirst_iff_standsAt` reads the leftmost candidate by positions in the bytes.

**Blanks at the ends.**  A text with blanks around it has the same tags, and what is left of it without
them is the same up to blanks (`IsPadded.remove`).

**Main result.**  `readings_agree` is about all three.  A tag is made of characters that are no blanks,
so a line that is stripped of one shows less than before (`visible_strip_lt`).
-/

namespace DrillCycles.Tag

variable {tag : Tag} {candidates : List Tag} {c : Char} {t u before after : Text} {i n offset : ℕ}

/-- The characters of the code stand at this position in the bytes, and the byte behind them is no digit
and no point. -/
def StandsAt (tag : Tag) (t : Text) (i : ℕ) : Prop :=
  t.slice? i (i + tag.code.size) = some tag.code ∧ isTerminatedAt t (i + tag.code.size) = true

/-- The number of positions of all candidates. -/
def countByBytes (candidates : List Tag) (t : Text) : ℕ :=
  (candidates.map fun tag => (tag.occurrences t).length).sum

/-! ### Positions in the bytes -/

/-- A position in the bytes is the size of what stands in front of it. -/
lemma standsAt_iff : tag.StandsAt t i ↔ ∃ n, tag.OccursAt t n ∧ Text.size (t.take n) = i := by
  constructor
  · rintro ⟨hslice, hends⟩
    obtain ⟨before, after, rfl, rfl, -⟩ := Text.slice?_eq_some_iff.mp hslice
    rw [← Text.size_append, isTerminatedAt_size] at hends
    exact ⟨_, ⟨before, after, rfl, rfl, hends⟩, by rw [List.append_assoc, List.take_left]⟩
  · rintro ⟨n, ⟨before, after, rfl, rfl, hends⟩, hsize⟩
    rw [List.append_assoc, List.take_left] at hsize
    subst hsize
    refine ⟨Text.slice?_append before tag.code after, ?_⟩
    rw [← Text.size_append, isTerminatedAt_size, hends]

lemma mem_places_iff : i ∈ tag.places offset t ↔
    ∃ n, tag.OccursAt t n ∧ offset + Text.size (t.take n) = i := by
  induction t generalizing offset with
  | nil =>
      refine iff_of_false List.not_mem_nil ?_
      rintro ⟨n, hocc, -⟩
      exact not_occursIn_nil ⟨n, hocc⟩
  | cons c t ih =>
      have htail : i ∈ tag.places (offset + c.utf8Size) t ↔
          ∃ n, tag.OccursAt (c :: t) (n + 1) ∧ offset + Text.size ((c :: t).take (n + 1)) = i := by
        simp only [ih, occursAt_cons_succ, List.take_succ_cons, Text.size_cons, Nat.add_assoc]
      rw [places]
      by_cases hheads : tag.heads (c :: t) = true
      · rw [if_pos hheads, List.mem_cons, htail]
        constructor
        · rintro (rfl | ⟨n, hocc, hsize⟩)
          · exact ⟨0, occursAt_zero.mpr hheads, rfl⟩
          · exact ⟨n + 1, hocc, hsize⟩
        · rintro ⟨n, hocc, hsize⟩
          cases n with
          | zero => exact Or.inl hsize.symm
          | succ n => exact Or.inr ⟨n, hocc, hsize⟩
      · rw [if_neg hheads, htail]
        constructor
        · rintro ⟨n, hocc, hsize⟩
          exact ⟨n + 1, hocc, hsize⟩
        · rintro ⟨n, hocc, hsize⟩
          cases n with
          | zero => exact absurd (occursAt_zero.mp hocc) hheads
          | succ n => exact ⟨n, hocc, hsize⟩

/-- The search without overlaps lists every position of a tag. -/
lemma mem_occurrences_iff : i ∈ tag.occurrences t ↔ tag.StandsAt t i := by
  rw [occurrences_eq, mem_places_iff, standsAt_iff]
  simp only [Nat.zero_add]

lemma pairwise_places (tag : Tag) (offset : ℕ) (t : Text) :
    (tag.places offset t).Pairwise (· < ·) := by
  induction t generalizing offset with
  | nil => exact List.Pairwise.nil
  | cons c t ih =>
      rw [places]
      split
      · refine List.Pairwise.cons (fun j hj => ?_) (ih _)
        have := le_of_mem_places hj
        have := c.utf8Size_pos
        omega
      · exact ih _

lemma nodup_occurrences (tag : Tag) (t : Text) : (tag.occurrences t).Nodup := by
  rw [occurrences_eq]
  exact (pairwise_places tag 0 t).imp Nat.ne_of_lt

lemma length_places (tag : Tag) (offset : ℕ) (t : Text) :
    (tag.places offset t).length = tag.countFrom 0 t := by
  induction t generalizing offset with
  | nil => rfl
  | cons c t ih =>
      rw [places, countFrom, countFrom_eq]
      split
      · rw [List.length_cons, ih, Nat.add_comm]
      · rw [ih, Nat.zero_add]

lemma countByBytes_eq (candidates : List Tag) (t : Text) :
    countByBytes candidates t = count candidates t := by
  simp only [countByBytes, count_eq_sum, occurrences_eq, length_places]

/-- The positions of the candidates, each together with its tag. -/
def standings (candidates : List Tag) (t : Text) : List (Tag × ℕ) :=
  candidates.flatMap fun tag => (tag.occurrences t).map (tag, ·)

lemma mem_standings_iff {p : Tag × ℕ} :
    p ∈ standings candidates t ↔ p.1 ∈ candidates ∧ p.1.StandsAt t p.2 := by
  rw [standings, List.mem_flatMap]
  constructor
  · rintro ⟨tag, hmem, hp⟩
    obtain ⟨i, hi, rfl⟩ := List.mem_map.mp hp
    exact ⟨hmem, mem_occurrences_iff.mp hi⟩
  · rintro ⟨hmem, hstands⟩
    exact ⟨p.1, hmem, List.mem_map.mpr ⟨p.2, mem_occurrences_iff.mpr hstands, rfl⟩⟩

lemma nodup_standings (hdistinct : candidates.Nodup) : (standings candidates t).Nodup := by
  refine List.nodup_flatMap.mpr ⟨fun tag _ => ?_, hdistinct.imp fun hne => ?_⟩
  · exact (nodup_occurrences tag t).map fun i j h => (Prod.mk.inj h).2
  · intro p hp hp'
    obtain ⟨i, -, hi⟩ := List.mem_map.mp hp
    obtain ⟨j, -, hj⟩ := List.mem_map.mp hp'
    exact hne (Prod.mk.inj (hi.trans hj.symm)).1

/-- What is counted are the occurrences of all candidates. -/
lemma count_eq_ncard (hdistinct : candidates.Nodup) (t : Text) : count candidates t =
    {p : Tag × ℕ | p.1 ∈ candidates ∧ p.1.StandsAt t p.2}.ncard := by
  have hset : {p : Tag × ℕ | p.1 ∈ candidates ∧ p.1.StandsAt t p.2} =
      ((standings candidates t).toFinset : Set (Tag × ℕ)) := by
    ext p
    simp [mem_standings_iff]
  rw [hset, Set.ncard_coe_finset, List.toFinset_card_of_nodup (nodup_standings hdistinct),
    standings, List.length_flatMap, ← countByBytes_eq, countByBytes]
  simp only [List.length_map]

/-! ### The leftmost candidate -/

lemma size_take_le (h : n ≤ i) (t : Text) : Text.size (t.take n) ≤ Text.size (t.take i) := by
  obtain ⟨rest, hrest⟩ := List.take_prefix_take_left h (l := t)
  rw [← hrest, Text.size_append]
  exact Nat.le_add_right _ _

lemma size_take_lt (h : n < i) (hlength : i ≤ t.length) : Text.size (t.take n) < Text.size (t.take i) := by
  obtain ⟨rest, hrest⟩ := List.take_prefix_take_left h.le (l := t)
  have hne : rest ≠ [] := by
    rintro rfl
    have hlengths := congrArg List.length hrest
    simp only [List.append_nil, List.length_take] at hlengths
    omega
  have hpos : Text.size rest ≠ 0 := fun hzero => hne (Text.size_eq_zero_iff.mp hzero)
  rw [← hrest, Text.size_append]
  omega

lemma OccursAt.le_length (h : tag.OccursAt t n) : n ≤ t.length := by
  obtain ⟨before, after, rfl, rfl, -⟩ := h
  simp

/-- Positions in the bytes have the order of positions in the characters. -/
lemma isFirst_iff_standsAt : IsFirst candidates t tag ↔
    tag ∈ candidates ∧
      ∃ i, tag.StandsAt t i ∧ ∀ other ∈ candidates, ∀ j, other.StandsAt t j → i ≤ j := by
  refine and_congr_right fun _ => ?_
  constructor
  · rintro ⟨n, hocc, hleast⟩
    refine ⟨_, standsAt_iff.mpr ⟨n, hocc, rfl⟩, fun other hmem j hj => ?_⟩
    obtain ⟨m, hm, rfl⟩ := standsAt_iff.mp hj
    exact size_take_le (hleast other hmem m hm) t
  · rintro ⟨i, hi, hleast⟩
    obtain ⟨n, hocc, rfl⟩ := standsAt_iff.mp hi
    refine ⟨n, hocc, fun other hmem m hm => ?_⟩
    have hsize := hleast other hmem _ (standsAt_iff.mpr ⟨m, hm, rfl⟩)
    by_contra hlt
    have := size_take_lt (not_le.mp hlt) hocc.le_length
    omega

lemma find?_congr {others : List Tag} (h : ∀ tag, tag ∈ others ↔ tag ∈ candidates) (t : Text) :
    find? others t = find? candidates t := by
  refine Option.ext fun tag => ?_
  rw [find?_eq_some_iff, find?_eq_some_iff]
  simp only [IsFirst, h]

/-! ### Blanks at the ends -/

/-- The second text is the first one with blanks around it. -/
def IsPadded (t u : Text) : Prop :=
  ∃ before after : Text, u = before ++ t ++ after ∧
    (∀ c ∈ before, isBlank c = true) ∧ ∀ c ∈ after, isBlank c = true

lemma isPadded_trim (t : Text) : IsPadded t.trim t :=
  Text.exists_eq_trim t

lemma IsPadded.trim_eq (h : IsPadded t u) : u.trim = t.trim := by
  obtain ⟨before, after, rfl, hbefore, hafter⟩ := h
  exact Text.trim_append_of_isBlank hbefore hafter t

lemma heads_append_right (hafter : ∀ c ∈ after, isBlank c = true) (tag : Tag) (t : Text) :
    tag.heads (t ++ after) = tag.heads t := by
  cases after with
  | nil => rw [List.append_nil]
  | cons b after => exact heads_append_of_isBlank (hafter b List.mem_cons_self) tag t after

lemma find?_append_left (candidates : List Tag) (hbefore : ∀ c ∈ before, isBlank c = true)
    (t : Text) : find? candidates (before ++ t) = find? candidates t := by
  induction before with
  | nil => rfl
  | cons c before ih =>
      have hc : c ≠ 'G' := ne_code_of_isBlank (hbefore c List.mem_cons_self)
      rw [List.cons_append, find?_cons_of_not_heads fun tag _ => not_heads_of_ne hc,
        ih fun d hd => hbefore d (List.mem_cons_of_mem _ hd)]

lemma find?_append_right (hafter : ∀ c ∈ after, isBlank c = true) (t : Text) :
    find? candidates (t ++ after) = find? candidates t := by
  induction t with
  | nil => simpa using find?_append_left candidates hafter []
  | cons c t ih =>
      have hheads := heads_append_right hafter (t := c :: t)
      rw [List.cons_append] at hheads ⊢
      simp only [find?, hheads, ih]

lemma find?_trim (candidates : List Tag) (t : Text) :
    find? candidates t.trim = find? candidates t := by
  obtain ⟨before, after, ht, hbefore, hafter⟩ := Text.exists_eq_trim t
  conv_rhs => rw [ht]
  rw [find?_append_right hafter, find?_append_left candidates hbefore]

lemma remove_append_left (hbefore : ∀ c ∈ before, isBlank c = true) (t : Text) :
    tag.remove (before ++ t) = before ++ tag.remove t := by
  induction before with
  | nil => rfl
  | cons c before ih =>
      have hc : c ≠ 'G' := ne_code_of_isBlank (hbefore c List.mem_cons_self)
      rw [List.cons_append, remove_cons_of_not_heads (not_heads_of_ne hc),
        ih fun d hd => hbefore d (List.mem_cons_of_mem _ hd), List.cons_append]

lemma withoutSpace_append (h : t ≠ []) (after : Text) :
    withoutSpace (t ++ after) = withoutSpace t ++ after := by
  obtain ⟨c, t, rfl⟩ := List.exists_cons_of_ne_nil h
  by_cases hc : c = ' '
  · subst hc
    rfl
  · simp [withoutSpace, hc]

/-- A tag at the very end takes one of the blanks behind it along. -/
lemma remove_append_right (tag : Tag) (hafter : ∀ c ∈ after, isBlank c = true) (t : Text) :
    ∃ rest : Text, tag.remove (t ++ after) = tag.remove t ++ rest ∧ ∀ c ∈ rest, isBlank c = true := by
  have hblank : ∀ s : Text, s <:+ after → tag.remove s = s := by
    intro s hs
    exact remove_of_not_occursIn (not_occursIn_of_isBlank fun c hc => hafter c (hs.mem hc))
  induction hn : t.length using Nat.strong_induction_on generalizing t with
  | _ n ih =>
      cases t with
      | nil => exact ⟨after, by simpa using hblank after (List.suffix_refl _), hafter⟩
      | cons c t =>
          have hheads := heads_append_right hafter tag (c :: t)
          by_cases h : tag.heads (c :: t) = true
          · obtain ⟨behind, heq, hends⟩ := heads_iff.mp h
            have hends' : endsBefore (behind ++ after) = true := by
              rw [h, heq, List.append_assoc] at hheads
              obtain ⟨other, hother, hresult⟩ := heads_iff.mp hheads
              rwa [List.append_cancel_left hother]
            rw [heq, List.append_assoc, remove_code_append hends', remove_code_append hends]
            rcases eq_or_ne behind [] with rfl | hne
            · have hsuffix := withoutSpace_suffix after
              refine ⟨withoutSpace after, ?_, fun c hc => hafter c (hsuffix.mem hc)⟩
              rw [List.nil_append, hblank _ hsuffix]
              rfl
            · rw [withoutSpace_append hne]
              refine ih _ ?_ _ rfl
              have hle := (withoutSpace_suffix behind).length_le
              rw [← hn, heq, List.length_append, length_code]
              omega
          · obtain ⟨rest, hrest, hrestBlank⟩ := ih t.length (by rw [← hn]; simp) t rfl
            refine ⟨rest, ?_, hrestBlank⟩
            rw [List.cons_append] at hheads ⊢
            rw [remove_cons_of_not_heads (by rwa [hheads]), hrest, remove_cons_of_not_heads h,
              List.cons_append]

/-- Taking a tag out leaves blanks at the ends. -/
lemma IsPadded.remove (h : IsPadded t u) (tag : Tag) : IsPadded (tag.remove t) (tag.remove u) := by
  obtain ⟨before, after, rfl, hbefore, hafter⟩ := h
  obtain ⟨rest, hrest, hblank⟩ := remove_append_right tag hafter t
  refine ⟨before, rest, ?_, hbefore, hblank⟩
  rw [List.append_assoc, remove_append_left hbefore, hrest, List.append_assoc]

lemma IsPadded.strip_eq (h : IsPadded t u) : strip candidates u = strip candidates t := by
  induction candidates generalizing t u with
  | nil => exact h.trim_eq
  | cons tag candidates ih => exact ih (h.remove tag)

lemma strip_trim (candidates : List Tag) (t : Text) :
    strip candidates t.trim = strip candidates t :=
  (isPadded_trim t).strip_eq.symm

/-! ### What a stripped line shows -/

/-- The number of characters that are no blanks. -/
def visible (t : Text) : ℕ :=
  t.countP fun c => !isBlank c

lemma visible_append (s t : Text) : visible (s ++ t) = visible s + visible t :=
  List.countP_append

lemma visible_le_of_sublist {s t : Text} (h : s.Sublist t) : visible s ≤ visible t :=
  h.countP_le

lemma visible_trim (t : Text) : visible t.trim = visible t := by
  have hnone : ∀ s : Text, (∀ c ∈ s, isBlank c = true) → visible s = 0 := by
    intro s hs
    refine List.countP_eq_zero.mpr fun c hc => ?_
    simp [hs c hc]
  obtain ⟨before, after, ht, hbefore, hafter⟩ := Text.exists_eq_trim t
  conv_rhs => rw [ht]
  rw [visible_append, visible_append, hnone before hbefore, hnone after hafter, Nat.zero_add,
    Nat.add_zero]

lemma visible_code (tag : Tag) : visible tag.code = 3 := by
  cases tag <;> decide

lemma visible_remove_lt (h : tag.OccursIn t) : visible (tag.remove t) < visible t := by
  obtain ⟨first, after, rfl, -, -, hremove⟩ := exists_first_cut h
  have hrest : visible (tag.remove (withoutSpace after)) ≤ visible after :=
    visible_le_of_sublist ((remove_sublist _ _).trans (withoutSpace_suffix after).sublist)
  simp only [hremove, visible_append, visible_code]
  omega

lemma visible_strip_le (candidates : List Tag) (t : Text) : visible (strip candidates t) ≤ visible t :=
  visible_le_of_sublist (strip_sublist candidates t)

/-- With a candidate in it, a line loses characters that show. -/
lemma visible_strip_lt (h : AnyIn candidates t) : visible (strip candidates t) < visible t := by
  induction candidates generalizing t with
  | nil =>
      obtain ⟨tag, hmem, -⟩ := h
      exact absurd hmem List.not_mem_nil
  | cons tag candidates ih =>
      change visible (strip candidates (tag.remove t)) < visible t
      by_cases hocc : tag.OccursIn t
      · exact (visible_strip_le candidates _).trans_lt (visible_remove_lt hocc)
      · rw [remove_of_not_occursIn hocc]
        refine ih ?_
        obtain ⟨other, hmem, hother⟩ := h
        rcases List.mem_cons.mp hmem with rfl | hmem
        · exact absurd hother hocc
        · exact ⟨other, hmem, hother⟩

lemma strip_eq_trim_iff : strip candidates t = t.trim ↔ find? candidates t = none := by
  rw [find?_eq_none_iff]
  constructor
  · intro heq hany
    have hlt := visible_strip_lt hany
    rw [heq, visible_trim] at hlt
    exact Nat.lt_irrefl _ hlt
  · exact strip_of_not_anyIn

/-- **Counting, searching and stripping agree on what a tag is.**  For distinct candidates, in any text:
what is counted are the positions at which a candidate stands; the candidate that is found is the one
with the least position, whatever the order of the list, and none is found exactly when the count is
zero; and stripping does more than trimming exactly when one is found.  Trimming the text first changes
none of the three.  All three may be computed by positions in the bytes, and no cut fails. -/
theorem readings_agree (hdistinct : candidates.Nodup) (t : Text) :
    (countByBytes candidates t = count candidates t ∧
      findByBytes? candidates t = find? candidates t ∧
      stripByBytes? candidates t = some (strip candidates t)) ∧
    count candidates t = {p : Tag × ℕ | p.1 ∈ candidates ∧ p.1.StandsAt t p.2}.ncard ∧
    (∀ tag, find? candidates t = some tag ↔ tag ∈ candidates ∧
      ∃ i, tag.StandsAt t i ∧ ∀ other ∈ candidates, ∀ j, other.StandsAt t j → i ≤ j) ∧
    (∀ others : List Tag, others.Perm candidates → find? others t = find? candidates t) ∧
    (find? candidates t = none ↔ count candidates t = 0) ∧
    (strip candidates t = t.trim ↔ find? candidates t = none) ∧
    (count candidates t.trim = count candidates t ∧
      find? candidates t.trim = find? candidates t ∧
      strip candidates t.trim = strip candidates t) := by
  refine ⟨⟨countByBytes_eq candidates t, findByBytes?_eq candidates t, stripByBytes?_eq candidates t⟩,
    count_eq_ncard hdistinct t, fun tag => ?_, fun others hperm => find?_congr (fun _ => hperm.mem_iff) t,
    ?_, strip_eq_trim_iff, count_trim candidates t, find?_trim candidates t, strip_trim candidates t⟩
  · rw [find?_eq_some_iff, isFirst_iff_standsAt]
  · rw [find?_eq_none_iff, count_eq_zero_iff]

/-- Behind a letter of two bytes stands one of the hole tags twice, once at the end of the line; the
other two are codes of their own. -/
theorem readings_agree_holes :
    holes.Nodup ∧
    {p : Tag × ℕ | p.1 ∈ holes ∧ p.1.StandsAt " é G82 G81.1 G830 G82 ".toList p.2}.ncard = 2 ∧
    find? [.peckDrill, .drillDwell, .drill] " é G82 G81.1 G830 G82 ".toList = some .drillDwell ∧
    strip holes " é G82 G81.1 G830 G82 ".toList ≠ Text.trim " é G82 G81.1 G830 G82 ".toList := by
  have hdistinct : holes.Nodup := by decide
  have hfind : find? holes " é G82 G81.1 G830 G82 ".toList = some .drillDwell := by decide +kernel
  have hcount : count holes " é G82 G81.1 G830 G82 ".toList = 2 := by decide +kernel
  obtain ⟨-, hncard, -, hperm, -, hstrip, -⟩ :=
    readings_agree hdistinct " é G82 G81.1 G830 G82 ".toList
  refine ⟨hdistinct, hncard.symm.trans hcount, (hperm _ (by decide)).trans hfind, ?_⟩
  rw [ne_eq, hstrip, hfind]
  simp

end DrillCycles.Tag
