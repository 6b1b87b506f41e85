import DrillCycles.Proofs.Path.Name
import DrillCycles.Proofs.Text.Lines
import Mathlib.Data.List.DropRight

/-!
# The directory of a path

Where a path leads is decided by its `steps`, the segments that go anywhere, and by whether it starts
at the root.  `parent` and `join` work on the text of a path and have to get that right for every
spelling: with slashes at the end, with several in a row, with points between them.

**Leads and trails.**  A path is its lead with its segments behind; its `trail` are the segments up to
the last one that goes anywhere.  `lead_trail_of_front` is the invariant: a path cut behind one of its
segments keeps its lead, and the segments that are left are read as they were.

**Main results.**  `parent` takes the last step away (`steps_parent`), `join` adds one (`steps_join`),
and the directory of a name that was joined to the directory of a path is that directory again, letter
by letter (`parent_join_parent`).  For outputs this means that `expanded` changes the last step only
(`exists_steps_expanded`).
-/

namespace DrillCycles.Path

variable {path directory name : Text} {kept : List Text}

/-- The steps of a path are its segments without those that go nowhere. -/
def steps (path : Text) : List Text :=
  (Text.pieces '/' path).filter (!isIdle ·)

/-- The segments of a path behind its lead, up to the last one that goes anywhere. -/
def trail (path : Text) : List Text :=
  withoutIdleEnd (segments path)

/-! ### Segments that go nowhere -/

lemma withoutIdleEnd_eq_rdropWhile (segments : List Text) :
    withoutIdleEnd segments = segments.rdropWhile isIdle := rfl

lemma withoutIdleEnd_withoutIdleEnd (segments : List Text) :
    withoutIdleEnd (withoutIdleEnd segments) = withoutIdleEnd segments :=
  List.rdropWhile_idempotent isIdle segments

lemma withoutIdleEnd_concat (segments : List Text) (hname : isIdle name = false) :
    withoutIdleEnd (segments ++ [name]) = segments ++ [name] :=
  List.rdropWhile_concat_neg _ _ _ (by simp [hname])

lemma withoutIdleEnd_concat_nil (segments : List Text) :
    withoutIdleEnd (segments ++ [[]]) = withoutIdleEnd segments :=
  List.rdropWhile_concat_pos _ _ _ rfl

lemma filter_withoutIdleEnd (segments : List Text) :
    (withoutIdleEnd segments).filter (!isIdle ·) = segments.filter (!isIdle ·) := by
  have hend : (segments.rtakeWhile isIdle).filter (!isIdle ·) = [] := by
    refine List.filter_eq_nil_iff.mpr fun segment hmem => ?_
    simp [List.mem_rtakeWhile_imp hmem]
  calc (withoutIdleEnd segments).filter (!isIdle ·)
      = (segments.rdropWhile isIdle ++ segments.rtakeWhile isIdle).filter (!isIdle ·) := by
        rw [List.filter_append, hend, List.append_nil, withoutIdleEnd_eq_rdropWhile]
    _ = segments.filter (!isIdle ·) := by rw [List.rdropWhile_append_rtakeWhile]

/-- What goes nowhere at the end is left out of a trail. -/
lemma trail_eq_nil_or_concat (path : Text) :
    trail path = [] ∨ ∃ before last, trail path = before ++ [last] ∧ isIdle last = false := by
  by_cases h : trail path = []
  · exact Or.inl h
  · have hlast := List.rdropWhile_last_not isIdle (segments path) h
    exact Or.inr ⟨_, _, (List.dropLast_append_getLast h).symm, Bool.eq_false_iff.mpr hlast⟩

/-! ### Leads -/

lemma pieces_root (rest : Text) :
    Text.pieces '/' ('/' :: rest) = [] :: Text.pieces '/' rest :=
  Text.pieces_append_cons '/' [] rest

lemma pieces_here (rest : Text) :
    Text.pieces '/' ('.' :: '/' :: rest) = ['.'] :: Text.pieces '/' rest :=
  Text.pieces_append_cons '/' ['.'] rest

lemma filter_segments (path : Text) : (segments path).filter (!isIdle ·) = steps path := by
  rw [steps, segments]
  fun_cases lead path with
  | case1 rest =>
      rw [pieces_root]
      rfl
  | case2 => rfl
  | case3 rest =>
      change (Text.pieces '/' ('/' :: rest)).filter _ = _
      rw [pieces_here, pieces_root]
      rfl
  | case4 => rfl

lemma filter_trail (path : Text) : (trail path).filter (!isIdle ·) = steps path := by
  rw [trail, filter_withoutIdleEnd, filter_segments]

lemma exists_pieces_cons {c : Char} (hc : c ≠ '/') (t : Text) : ∃ first more,
    Text.pieces '/' t = first :: more ∧ Text.pieces '/' (c :: t) = (c :: first) :: more := by
  cases h : Text.pieces '/' t with
  | nil => exact absurd h (Text.pieces_ne_nil '/' t)
  | cons first more => exact ⟨first, more, rfl, by simp [h, Text.consPiece, hc]⟩

/-- The first segment of a path goes somewhere unless it is empty or a single point. -/
lemma exists_head?_pieces (hne : path ≠ []) (hroot : ∀ rest, path ≠ '/' :: rest)
    (hpoint : path ≠ ['.']) (hhere : ∀ rest, path ≠ '.' :: '/' :: rest) :
    ∃ first ∈ (Text.pieces '/' path).head?, isIdle first = false := by
  obtain ⟨c, t, rfl⟩ := List.exists_cons_of_ne_nil hne
  have hc : c ≠ '/' := fun hc => hroot t (hc ▸ rfl)
  obtain ⟨first, more, ht, hpieces⟩ := exists_pieces_cons hc t
  refine ⟨c :: first, by simp [hpieces], ?_⟩
  rw [isIdle, List.isEmpty_cons, Bool.false_or, decide_eq_false_iff_not]
  intro hidle
  obtain ⟨rfl, rfl⟩ := List.cons.inj hidle
  cases t with
  | nil => exact hpoint rfl
  | cons d t =>
      have hd : d ≠ '/' := fun hd => hhere t (hd ▸ rfl)
      obtain ⟨first', more', -, ht'⟩ := exists_pieces_cons hd t
      rw [ht'] at ht
      cases ht

/-- A path has no lead exactly if its first segment, if any, goes somewhere. -/
lemma lead_eq_nil_iff :
    lead path = [] ↔ path = [] ∨ ∃ first ∈ (Text.pieces '/' path).head?, isIdle first = false := by
  fun_cases lead path with
  | case1 rest =>
      rw [pieces_root]
      simp [isIdle]
  | case2 => simp [Text.consPiece, isIdle]
  | case3 rest =>
      rw [pieces_here]
      simp [isIdle]
  | case4 path hroot hpoint hhere =>
      refine iff_of_true rfl ?_
      by_cases hne : path = []
      · exact Or.inl hne
      · exact Or.inr (exists_head?_pieces hne hroot hpoint hhere)

/-! ### A path cut behind one of its segments -/

lemma trail_of_lead_eq_nil (h : lead path = []) :
    trail path = withoutIdleEnd (Text.pieces '/' path) := by
  rw [trail, segments, h]
  rfl

/-- Segments that are joined are found again, if the last of them goes somewhere. -/
lemma withoutIdleEnd_pieces_intercalate (hkept : withoutIdleEnd kept = kept)
    (hfree : ∀ segment ∈ kept, '/' ∉ segment) :
    withoutIdleEnd (Text.pieces '/' (List.intercalate ['/'] kept)) = kept := by
  cases kept with
  | nil => rfl
  | cons first more => rw [Text.pieces_intercalate (by simp) hfree, hkept]

lemma eq_nil_of_front_idle (hfront : kept <+: [[]]) (hkept : withoutIdleEnd kept = kept) :
    kept = [] := by
  cases kept with
  | nil => rfl
  | cons first more =>
      obtain ⟨rfl, hmore⟩ := List.cons_prefix_cons.mp hfront
      rw [List.prefix_nil.mp hmore] at hkept
      exact absurd hkept (by decide)

lemma lead_intercalate_of_front (hlead : lead path = []) (hfront : kept <+: Text.pieces '/' path)
    (hkept : withoutIdleEnd kept = kept) : lead (List.intercalate ['/'] kept) = [] := by
  obtain rfl | ⟨first, hfirst, hidle⟩ := lead_eq_nil_iff.mp hlead
  · rw [eq_nil_of_front_idle hfront hkept]
    rfl
  · cases kept with
    | nil => rfl
    | cons first' more =>
        refine lead_eq_nil_iff.mpr (Or.inr ⟨first', ?_, ?_⟩)
        · rw [Text.pieces_intercalate (by simp) fun segment hmem =>
            Text.not_mem_of_mem_pieces (hfront.subset hmem)]
          rfl
        · obtain ⟨behind, hpieces⟩ := hfront
          rw [← hpieces] at hfirst
          cases hfirst
          exact hidle

/-- A path that is cut behind a segment keeps its lead and the segments in front. -/
lemma lead_trail_of_front (hfront : kept <+: segments path) (hkept : withoutIdleEnd kept = kept) :
    lead (lead path ++ List.intercalate ['/'] kept) = lead path ∧
      trail (lead path ++ List.intercalate ['/'] kept) = kept := by
  have hagain := withoutIdleEnd_pieces_intercalate hkept fun segment hmem =>
    Text.not_mem_of_mem_pieces (hfront.subset hmem)
  by_cases hlead : lead path = []
  · rw [segments, hlead] at hfront
    have hcut := lead_intercalate_of_front hlead hfront hkept
    rw [hlead]
    exact ⟨hcut, (trail_of_lead_eq_nil hcut).trans hagain⟩
  rw [segments] at hfront
  revert hfront hlead
  fun_cases lead path with
  | case1 rest => exact fun _ _ => ⟨rfl, hagain⟩
  | case2 =>
      intro hfront _
      rw [eq_nil_of_front_idle hfront hkept]
      exact ⟨rfl, rfl⟩
  | case3 rest =>
      intro hfront _
      -- Behind the point that leads the path there is an empty segment in front of the slash.
      change kept <+: Text.pieces '/' ('/' :: rest) at hfront
      rw [pieces_root] at hfront
      cases kept with
      | nil => exact ⟨rfl, rfl⟩
      | cons first more =>
          obtain ⟨rfl, -⟩ := List.cons_prefix_cons.mp hfront
          cases more with
          | nil => exact absurd hkept (by decide)
          | cons second more =>
              rw [List.intercalate_cons_cons] at hagain ⊢
              exact ⟨rfl, hagain⟩
  | case4 => exact fun _ hlead => absurd rfl hlead

/-! ### Taking the last step away -/

lemma lead_trail_parent (path : Text) :
    lead (parent path) = lead path ∧ trail (parent path) = withoutIdleEnd (trail path).dropLast :=
  lead_trail_of_front
    ((List.rdropWhile_prefix _ _).trans ((List.dropLast_prefix _).trans (List.rdropWhile_prefix _ _)))
    (withoutIdleEnd_withoutIdleEnd _)

/-- The directory of a path is where its steps but the last one lead. -/
theorem steps_parent (path : Text) : steps (parent path) = (steps path).dropLast := by
  rw [← filter_trail, (lead_trail_parent path).2, filter_withoutIdleEnd, ← filter_trail]
  obtain h | ⟨before, last, h, hlast⟩ := trail_eq_nil_or_concat path
  · rw [h]
    rfl
  · simp [h, hlast]

/-! ### Adding a step -/

/-- A text can be the name of a file. -/
structure IsName (name : Text) : Prop where
  no_slash : '/' ∉ name
  not_idle : isIdle name = false
  not_up : name ≠ ['.', '.']

lemma fileName?_eq_some_iff :
    fileName? path = some name ↔ (trail path).getLast? = some name ∧ name ≠ ['.', '.'] := by
  rw [fileName?, Option.filter_eq_some_iff, bne_iff_ne]
  exact Iff.rfl

lemma isName_of_fileName? (h : fileName? path = some name) :
    IsName name ∧ ∃ before, trail path = before ++ [name] := by
  obtain ⟨hlast, hup⟩ := fileName?_eq_some_iff.mp h
  obtain hnil | ⟨before, last, htrail, hidle⟩ := trail_eq_nil_or_concat path
  · simp [hnil] at hlast
  · obtain rfl : last = name := by simpa [htrail] using hlast
    have hmem : last ∈ segments path := (List.rdropWhile_prefix isIdle _).subset
      (show last ∈ trail path by simp [htrail])
    exact ⟨⟨Text.not_mem_of_mem_pieces hmem, hidle, hup⟩, before, htrail⟩

lemma lead_of_isName (hname : IsName name) : lead name = [] :=
  lead_eq_nil_iff.mpr (Or.inr ⟨name, by simp [Text.pieces_of_not_mem hname.no_slash], hname.not_idle⟩)

/-- There is one slash between a directory and a name, unless the directory is empty. -/
lemma join_cases (directory name : Text) :
    (directory = [] ∧ join directory name = name) ∨
    (∃ front, directory = front ++ ['/'] ∧ join directory name = front ++ '/' :: name) ∨
    (directory ≠ [] ∧ join directory name = directory ++ '/' :: name) := by
  rw [join]
  by_cases hnil : directory = []
  · exact Or.inl ⟨hnil, by simp [hnil]⟩
  by_cases hslash : directory.getLast? = some '/'
  · refine Or.inr (Or.inl ⟨directory.dropLast, (List.dropLast_append_getLast? _ hslash).symm, ?_⟩)
    rw [if_pos (by simp [hslash])]
    conv_lhs => rw [← List.dropLast_append_getLast? _ hslash]
    simp
  · exact Or.inr (Or.inr ⟨hnil, by rw [if_neg (by simp [hnil, hslash])]⟩)

/-- A path has no lead either if it starts with the same segment. -/
lemma lead_eq_nil_of_head? (hlead : lead directory = []) (hne : directory ≠ [])
    (hhead : (Text.pieces '/' path).head? = (Text.pieces '/' directory).head?) : lead path = [] := by
  obtain h | ⟨first, hfirst, hidle⟩ := lead_eq_nil_iff.mp hlead
  · exact absurd h hne
  · exact lead_eq_nil_iff.mpr (Or.inr ⟨first, hhead ▸ hfirst, hidle⟩)

lemma head?_pieces_append_cons (before after : Text) :
    (Text.pieces '/' (before ++ '/' :: after)).head? = (Text.pieces '/' before).head? := by
  rw [Text.pieces_append_cons, List.head?_append_of_ne_nil _ (Text.pieces_ne_nil '/' before)]

lemma exists_join_eq_append (directory name : Text) :
    ∃ behind, join directory name = directory ++ behind := by
  rw [join]
  split
  · exact ⟨name, rfl⟩
  · exact ⟨'/' :: name, rfl⟩

/-- A directory keeps its lead when a name is joined to it. -/
lemma lead_join (hname : IsName name) (directory : Text) :
    lead (join directory name) = lead directory := by
  by_cases hlead : lead directory = []
  · rw [hlead]
    obtain ⟨-, hjoin⟩ | ⟨front, rfl, hjoin⟩ | ⟨hne, hjoin⟩ := join_cases directory name
    · rw [hjoin, lead_of_isName hname]
    · refine lead_eq_nil_of_head? hlead (by simp) ?_
      rw [hjoin, head?_pieces_append_cons, head?_pieces_append_cons]
    · refine lead_eq_nil_of_head? hlead hne ?_
      rw [hjoin, head?_pieces_append_cons]
  · obtain ⟨behind, hjoin⟩ := exists_join_eq_append directory name
    revert hlead hjoin
    fun_cases lead directory with
    | case1 rest =>
        rintro - hjoin
        rw [hjoin]
        rfl
    | case2 => exact fun _ _ => rfl
    | case3 rest =>
        rintro - hjoin
        rw [hjoin]
        rfl
    | case4 => exact fun hlead => absurd rfl hlead

lemma length_lead_le (path : Text) : (lead path).length ≤ 1 := by
  fun_cases lead path <;> simp

lemma pieces_drop_append_cons {front : Text} {n : Nat} (hn : n ≤ front.length) (after : Text) :
    Text.pieces '/' ((front ++ '/' :: after).drop n) =
      Text.pieces '/' (front.drop n) ++ Text.pieces '/' after := by
  rw [List.drop_append_of_le_length hn, Text.pieces_append_cons]

/-- A name that is joined to a directory stands at the end of its trail. -/
lemma trail_join (hname : IsName name) (directory : Text) : ∃ before,
    trail (join directory name) = before ++ [name] ∧ withoutIdleEnd before = trail directory := by
  have hpieces := Text.pieces_of_not_mem hname.no_slash
  have halone : withoutIdleEnd (Text.pieces '/' name) = [] ++ [name] := by
    rw [hpieces]
    exact withoutIdleEnd_concat [] hname.not_idle
  have hlead := length_lead_le directory
  simp only [trail, segments, lead_join hname]
  obtain ⟨rfl, hjoin⟩ | ⟨front, rfl, hjoin⟩ | ⟨hne, hjoin⟩ := join_cases directory name <;> rw [hjoin]
  · exact ⟨[], halone, rfl⟩
  · cases front with
    -- The root is the one directory whose slash belongs to its lead.
    | nil => exact ⟨[], halone, rfl⟩
    | cons c front =>
        generalize (lead (c :: front ++ ['/'])).length = n at hlead ⊢
        have hn : n ≤ (c :: front).length := hlead.trans (by simp)
        refine ⟨Text.pieces '/' ((c :: front).drop n), ?_, ?_⟩
        · rw [pieces_drop_append_cons hn, hpieces, withoutIdleEnd_concat _ hname.not_idle]
        · rw [pieces_drop_append_cons hn, Text.pieces_nil, withoutIdleEnd_concat_nil]
  · have hn : (lead directory).length ≤ directory.length :=
      hlead.trans (List.length_pos_iff.mpr hne)
    refine ⟨Text.pieces '/' (directory.drop (lead directory).length), ?_, rfl⟩
    rw [pieces_drop_append_cons hn, hpieces, withoutIdleEnd_concat _ hname.not_idle]

/-- A name that is joined to a directory is one step more. -/
theorem steps_join (hname : IsName name) (directory : Text) :
    steps (join directory name) = steps directory ++ [name] := by
  obtain ⟨before, htrail, hbefore⟩ := trail_join hname directory
  rw [← filter_trail, htrail, List.filter_append, ← filter_withoutIdleEnd before, hbefore, filter_trail]
  simp [hname.not_idle]

lemma fileName?_join (hname : IsName name) (directory : Text) :
    fileName? (join directory name) = some name := by
  obtain ⟨before, htrail, -⟩ := trail_join hname directory
  exact fileName?_eq_some_iff.mpr ⟨by simp [htrail], hname.not_up⟩

/-- The directory of a path is found again, letter by letter, when a name is joined to it. -/
theorem parent_join_parent (hname : IsName name) (path : Text) :
    parent (join (parent path) name) = parent path := by
  obtain ⟨before, htrail, hbefore⟩ := trail_join hname (parent path)
  obtain ⟨hlead, hparent⟩ := lead_trail_parent path
  calc parent (join (parent path) name)
      = lead (join (parent path) name) ++ List.intercalate ['/']
          (withoutIdleEnd (trail (join (parent path) name)).dropLast) := rfl
    _ = lead path ++ List.intercalate ['/'] (withoutIdleEnd before) := by
        rw [lead_join hname, hlead, htrail, List.dropLast_concat]
    _ = lead path ++ List.intercalate ['/'] (withoutIdleEnd (trail path).dropLast) := by
        rw [hbefore, hparent]
    _ = parent path := rfl

/-! ### The path of an output -/

/-- The mark of an output turns a name, also an empty one, into a name. -/
lemma isName_expandedName (h : '/' ∉ name) : IsName (expandedName name) := by
  have hlong : 9 ≤ (expandedName name).length := by simp [length_expandedName]
  refine ⟨fun hslash => ?_, ?_, ?_⟩
  · obtain hslash | hslash := mem_of_mem_expandedName hslash
    · exact h hslash
    · exact absurd hslash (by decide)
  · rw [isIdle, Bool.or_eq_false_iff, List.isEmpty_eq_false_iff, decide_eq_false_iff_not]
    constructor <;> intro heq <;> simp [heq] at hlong
  · intro heq
    simp [heq] at hlong

lemma isName_expandedName_of_fileName? (h : fileName? path = some name) : IsName (expandedName name) :=
  isName_expandedName (isName_of_fileName? h).1.no_slash

lemma expanded_eq_of_some (h : fileName? path = some name) :
    expanded path = join (parent path) (expandedName name) := by
  rw [expanded, h]

lemma expanded_eq_of_none (h : fileName? path = none) :
    expanded path = join path (expandedName []) := by
  rw [expanded, h]

theorem fileName?_expanded (h : fileName? path = some name) :
    fileName? (expanded path) = some (expandedName name) := by
  rw [expanded_eq_of_some h, fileName?_join (isName_expandedName_of_fileName? h)]

theorem parent_expanded (h : fileName? path = some name) : parent (expanded path) = parent path := by
  rw [expanded_eq_of_some h, parent_join_parent (isName_expandedName_of_fileName? h)]

/-- The output starts where the input does, at the root or not. -/
lemma lead_expanded (path : Text) : lead (expanded path) = lead path := by
  cases h : fileName? path with
  | none => rw [expanded_eq_of_none h, lead_join (isName_expandedName List.not_mem_nil)]
  | some name =>
      rw [expanded_eq_of_some h, lead_join (isName_expandedName_of_fileName? h),
        (lead_trail_parent path).1]

/-- A file name is the last step of its path. -/
lemma steps_eq_of_fileName? (h : fileName? path = some name) :
    steps path = (steps path).dropLast ++ [name] := by
  obtain ⟨hname, before, htrail⟩ := isName_of_fileName? h
  rw [← filter_trail, htrail]
  simp [hname.not_idle]

/-- **The output takes the same steps as the input**, but for the last one, which gets the mark.  If the
last step of the input is no file name, a step is added whose name is nothing but the mark. -/
theorem exists_steps_expanded (path : Text) : ∃ front,
    steps path = front ++ (fileName? path).toList ∧
      steps (expanded path) = front ++ [expandedName ((fileName? path).getD [])] := by
  cases h : fileName? path with
  | none =>
      refine ⟨steps path, (List.append_nil _).symm, ?_⟩
      rw [expanded_eq_of_none h, steps_join (isName_expandedName List.not_mem_nil)]
      rfl
  | some name =>
      refine ⟨(steps path).dropLast, steps_eq_of_fileName? h, ?_⟩
      rw [expanded_eq_of_some h, steps_join (isName_expandedName_of_fileName? h), steps_parent]
      rfl

/-- No file name is empty, so the text that gets the mark tells whether there is one. -/
lemma fileName?_eq_of_getD_eq {other : Text}
    (h : (fileName? path).getD [] = (fileName? other).getD []) : fileName? path = fileName? other := by
  have hempty : ∀ path, fileName? path ≠ some [] := fun path hname =>
    absurd (isName_of_fileName? hname).1.not_idle (by decide)
  cases hpath : fileName? path with
  | none =>
      cases hother : fileName? other with
      | none => rfl
      | some name =>
          rw [hpath, hother] at h
          obtain rfl : [] = name := h
          exact absurd hother (hempty other)
  | some name =>
      cases hother : fileName? other with
      | none =>
          rw [hpath, hother] at h
          obtain rfl : name = [] := h
          exact absurd hpath (hempty path)
      | some name' =>
          rw [hpath, hother] at h
          exact congrArg some h

end DrillCycles.Path
