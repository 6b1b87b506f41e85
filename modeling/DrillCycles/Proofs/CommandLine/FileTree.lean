import DrillCycles.CommandLine.FileTree
import Mathlib.Data.List.Basic

/-!
# Writing a file in a tree

A file is written where its path leads to.  Afterwards it is seen at that path (`look_of_write?`), and
every other location holds what it held before (`at?_of_write?`): a path that could be followed can be
followed still (`foldlM_enter_congr`), because a file never takes the place of a directory.
-/

namespace DrillCycles.FileTree

variable {tree tree' : FileTree} {current location start directory : List Text} {entry : Entry}
variable {path content : Text}

lemma at?_set_self (tree : FileTree) (hlocation : location ≠ []) (entry : Entry) :
    (tree.set location entry).at? location = some entry := by
  simp [at?, set, hlocation]

lemma at?_set_of_ne (tree : FileTree) {other : List Text} (hother : other ≠ location)
    (entry : Entry) : (tree.set location entry).at? other = tree.at? other := by
  have hsame : ∀ old : List Text × Entry,
      decide ((old.1 != location) = true ∧ decide (old.1 = other) = true) = decide (old.1 = other) := by
    intro old
    by_cases h : old.1 = other
    · simp [h, hother]
    · simp [h]
  rw [at?, at?, set, List.find?_cons_of_neg (by simpa using hother.symm), List.find?_filter]
  simp only [hsame]

/-- A path leads to a place for a file: a directory and a name in it, and no directory has that
name. -/
structure LeadsTo (tree : FileTree) (current : List Text) (path : Text) (directory : List Text)
    (name : Text) : Prop where
  followable : isFollowable path = true
  name_last : (Text.pieces '/' path).getLast? = some name
  not_idle : Path.isIdle name = false
  not_up : name ≠ ['.', '.']
  walk : (Text.pieces '/' path).dropLast.foldlM tree.enter (startOf current path) = some directory
  inside : tree.at? directory = some .directory
  free : tree.at? (directory ++ [name]) ≠ some .directory

lemma target?_eq_some (h : tree.target? current path = some location) :
    ∃ directory name, location = directory ++ [name] ∧ tree.LeadsTo current path directory name := by
  rw [target?] at h
  split at h
  · next hfollowable =>
      obtain ⟨name, hname, h⟩ := Option.bind_eq_some_iff.mp h
      split at h
      · cases h
      · next hword =>
          obtain ⟨directory, hdirectory, h⟩ := Option.bind_eq_some_iff.mp h
          simp only [Bool.or_eq_true, decide_eq_true_eq, not_or, Bool.not_eq_true] at hword
          obtain ⟨hplace, h⟩ := Option.ite_none_right_eq_some.mp h
          simp only [Bool.and_eq_true, decide_eq_true_eq, bne_iff_ne, ne_eq] at hplace
          exact ⟨directory, name, (Option.some.inj h).symm,
            hfollowable, hname, hword.1, hword.2, hdirectory, hplace.1, hplace.2⟩
  · cases h

/-- One segment is followed as before when an entry changes that was no directory, unless it leads to
that entry. -/
lemma enter_congr (hothers : ∀ other, other ≠ location → tree'.at? other = tree.at? other)
    (hfree : tree.at? location ≠ some .directory) (hend : directory ≠ location) {segment : Text}
    (h : tree.enter start segment = some directory) : tree'.enter start segment = some directory := by
  rw [enter] at h ⊢
  obtain ⟨hstart, h⟩ := Option.ite_none_right_eq_some.mp h
  have hne : start ≠ location := by
    rintro rfl
    exact hfree hstart
  rw [hothers start hne, if_pos hstart]
  split at h
  · next hidle => rw [if_pos hidle, h]
  · next hidle =>
      rw [if_neg hidle]
      split at h
      · next hup => rw [if_pos hup, h]
      · next hup =>
          rw [if_neg hup]
          obtain ⟨hsome, hplace⟩ := Option.ite_none_right_eq_some.mp h
          rw [Option.some.inj hplace] at hsome ⊢
          rw [hothers directory hend, if_pos hsome]

/-- A path that can be followed can be followed still: only its end can be the entry that changed,
because every other place on the way is a directory. -/
lemma foldlM_enter_congr (hothers : ∀ other, other ≠ location → tree'.at? other = tree.at? other)
    (hfree : tree.at? location ≠ some .directory) (hend : directory ≠ location)
    {segments : List Text} (h : segments.foldlM tree.enter start = some directory) :
    segments.foldlM tree'.enter start = some directory := by
  induction segments generalizing start with
  | nil => exact h
  | cons segment segments ih =>
      rw [List.foldlM_cons] at h ⊢
      obtain ⟨next, henter, hrest⟩ := Option.bind_eq_some_iff.mp h
      refine Option.bind_eq_some_iff.mpr ⟨next, enter_congr hothers hfree ?_ henter, ih hrest⟩
      cases segments with
      | nil =>
          cases hrest
          exact hend
      | cons second segments =>
          rw [List.foldlM_cons] at hrest
          obtain ⟨_, hsecond, -⟩ := Option.bind_eq_some_iff.mp hrest
          rw [enter] at hsecond
          rintro rfl
          exact hfree (Option.ite_none_right_eq_some.mp hsecond).1

lemma find?_eq_some_iff : tree.find? current path = some location ↔ isFollowable path = true ∧
    (Text.pieces '/' path).foldlM tree.enter (startOf current path) = some location := by
  rw [find?, Option.ite_none_right_eq_some]

/-- What is seen at a path is what was seen there when an entry changes that it does not lead to. -/
lemma look_congr (hothers : ∀ other, other ≠ location → tree'.at? other = tree.at? other)
    (hfree : tree.at? location ≠ some .directory) {place : List Text}
    (hfind : tree.find? current path = some place) (hplace : place ≠ location) :
    tree'.look current path = tree.look current path := by
  obtain ⟨hfollowable, hwalk⟩ := find?_eq_some_iff.mp hfind
  have hfind' : tree'.find? current path = some place :=
    find?_eq_some_iff.mpr ⟨hfollowable, foldlM_enter_congr hothers hfree hplace hwalk⟩
  rw [look, look, hfind, hfind', Option.bind_some, Option.bind_some, hothers place hplace]

/-- What was written at a path is what can be read there. -/
theorem look_of_write? (h : tree.write? current path content = some tree') :
    tree'.look current path = ⟨true, some content⟩ := by
  obtain ⟨location, htarget, rfl⟩ := Option.map_eq_some_iff.mp h
  obtain ⟨directory, name, rfl, hleads⟩ := target?_eq_some htarget
  have hne : directory ≠ directory ++ [name] := by simp
  have hpieces : Text.pieces '/' path = (Text.pieces '/' path).dropLast ++ [name] :=
    (List.dropLast_append_getLast? name hleads.name_last).symm
  have hfind : (tree.set (directory ++ [name]) (.file (some content))).find? current path =
      some (directory ++ [name]) := by
    rw [find?, if_pos hleads.followable, hpieces, List.foldlM_append, foldlM_enter_congr
      (fun other hother => at?_set_of_ne tree hother _) hleads.free hne hleads.walk]
    simp [enter, at?_set_of_ne tree hne, at?_set_self, hleads.inside, hleads.not_idle, hleads.not_up]
  rw [look, hfind, Option.bind_some, at?_set_self _ (by simp)]

/-- Nothing is changed but the entry where the path leads to. -/
theorem at?_of_write? (h : tree.write? current path content = some tree') :
    ∃ location, tree.target? current path = some location ∧
      ∀ other, other ≠ location → tree'.at? other = tree.at? other := by
  obtain ⟨location, htarget, rfl⟩ := Option.map_eq_some_iff.mp h
  exact ⟨location, htarget, fun other hother => at?_set_of_ne tree hother _⟩

end DrillCycles.FileTree
