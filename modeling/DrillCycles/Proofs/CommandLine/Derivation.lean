import DrillCycles.Proofs.CommandLine.Delivery
import DrillCycles.Proofs.Path.Directory

/-!
# Outputs that are named after their inputs

The name of an output is derived from the path of the input alone, without a look at what is there.

**Places.**  A path leads where its steps lead (`walk_steps_of_find?`), however it is spelled.  So the
output stands beside the input, under the name with the mark, and `target?_expanded_inj` says for any
two files of a tree that their outputs have different places.

**Main result.**  `derived_outputs_apart` says so of the paths themselves, of the places in a tree, and
of runs of the command: what a run reads is there unchanged when it is done.
-/

namespace DrillCycles

namespace FileTree

variable {tree : FileTree} {current start location place directory : List Text}
variable {path other name : Text}

/-! ### Where a path leads -/

/-- Segments that go nowhere can be left out of a walk. -/
lemma foldlM_enter_filter {segments : List Text}
    (h : segments.foldlM tree.enter start = some location) :
    (segments.filter (!Path.isIdle ·)).foldlM tree.enter start = some location := by
  induction segments generalizing start with
  | nil => exact h
  | cons segment segments ih =>
      rw [List.foldlM_cons] at h
      obtain ⟨next, henter, hrest⟩ := Option.bind_eq_some_iff.mp h
      cases hidle : Path.isIdle segment with
      | true =>
          rw [enter] at henter
          obtain ⟨-, hstay⟩ := Option.ite_none_right_eq_some.mp henter
          rw [if_pos hidle] at hstay
          cases hstay
          rw [List.filter_cons_of_neg (by simp [hidle])]
          exact ih hrest
      | false =>
          rw [List.filter_cons_of_pos (by simp [hidle]), List.foldlM_cons]
          exact Option.bind_eq_some_iff.mpr ⟨next, henter, ih hrest⟩

/-- A name leads to an entry of the directory that it is looked for in. -/
lemma eq_of_enter (hname : Path.IsName name) (h : tree.enter directory name = some location) :
    location = directory ++ [name] := by
  rw [enter] at h
  obtain ⟨-, h⟩ := Option.ite_none_right_eq_some.mp h
  rw [if_neg (by simp [hname.not_idle]), if_neg hname.not_up] at h
  exact (Option.some.inj (Option.ite_none_right_eq_some.mp h).2).symm

/-- Whether a walk starts at the root is a matter of the lead. -/
lemma startOf_eq (current : List Text) (path : Text) :
    startOf current path = if Path.lead path = ['/'] then [] else current := by
  fun_cases Path.lead path with
  | case1 rest => rfl
  | case2 => rfl
  | case3 rest => rfl
  | case4 path hroot hpoint hhere =>
      rw [if_neg (by simp), startOf.eq_def]
      split
      · next rest => exact absurd rfl (hroot rest)
      · rfl

/-- A path leads where its steps lead. -/
lemma walk_steps_of_find? (h : tree.find? current path = some location) :
    (Path.steps path).foldlM tree.enter (startOf current path) = some location :=
  foldlM_enter_filter (find?_eq_some_iff.mp h).2

/-- A file is written where all steps but the last one lead, under the name that is the last one. -/
lemma walk_steps_of_target? {front : List Text} (hsteps : Path.steps path = front ++ [name])
    (h : tree.target? current path = some location) : ∃ directory,
    location = directory ++ [name] ∧
      front.foldlM tree.enter (startOf current path) = some directory := by
  obtain ⟨directory, last, rfl, hleads⟩ := target?_eq_some h
  have hpieces : Text.pieces '/' path = (Text.pieces '/' path).dropLast ++ [last] :=
    (List.dropLast_append_getLast? last hleads.name_last).symm
  rw [Path.steps, hpieces, List.filter_append, List.filter_cons_of_pos (by simp [hleads.not_idle]),
    List.filter_nil] at hsteps
  obtain ⟨rfl, hlast⟩ := List.append_inj' hsteps rfl
  obtain rfl : last = name := by simpa using hlast
  exact ⟨directory, rfl, foldlM_enter_filter hleads.walk⟩

lemma startOf_expanded (current : List Text) (path : Text) :
    startOf current (Path.expanded path) = startOf current path := by
  rw [startOf_eq, startOf_eq, Path.lead_expanded]

/-! ### Places of outputs -/

/-- **An output stands beside its input**, under the name with the mark.  What has no file name gets an
output inside it. -/
lemma exists_place_of_output (hfind : tree.find? current path = some place)
    (htarget : tree.target? current (Path.expanded path) = some location) : ∃ directory,
    place = directory ++ (Path.fileName? path).toList ∧
      location = directory ++ [Path.expandedName ((Path.fileName? path).getD [])] := by
  obtain ⟨front, hsteps, hexpanded⟩ := Path.exists_steps_expanded path
  obtain ⟨directory, rfl, hdirectory⟩ := walk_steps_of_target? hexpanded htarget
  refine ⟨directory, ?_, rfl⟩
  have hwalk := walk_steps_of_find? hfind
  rw [startOf_expanded] at hdirectory
  rw [hsteps, List.foldlM_append, hdirectory] at hwalk
  cases hname : Path.fileName? path with
  | none => simpa [hname, eq_comm] using hwalk
  | some name =>
      rw [hname] at hwalk
      exact eq_of_enter (Path.isName_of_fileName? hname).1 (by simpa using hwalk)

/-- **Inputs at different places have outputs at different places.** -/
lemma target?_expanded_inj {place' : List Text} (hfind : tree.find? current path = some place)
    (hfind' : tree.find? current other = some place')
    (htarget : tree.target? current (Path.expanded path) = some location)
    (htarget' : tree.target? current (Path.expanded other) = some location) : place = place' := by
  obtain ⟨directory, rfl, hlocation⟩ := exists_place_of_output hfind htarget
  obtain ⟨directory', rfl, hlocation'⟩ := exists_place_of_output hfind' htarget'
  obtain ⟨rfl, hmarked⟩ := List.append_inj' (hlocation.symm.trans hlocation') rfl
  have hname := Path.expandedName_injective (List.singleton_injective hmarked)
  rw [Path.fileName?_eq_of_getD_eq hname]

/-- The place of an output is never that of its input. -/
lemma target?_expanded_ne (hfind : tree.find? current path = some place)
    (htarget : tree.target? current (Path.expanded path) = some location) : location ≠ place := by
  obtain ⟨directory, rfl, rfl⟩ := exists_place_of_output hfind htarget
  intro h
  cases hname : Path.fileName? path with
  | none => simp [hname] at h
  | some name =>
      rw [hname] at h
      exact Path.expandedName_ne_self name (by simpa using h)

end FileTree

/-! ### Runs -/

lemma exists_of_bind_eq_ok {ε α β : Type} {action : Except ε α} {next : α → Except ε β} {b : β}
    (h : action >>= next = .ok b) : ∃ a, action = .ok a ∧ next a = .ok b := by
  cases action with
  | error e => cases h
  | ok a => exact ⟨a, rfl, h⟩

/-- An output is either named or derived. -/
lemma Arguments.output_eq_none_of_parse {argv : List Text} {a : Arguments}
    (h : Arguments.parse argv = .ok a) (hderive : a.deriveOutput = true) : a.output = none := by
  rw [Arguments.parse] at h
  obtain ⟨progress, -, hfinish⟩ := exists_of_bind_eq_ok h
  rw [Arguments.Progress.finish] at hfinish
  obtain ⟨settled, -, hexclusive⟩ := exists_of_bind_eq_ok hfinish
  split at hexclusive
  · cases hexclusive
  · next hboth =>
      obtain rfl := Except.ok.inj hexclusive
      simpa [hderive] using hboth

lemma Config.outputOf_of_derive {a : Arguments} {input : Text} (hnone : a.output = none)
    (hderive : a.deriveOutput = true) (hinput : inputOf a = some input) :
    outputOf a = .ok (some (Path.expanded input)) := by
  simp only [outputOf, hnone, hderive, hinput, if_true]

namespace Workspace

lemma exists_find?_of_programAt {w : Workspace} {path program : Text}
    (h : w.programAt (some path) = some program) : ∃ place, w.tree.find? w.current path = some place := by
  rw [programAt, FileTree.look] at h
  cases hfind : w.tree.find? w.current path with
  | none => simp [hfind] at h
  | some place => exact ⟨place, rfl⟩

/-- A run that derives its output leaves its input as it is, whatever becomes of the output. -/
lemma look_run_of_derive {argv : List Text} {a : Arguments} {input : Text}
    (hparse : Arguments.parse argv = .ok a) (hinput : Config.inputOf a = some input)
    (hsink : Config.outputOf a = .ok (some (Path.expanded input))) (w : Workspace) (places : Places) :
    (w.run places argv).2.tree.look w.current input = w.tree.look w.current input := by
  obtain ⟨sink, t, report, ⟨a', config, program, out, hconverts, hsink', rfl, rfl⟩, hdelivers⟩ |
      htree :=
    (run_settles places argv w (by simp [hparse]) (by simp [hparse])).delivers_or_tree_eq
  · obtain rfl := Except.ok.inj (hparse.symm.trans hconverts.parsed)
    obtain rfl := Except.ok.inj (hsink.symm.trans hsink')
    have hread := hconverts.read
    rw [hinput] at hread
    obtain ⟨place, hfind⟩ := exists_find?_of_programAt hread
    cases hdelivers with
    | toFile location hlocation _ hothers _ =>
        obtain ⟨_, _, rfl, hleads⟩ := FileTree.target?_eq_some hlocation
        exact FileTree.look_congr hothers hleads.free hfind
          (FileTree.target?_expanded_ne hfind hlocation).symm
  · rw [htree]

/-- **Derived outputs never collide.**  For an input with a file name, the derived path has the same
directory, the same extension if there is one, and another file name; different file names are derived
from different ones.  In any tree the output stands in the directory of its input, not in its place,
and not in the place of the output of another input.  A run of the command leaves its input as it is. -/
theorem derived_outputs_apart {input name : Text} (hname : Path.fileName? input = some name) :
    (∃ derived, Path.fileName? (Path.expanded input) = some derived ∧ derived ≠ name ∧
      Path.parent (Path.expanded input) = Path.parent input ∧
      ∀ extension, Path.HasExtension name extension → Path.HasExtension derived extension) ∧
    (∀ other otherName, Path.fileName? other = some otherName → otherName ≠ name →
      Path.fileName? (Path.expanded other) ≠ Path.fileName? (Path.expanded input)) ∧
    (∀ (tree : FileTree) current place location, tree.find? current input = some place →
      tree.target? current (Path.expanded input) = some location →
        location.dropLast = place.dropLast ∧ location ≠ place ∧
        ∀ other place', tree.find? current other = some place' → place' ≠ place →
          tree.target? current (Path.expanded other) ≠ some location) ∧
    ∀ (w : Workspace) places argv a, Arguments.parse argv = .ok a → a.deriveOutput = true →
      Config.inputOf a = some input → Config.outputOf a = .ok (some (Path.expanded input)) ∧
        (w.run places argv).2.tree.look w.current input = w.tree.look w.current input := by
  refine ⟨⟨Path.expandedName name, Path.fileName?_expanded hname, Path.expandedName_ne_self name,
    Path.parent_expanded hname, fun _ => Path.hasExtension_expandedName⟩, ?_, ?_, ?_⟩
  · intro other otherName hother hne hsame
    rw [Path.fileName?_expanded hother, Path.fileName?_expanded hname] at hsame
    exact hne (Path.expandedName_injective (Option.some.inj hsame))
  · intro tree current place location hfind htarget
    refine ⟨?_, FileTree.target?_expanded_ne hfind htarget, fun other place' hfind' hne htarget' =>
      hne (FileTree.target?_expanded_inj hfind' hfind htarget' htarget)⟩
    obtain ⟨directory, rfl, rfl⟩ := FileTree.exists_place_of_output hfind htarget
    simp [hname]
  · intro w places argv a hparse hderive hinput
    have hsink := Config.outputOf_of_derive (Arguments.output_eq_none_of_parse hparse hderive)
      hderive hinput
    exact ⟨hsink, look_run_of_derive hparse hinput hsink w places⟩

/-- Two programs whose names differ in a point at the end. -/
def twoPrograms : Workspace where
  tree := ⟨[(["jobs".toList], .directory),
    (["jobs".toList, "drills.".toList], .file (some "G0 X1".toList)),
    (["jobs".toList, "drills".toList], .file (some "G0 X2".toList))]⟩
  time := ⟨0, 0⟩

/-- The empty extension is kept, and with it the difference between the two names. -/
theorem derived_outputs_apart_emptyExtension :
    let input := "jobs//drills.".toList
    let argv := ["--derive-output".toList, input]
    Path.fileName? input = some "drills.".toList ∧
    Path.fileName? (Path.expanded input) = some "drills.expanded.".toList ∧
    Path.parent (Path.expanded input) = Path.parent input ∧
    Path.HasExtension "drills.expanded.".toList [] ∧
    Path.fileName? (Path.expanded "jobs/drills".toList) ≠ Path.fileName? (Path.expanded input) ∧
    twoPrograms.tree.target? [] (Path.expanded "jobs/drills".toList) ≠
      some ["jobs".toList, "drills.expanded.".toList] ∧
    (twoPrograms.run ⟨none, []⟩ argv).1.code = 0 ∧
    (twoPrograms.run ⟨none, []⟩ argv).2.tree.look [] input = ⟨true, some "G0 X1".toList⟩ := by
  intro input argv
  have hname : Path.fileName? input = some "drills.".toList := by decide
  obtain ⟨⟨derived, hderived, -, hparent, hextension⟩, hnames, hplaces, hruns⟩ :=
    derived_outputs_apart hname
  obtain rfl : "drills.expanded.".toList = derived :=
    Option.some.inj (Eq.trans (by decide) hderived)
  have hempty : Path.HasExtension "drills.".toList [] :=
    ⟨"drills".toList, by decide, by decide, by decide⟩
  obtain ⟨-, -, hothers⟩ := hplaces twoPrograms.tree [] ["jobs".toList, "drills.".toList]
    ["jobs".toList, "drills.expanded.".toList] (by decide +kernel) (by decide +kernel)
  obtain ⟨-, hunchanged⟩ := hruns twoPrograms ⟨none, []⟩ argv
    { input := some input, deriveOutput := true } (by decide +kernel) rfl (by decide)
  exact ⟨hname, hderived, hparent, hextension [] hempty,
    hnames "jobs/drills".toList "drills".toList (by decide) (by decide),
    hothers "jobs/drills".toList ["jobs".toList, "drills".toList] (by decide +kernel) (by decide),
    by decide +kernel, hunchanged.trans (by decide +kernel)⟩

end Workspace

end DrillCycles
