import DrillCycles.CommandLine.Config
import Mathlib.Tactic.Common

/-!
# Settings in layers

**Failures.**  A configuration is resolved from two settings files and the arguments.  Three things can
be wrong, each of them said here without the order in which they are looked at: `UserFault`,
`ProjectFault` and `InputFault`.  `resolve_eq_error_iff` adds the order: the first one is reported.
What is told about the files on the way goes as far as they were read (`sourceNotices_gather`).

**Settings.**  Each source gives a layer, and layers are laid over each other one by one.
`suppressDuplicates_foldr_apply` and the two laws beside it say what that comes to: the highest layer
that sets a setting decides it, and all other layers may say what they like.

**Main result.**  `settings_layered` is both for one run.
-/

namespace DrillCycles

/-! ### One layer over another -/

namespace Layer

lemma getD_eq_elim {α : Type} (value? : Option α) (other : α) :
    value?.getD other = value?.elim other id := by
  cases value? <;> rfl

lemma orElse_eq_elim {α : Type} (value? other : Option α) :
    (value? <|> other) = value?.elim other some := by
  cases value? <;> rfl

/-- The highest layer that sets a setting decides it, if that is so for a single layer.  The list starts
with the highest layer. -/
lemma setting_foldr_apply {α β : Type} (setting : Settings → α) (set? : Layer → Option β) (put : β → α)
    (h : ∀ (layer : Layer) (s : Settings), setting (layer.apply s) = (set? layer).elim (setting s) put)
    (layers : List Layer) (s : Settings) :
    setting (layers.foldr apply s) = (layers.findSome? set?).elim (setting s) put := by
  induction layers with
  | nil => rfl
  | cons layer layers ih =>
      rw [List.foldr_cons, h, ih, List.findSome?_cons]
      cases set? layer <;> rfl

lemma suppressDuplicates_foldr_apply (layers : List Layer) (s : Settings) :
    (layers.foldr apply s).suppressDuplicates =
      (layers.findSome? Layer.suppressDuplicates).getD s.suppressDuplicates := by
  rw [getD_eq_elim]
  exact setting_foldr_apply _ _ _ (fun layer s => getD_eq_elim layer.suppressDuplicates _) layers s

lemma dwellUnit_foldr_apply (layers : List Layer) (s : Settings) :
    (layers.foldr apply s).dwellUnit =
      (layers.findSome? Layer.dwellUnit).getD s.dwellUnit := by
  rw [getD_eq_elim]
  exact setting_foldr_apply _ _ _ (fun layer s => getD_eq_elim layer.dwellUnit _) layers s

lemma precision_foldr_apply (layers : List Layer) (s : Settings) :
    (layers.foldr apply s).precision =
      (layers.findSome? Layer.precision <|> s.precision) := by
  rw [orElse_eq_elim]
  exact setting_foldr_apply _ _ _ (fun layer s => orElse_eq_elim layer.precision _) layers s

/-- A layer that may be missing is one that sets nothing. -/
lemma apply_getD (layer? : Option Layer) (s : Settings) :
    (layer?.getD {}).apply s = layer?.toList.foldr apply s := by
  cases layer? <;> rfl

end Layer

/-! ### Settings files -/

/-- The layer that a file denotes. -/
def FileView.layer? (view : FileView) : Option Layer :=
  view.text.bind Layer.ofFile?

/-- What is wrong with a settings file: it cannot be read as a text, or its text denotes no layer. -/
inductive FileView.IsFaulty (view : FileView) (path : Text) : CommandError → Prop
  | unreadable (htext : view.text = none) : view.IsFaulty path (.settingsUnreadable path)
  | invalid {t : Text} (htext : view.text = some t) (hlayer : Layer.ofFile? t = none) :
      view.IsFaulty path (.settingsInvalid (some path))

lemma Layer.load_eq_error_iff {path : Text} {view : FileView} {e : CommandError} :
    load path view = .error e ↔ view.IsFaulty path e := by
  constructor
  · intro h
    rw [load] at h
    split at h
    · next t htext =>
        rw [parse] at h
        split at h
        · cases h
        · next hlayer =>
            cases h
            exact .invalid htext hlayer
    · next htext =>
        cases h
        exact .unreadable htext
  · intro h
    cases h with
    | unreadable htext => rw [load, htext]
    | invalid htext hlayer => simp only [load, htext, parse, hlayer]

lemma Layer.layer?_of_load {path : Text} {view : FileView} {layer : Layer}
    (h : load path view = .ok layer) : view.layer? = some layer := by
  rw [load] at h
  split at h
  · next t htext =>
      rw [parse] at h
      split at h
      · next hlayer =>
          cases h
          rw [FileView.layer?, htext, Option.bind_some, hlayer]
      · cases h
  · cases h

namespace Config

variable {look : Text → FileView} {places : Places} {a : Arguments} {c : Config}
variable {e : CommandError} {settings settings' : Settings} {file : Option (Text × FileView)}

/-- The user's settings file, if it is a regular file. -/
def userPath? (look : Text → FileView) (places : Places) : Option Text :=
  places.userFile?.filter fun path => (look path).isRegular

/-- The project's settings file: the one that is given, or the usual one if it is a regular file. -/
def projectPath? (look : Text → FileView) (places : Places) (a : Arguments) : Option Text :=
  a.config <|> (some places.projectFile).filter fun path => (look path).isRegular

/-- What is wrong with the user's settings file. -/
def UserFault (look : Text → FileView) (places : Places) (e : CommandError) : Prop :=
  ∃ path, userPath? look places = some path ∧ (look path).IsFaulty path e

/-- What is wrong with the project's settings file. -/
def ProjectFault (look : Text → FileView) (places : Places) (a : Arguments) (e : CommandError) :
    Prop :=
  ∃ path, projectPath? look places a = some path ∧ (look path).IsFaulty path e

/-- The output shall be derived from the input, and the input is no file. -/
def InputFault (a : Arguments) (e : CommandError) : Prop :=
  a.deriveOutput = true ∧ a.output = none ∧ (a.input = none ∨ a.input = some ['-']) ∧
    e = .nothingToDeriveFrom

/-- The first thing that is wrong. -/
def FirstFault (look : Text → FileView) (places : Places) (a : Arguments) (e : CommandError) :
    Prop :=
  UserFault look places e ∨
    (¬ ∃ e', UserFault look places e') ∧ (ProjectFault look places a e ∨
      (¬ ∃ e', ProjectFault look places a e') ∧ InputFault a e)

/-! ### Looking for the files -/

/-- A file together with what can be seen of it. -/
def seen (look : Text → FileView) (path? : Option Text) : Option (Text × FileView) :=
  path?.map fun path => (path, look path)

lemma lookForUser_eq (look : Text → FileView) (places : Places) :
    Id.run (lookForUser (m := Id) look places) = seen look (userPath? look places) := by
  rw [lookForUser, userPath?]
  cases places.userFile? with
  | none => rfl
  | some path =>
      change (if (look path).isRegular = true then some (path, look path) else none) = _
      cases hregular : (look path).isRegular <;> simp [seen, Option.filter, hregular]

lemma lookForProject_eq (look : Text → FileView) (places : Places) (a : Arguments) :
    Id.run (lookForProject (m := Id) look places a) = seen look (projectPath? look places a) := by
  rw [lookForProject, projectPath?]
  cases a.config with
  | some path => rfl
  | none =>
      change (if (look places.projectFile).isRegular = true
        then some (places.projectFile, look places.projectFile) else none) = _
      cases hregular : (look places.projectFile).isRegular <;>
        simp [seen, Option.filter, hregular]

/-- The files of a run are looked at without an effect on each other. -/
lemma gather_eq (look : Text → FileView) (places : Places) (a : Arguments) :
    Id.run (gather (m := Id) look places a) =
      ⟨seen look (userPath? look places), seen look (projectPath? look places a)⟩ := by
  rw [← lookForUser_eq, ← lookForProject_eq]
  rfl

lemma resolve_eq (look : Text → FileView) (places : Places) (a : Arguments) :
    Id.run (resolve (m := Id) look places a) = ofSources a
      ⟨seen look (userPath? look places), seen look (projectPath? look places a)⟩ := by
  rw [← gather_eq]
  rfl

/-! ### Laying the files over each other -/

lemma overlay_seen_some (look : Text → FileView) (path : Text) (settings : Settings) :
    overlay (seen look (some path)) settings =
      (Layer.load path (look path)).map (·.apply settings) := rfl

lemma overlay_seen_eq_error_iff {path? : Option Text} :
    overlay (seen look path?) settings = .error e ↔
      ∃ path, path? = some path ∧ (look path).IsFaulty path e := by
  cases path? with
  | none => simp [overlay, seen]
  | some path =>
      rw [overlay_seen_some]
      simp only [Option.some.injEq, exists_eq_left']
      rw [← Layer.load_eq_error_iff]
      cases Layer.load path (look path) <;> simp [Except.map]

lemma overlay_seen_eq_ok {path? : Option Text}
    (h : overlay (seen look path?) settings = .ok settings') : settings' =
      (path?.bind fun path => (look path).layer?).toList.foldr Layer.apply settings := by
  cases path? with
  | none =>
      cases h
      rfl
  | some path =>
      rw [overlay_seen_some] at h
      cases hload : Layer.load path (look path) with
      | error e =>
          rw [hload] at h
          cases h
      | ok layer =>
          rw [hload] at h
          cases h
          rw [Option.bind_some, Layer.layer?_of_load hload]
          rfl

lemma outputOf_eq_error_iff : outputOf a = .error e ↔ InputFault a e := by
  rw [outputOf, InputFault, inputOf]
  cases a.output with
  | some path => simp
  | none =>
    cases a.deriveOutput with
    | false => simp
    | true =>
      cases hinput : a.input with
      | none => simp [eq_comm]
      | some path =>
        by_cases hpath : path = ['-']
        · simp [hpath, Option.filter, eq_comm]
        · simp [hpath, Option.filter]

/-! ### A resolved configuration -/

lemma ofSources_eq_error_iff {sources : Sources} : ofSources a sources = .error e ↔
    overlay sources.userFile {} = .error e ∨
      ∃ settings, overlay sources.userFile {} = .ok settings ∧
        (overlay sources.projectFile settings = .error e ∨
          ∃ settings', overlay sources.projectFile settings = .ok settings' ∧
            outputOf a = .error e) := by
  rw [ofSources]
  cases overlay sources.userFile {} with
  | error e' => simp [bind, Except.bind]
  | ok settings =>
    cases hproject : overlay sources.projectFile settings with
    | error e' => simp [bind, Except.bind, hproject]
    | ok settings' =>
      cases outputOf a <;> simp [bind, Except.bind, pure, Except.pure, hproject]

/-- What a configuration holds that could be resolved. -/
lemma eq_of_ofSources {sources : Sources} (h : ofSources a sources = .ok c) :
    ∃ settings settings', overlay sources.userFile {} = .ok settings ∧
      overlay sources.projectFile settings = .ok settings' ∧
      outputOf a = .ok c.output ∧ c.input = inputOf a ∧ c.settings = settings' ∧
      c.overrides = a.layer ∧ c.projectFile = sources.projectFile.map Prod.fst := by
  rw [ofSources] at h
  cases huser : overlay sources.userFile {} with
  | error e =>
      rw [huser] at h
      cases h
  | ok settings =>
    cases hproject : overlay sources.projectFile settings with
    | error e => simp [bind, Except.bind, huser, hproject] at h
    | ok settings' =>
      cases houtput : outputOf a with
      | error e => simp [bind, Except.bind, huser, hproject, houtput] at h
      | ok output =>
        simp only [bind, Except.bind, pure, Except.pure, huser, hproject, houtput,
          Except.ok.injEq] at h
        subst h
        exact ⟨settings, settings', rfl, hproject, rfl, rfl, rfl, rfl, rfl⟩

lemma input_output_of_resolve (h : Id.run (resolve (m := Id) look places a) = .ok c) :
    c.input = inputOf a ∧ outputOf a = .ok c.output := by
  rw [resolve_eq] at h
  obtain ⟨_, _, _, _, houtput, hinput, _⟩ := eq_of_ofSources h
  exact ⟨hinput, houtput⟩

lemma projectFile_of_resolve (h : Id.run (resolve (m := Id) look places a) = .ok c) :
    c.projectFile = projectPath? look places a := by
  rw [resolve_eq] at h
  obtain ⟨_, _, _, _, _, _, _, _, hfile⟩ := eq_of_ofSources h
  rw [hfile]
  cases projectPath? look places a <;> rfl

/-- **A configuration is not resolved** exactly if something is wrong, and the first thing that is wrong
is reported. -/
theorem resolve_eq_error_iff :
    Id.run (resolve (m := Id) look places a) = .error e ↔ FirstFault look places a e := by
  have huser : ∀ e', UserFault look places e' ↔
      overlay (seen look (userPath? look places)) {} = .error e' :=
    fun e' => overlay_seen_eq_error_iff.symm
  have hproject : ∀ settings e', ProjectFault look places a e' ↔
      overlay (seen look (projectPath? look places a)) settings = .error e' :=
    fun settings e' => overlay_seen_eq_error_iff.symm
  rw [resolve_eq, ofSources_eq_error_iff, FirstFault]
  simp only [huser, ← outputOf_eq_error_iff]
  cases overlay (seen look (userPath? look places)) {} with
  | error e' => simp
  | ok settings =>
      simp only [hproject settings]
      cases hp : overlay (seen look (projectPath? look places a)) settings with
      | error e' => simp [hp]
      | ok settings' => simp [hp]

/-! ### What there is to tell about the files -/

lemma fileNotice_seen_of_isFaulty (notice : Text → Notice) {path? : Option Text}
    (h : ∃ path, path? = some path ∧ (look path).IsFaulty path e) :
    fileNotice notice (seen look path?) = [] := by
  obtain ⟨path, rfl, hfaulty⟩ := h
  rw [seen, Option.map_some, fileNotice, Layer.load_eq_error_iff.mpr hfaulty]

lemma fileNotice_seen_of_not_isFaulty (notice : Text → Notice) {path? : Option Text}
    (h : ¬ ∃ e path, path? = some path ∧ (look path).IsFaulty path e) :
    fileNotice notice (seen look path?) = (path?.map notice).toList := by
  cases path? with
  | none => rfl
  | some path =>
      rw [seen, Option.map_some, fileNotice]
      cases hload : Layer.load path (look path) with
      | error e => exact absurd ⟨e, path, rfl, Layer.load_eq_error_iff.mp hload⟩ h
      | ok layer => rfl

lemma sourceNotices_of_userFault (h : ∃ e, UserFault look places e)
    (projectFile : Option (Text × FileView)) :
    sourceNotices ⟨seen look (userPath? look places), projectFile⟩ = [] := by
  obtain ⟨e, hfault⟩ := h
  rw [sourceNotices, fileNotice_seen_of_isFaulty _ hfault, overlay_seen_eq_error_iff.mpr hfault]
  rfl

lemma sourceNotices_of_not_userFault (h : ¬ ∃ e, UserFault look places e)
    (projectFile : Option (Text × FileView)) :
    sourceNotices ⟨seen look (userPath? look places), projectFile⟩ =
      ((userPath? look places).map .userFileLoaded).toList ++
        fileNotice .projectFileLoaded projectFile := by
  rw [sourceNotices, fileNotice_seen_of_not_isFaulty _ h]
  cases hoverlay : overlay (seen look (userPath? look places)) {} with
  | error e => exact absurd ⟨e, overlay_seen_eq_error_iff.mp hoverlay⟩ h
  | ok settings => rfl

lemma sourceNotices_of_no_fault (huser : ¬ ∃ e, UserFault look places e)
    (hproject : ¬ ∃ e, ProjectFault look places a e) :
    sourceNotices ⟨seen look (userPath? look places), seen look (projectPath? look places a)⟩ =
      ((userPath? look places).map .userFileLoaded).toList ++
        ((projectPath? look places a).map .projectFileLoaded).toList := by
  rw [sourceNotices_of_not_userFault huser, fileNotice_seen_of_not_isFaulty _ hproject]

/-- **What is told about the settings files** is which ones have been read: none if the user's file is
at fault, and only the user's if the project's is.  Where a configuration is resolved, both have been,
and the configuration names the project's. -/
theorem sourceNotices_gather (look : Text → FileView) (places : Places) (a : Arguments) :
    ((∃ e, UserFault look places e) →
      sourceNotices (Id.run (gather (m := Id) look places a)) = []) ∧
    ((¬ ∃ e, UserFault look places e) → (∃ e, ProjectFault look places a e) →
      sourceNotices (Id.run (gather (m := Id) look places a)) =
        ((userPath? look places).map .userFileLoaded).toList) ∧
    ((¬ ∃ e, UserFault look places e) → (¬ ∃ e, ProjectFault look places a e) →
      sourceNotices (Id.run (gather (m := Id) look places a)) =
        ((userPath? look places).map .userFileLoaded).toList ++
          ((projectPath? look places a).map .projectFileLoaded).toList) ∧
    ∀ c, Id.run (resolve (m := Id) look places a) = .ok c →
      sourceNotices (Id.run (gather (m := Id) look places a)) =
        ((userPath? look places).map .userFileLoaded).toList ++
          (c.projectFile.map .projectFileLoaded).toList := by
  rw [gather_eq]
  refine ⟨fun huser => sourceNotices_of_userFault huser _, ?_, sourceNotices_of_no_fault, fun c h => ?_⟩
  · rintro huser ⟨e, hproject⟩
    rw [sourceNotices_of_not_userFault huser, fileNotice_seen_of_isFaulty _ hproject, List.append_nil]
  · have hresolved (e : CommandError) : ¬ FirstFault look places a e := fun hfault => by
      cases h.symm.trans (resolve_eq_error_iff.mpr hfault)
    have huser : ¬ ∃ e, UserFault look places e := fun ⟨e, hfault⟩ => hresolved e (Or.inl hfault)
    have hproject : ¬ ∃ e, ProjectFault look places a e := fun ⟨e, hfault⟩ =>
      hresolved e (Or.inr ⟨huser, Or.inl hfault⟩)
    rw [projectFile_of_resolve h]
    exact sourceNotices_of_no_fault huser hproject

/-! ### The settings for a program -/

/-- The layers for a program, the highest first: those of the command line, of the program's modeline,
of the project's file and of the user's file. -/
def layersFor (look : Text → FileView) (places : Places) (a : Arguments) (program : Text) :
    List Layer :=
  a.layer :: ((Modeline.layer? program).toList ++
    ((projectPath? look places a).bind fun path => (look path).layer?).toList ++
    ((userPath? look places).bind fun path => (look path).layer?).toList)

lemma settingsFor_eq (h : Id.run (resolve (m := Id) look places a) = .ok c) (program : Text) :
    c.settingsFor program = (layersFor look places a program).foldr Layer.apply {} := by
  rw [resolve_eq] at h
  obtain ⟨settings, settings', huser, hproject, -, -, hsettings, hoverrides, -⟩ := eq_of_ofSources h
  rw [settingsFor, hoverrides, hsettings, overlay_seen_eq_ok hproject, overlay_seen_eq_ok huser,
    Layer.apply_getD, layersFor, List.foldr_cons, List.foldr_append, List.foldr_append]

/-- **Settings come in layers.**  No configuration is resolved exactly if the user's file is at fault,
or the project's, or an output shall be derived without an input, and the first of these in this order
is reported.  Otherwise each setting for a program has the value of the highest source that sets it,
independently of the other two: command line, modeline, project's file, user's file, default. -/
theorem settings_layered (look : Text → FileView) (places : Places) (a : Arguments) :
    ((∃ e, Id.run (resolve (m := Id) look places a) = .error e) ↔
      (∃ e, UserFault look places e) ∨ (∃ e, ProjectFault look places a e) ∨
        ∃ e, InputFault a e) ∧
    (∀ e, Id.run (resolve (m := Id) look places a) = .error e ↔ FirstFault look places a e) ∧
    ∀ c, Id.run (resolve (m := Id) look places a) = .ok c → ∀ program,
      (c.settingsFor program).suppressDuplicates =
        ((layersFor look places a program).findSome? Layer.suppressDuplicates).getD false ∧
      (c.settingsFor program).dwellUnit =
        ((layersFor look places a program).findSome? Layer.dwellUnit).getD .seconds ∧
      (c.settingsFor program).precision =
        (layersFor look places a program).findSome? Layer.precision := by
  refine ⟨?_, fun e => resolve_eq_error_iff, fun c h program => ?_⟩
  · simp only [resolve_eq_error_iff, FirstFault, exists_or, exists_and_left]
    by_cases huser : ∃ e, UserFault look places e <;>
      by_cases hproject : ∃ e, ProjectFault look places a e <;>
      simp only [huser, hproject, true_or, or_true, false_or, true_and, false_and, not_true,
        not_false_eq_true]
  · rw [settingsFor_eq h, Layer.suppressDuplicates_foldr_apply, Layer.dwellUnit_foldr_apply,
      Layer.precision_foldr_apply]
    simp

/-- A user's file with all three settings, a project's file with one, and nothing else. -/
def twoFiles (path : Text) : FileView :=
  if path = "home/ccx/config.toml".toList then
    ⟨true, some ("suppress_duplicate_lines = true\n".toList ++
      "dwell_unit = \x22milliseconds\x22\nprecision = 5".toList)⟩
  else if path = "job/.ccx.toml".toList then ⟨true, some "precision = 4".toList⟩
  else ⟨false, none⟩

theorem settings_layered_twoFiles :
    ∃ c, Id.run (resolve (m := Id) twoFiles ⟨some "home".toList, "job".toList⟩ {}) = .ok c ∧
      c.settingsFor "; ccx: dwell_unit=s".toList = ⟨true, .seconds, some 4⟩ := by
  obtain ⟨-, -, hsettings⟩ :=
    settings_layered twoFiles ⟨some "home".toList, "job".toList⟩ {}
  have h : Id.run (resolve (m := Id) twoFiles ⟨some "home".toList, "job".toList⟩ {}) = .ok {
      input := none, output := none, report := none, logFilter := "warn".toList,
      settings := ⟨true, .milliseconds, some 4⟩, projectFile := some "job/.ccx.toml".toList,
      overrides := {} } := by
    decide +kernel
  have hlayers : layersFor twoFiles ⟨some "home".toList, "job".toList⟩ {}
      "; ccx: dwell_unit=s".toList =
        [{}, { dwellUnit := some .seconds }, { precision := some 4 },
          ⟨some true, some .milliseconds, some 5⟩] := by
    decide +kernel
  have hfields := hsettings _ h "; ccx: dwell_unit=s".toList
  rw [hlayers] at hfields
  obtain ⟨hsuppress, hdwell, hprecision⟩ := hfields
  refine ⟨_, h, ?_⟩
  rw [Settings.mk.injEq]
  exact ⟨hsuppress, hdwell, hprecision⟩

end Config

end DrillCycles
