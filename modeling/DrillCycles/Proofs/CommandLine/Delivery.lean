import DrillCycles.CommandLine.Workspace
import DrillCycles.Proofs.CommandLine.FileTree
import DrillCycles.Proofs.CommandLine.Layers
import DrillCycles.Proofs.Converter.Session

/-!
# A run delivers everything or nothing

The command in a workspace.  Notices go to the error stream; `OnlySays` knows no more of them than that
nothing else is changed.

**What is owed.**  Each function of the command owes at most one text to one sink, a file or standard
output, and a report on it to the error stream, an empty one when none is asked for.  `Settles` says
how it ends: both are delivered; the text is, but not the report; the sink does not take the text; or
nothing is owed.  Every function is one lemma, and the functions in front only narrow down what is owed.

**Streams that cut a text short.**  A file is written as a whole or not at all, but standard output can
take a beginning of the text (`FallsShort`).  And since the report comes last, a run can fail although
its text is delivered.  With `HasWholeStreams` there is neither.

**Main result.**  `run_all_or_nothing`, where what is owed is a conversion: the header and the body of
the program that the arguments name, under the settings that are resolved for it (`Converts`).
-/

namespace DrillCycles

/-! ### Converting a program that was just loaded -/

/-- A conversion of a loaded program succeeds when there is a converted program.  It gives that, and
counts it and the program. -/
lemma Converter.convert_load_eq_ok_iff {settings : Settings} {program t : Text} {time : Instant}
    {statistics : Statistics} :
    (∃ after, (Converter.load time program { settings := settings }).convert time = .ok (t, after) ∧
      after.statistics = statistics) ↔
    ∃ out, IsConversion settings (some program) time out ∧ t = Text.unlines out ∧
      statistics = (Statistics.ofProgram program).withOutput out := by
  have hlines : convertedLines time (Converter.load time program { settings := settings }) =
      (expand settings program).map fun body =>
        header time ++ Output.withoutRepeat settings.suppressDuplicates "(ccx 0.1.0)".toList body := by
    rw [convertedLines, expand, expandLines, expandLines]
    change (renderAll settings (Cycle.State.expansions {} program.lines) >>= _) = _
    cases renderAll settings (Cycle.State.expansions {} program.lines) with
    | error e => rfl
    | ok body =>
        exact congrArg Except.ok (Output.collect_header_append settings.suppressDuplicates body
          (isChain_header time) (getLast?_header time))
  simp only [convert, hlines, IsConversion, bodyOf]
  cases expand settings program with
  | error e => simp [Except.map, bind, Except.bind]
  | ok body =>
      simp [Except.map, bind, Except.bind, pure, Except.pure, eq_comm, load, Statistics.withOutput]

/-- The line or lines of a report, if one is asked for. -/
def Statistics.reportText (format? : Option ReportFormat) (s : Statistics) : Text :=
  format?.elim [] fun format => s.report format ++ ['\n']

namespace Room

lemma fits_nil (room : Room) : room.fits [] = true := by
  cases room <;> simp [fits]

lemma taken_of_fits {room : Room} {t : Text} (h : room.fits t = true) : room.taken t = t := by
  cases room with
  | unlimited => rfl
  | upTo count => exact List.take_of_length_le (by simpa [fits] using h)

end Room

namespace Workspace

variable {w w' w₁ : Workspace} {sink : Option Text} {path t report : Text}
variable {owed owed' : Option Text → Text → Text → Prop} {r : Exit × Workspace}

lemma run_bind_of_run_eq {α β : Type} {action : StateM Workspace α} {a : α}
    (h : action.run w = (a, w₁)) (next : α → StateM Workspace β) :
    (action >>= next).run w = (next a).run w₁ := by
  change (next (action.run w).1).run (action.run w).2 = _
  rw [h]

/-! ### Saying something -/

/-- Nothing is changed but the notices. -/
def OnlySays (w w' : Workspace) : Prop :=
  ∃ notices, w' = { w with notices := notices }

lemma OnlySays.refl (w : Workspace) : OnlySays w w := ⟨_, rfl⟩

lemma OnlySays.trans (h : OnlySays w w₁) (h' : OnlySays w₁ w') : OnlySays w w' := by
  obtain ⟨notices, rfl⟩ := h
  obtain ⟨notices', rfl⟩ := h'
  exact ⟨notices', rfl⟩

lemma forM_tell (notices : List Notice) (w : Workspace) :
    OnlySays w ((notices.forM host.tell).run w).2 := by
  induction notices generalizing w with
  | nil => exact OnlySays.refl w
  | cons n notices ih => exact OnlySays.trans ⟨w.notices.push n, rfl⟩ (ih _)

lemma tellAll_run (filter : Text) (notices : List Notice) (w : Workspace) :
    ∃ w', (Command.tellAll host filter notices).run w = ((), w') ∧ OnlySays w w' :=
  ⟨_, rfl, forM_tell _ w⟩

/-! ### Sinks -/

/-- Whether a sink, a file or else standard output, can take all of a text. -/
def CanTake (w : Workspace) (t : Text) : Option Text → Prop
  | some path => (w.tree.target? w.current path).isSome ∧ w.isWritable path = true
  | none => w.outputRoom.fits t = true ∧ w.outputFlushes = true

/-- Whether the error stream can take all of a report. -/
def CanReport (w : Workspace) (report : Text) : Prop :=
  w.errorRoom.fits report = true

/-- A text has been delivered to a sink, and nothing to any other. -/
inductive Delivers (w w' : Workspace) (t : Text) : Option Text → Prop
  | toFile {path : Text} (location : List Text)
      (hlocation : w.tree.target? w.current path = some location)
      (hfile : w'.tree.look w.current path = ⟨true, some t⟩)
      (hothers : ∀ other, other ≠ location → w'.tree.at? other = w.tree.at? other)
      (houtput : w'.output = w.output) : Delivers w w' t (some path)
  | toOutput (htree : w'.tree = w.tree) (houtput : w'.output = w.output ++ t) : Delivers w w' t none

/-- A text has not been delivered to a sink, and nothing to any other: a file is left alone, and
standard output has taken as much of the text as there was room for. -/
inductive FallsShort (w w' : Workspace) (t : Text) : Option Text → Prop
  | ofFile {path : Text} (htree : w'.tree = w.tree) (houtput : w'.output = w.output) :
      FallsShort w w' t (some path)
  | ofOutput (htree : w'.tree = w.tree) (houtput : w'.output = w.output ++ w.outputRoom.taken t) :
      FallsShort w w' t none

lemma CanTake.of_onlySays (h : OnlySays w w') : CanTake w' t sink ↔ CanTake w t sink := by
  obtain ⟨notices, rfl⟩ := h
  cases sink <;> exact Iff.rfl

lemma CanReport.of_onlySays (h : OnlySays w w') : CanReport w' report ↔ CanReport w report := by
  obtain ⟨notices, rfl⟩ := h
  exact Iff.rfl

lemma Delivers.of_onlySays (h : OnlySays w w₁) (hdelivers : Delivers w₁ w' t sink) :
    Delivers w w' t sink := by
  obtain ⟨notices, rfl⟩ := h
  cases hdelivers with
  | toFile location hlocation hfile hothers houtput =>
      exact .toFile location hlocation hfile hothers houtput
  | toOutput htree houtput => exact .toOutput htree houtput

lemma FallsShort.of_onlySays (h : OnlySays w w₁) (hshort : FallsShort w₁ w' t sink) :
    FallsShort w w' t sink := by
  obtain ⟨notices, rfl⟩ := h
  cases hshort with
  | ofFile htree houtput => exact .ofFile htree houtput
  | ofOutput htree houtput => exact .ofOutput htree houtput

/-- What is delivered stays delivered while files and standard output are left alone. -/
lemma Delivers.congr (hdelivers : Delivers w w₁ t sink) (htree : w'.tree = w₁.tree)
    (houtput : w'.output = w₁.output) : Delivers w w' t sink := by
  cases hdelivers with
  | toFile location hlocation hfile hothers hsame =>
      exact .toFile location hlocation (htree ▸ hfile) (htree ▸ hothers) (houtput.trans hsame)
  | toOutput hsame hwritten => exact .toOutput (htree.trans hsame) (houtput.trans hwritten)

lemma writeFile_of_canTake (h : CanTake w t (some path)) : ∃ tree,
    w.tree.write? w.current path t = some tree ∧
      (host.write path t).run w = (true, { w with tree }) := by
  obtain ⟨location, hlocation⟩ := Option.isSome_iff_exists.mp h.1
  have hwrite : w.tree.write? w.current path t =
      some (w.tree.set location (.file (some t))) := by
    rw [FileTree.write?, hlocation, Option.map_some]
  refine ⟨_, hwrite, ?_⟩
  change writeFile path t w = _
  simp only [writeFile, hwrite, Option.filter_some, h.2, if_true]

lemma writeFile_of_not_canTake (h : ¬ CanTake w t (some path)) :
    (host.write path t).run w = (false, w) := by
  change writeFile path t w = _
  rw [writeFile, FileTree.write?]
  cases htarget : w.tree.target? w.current path with
  | none => rfl
  | some location =>
      have hwritable : w.isWritable path = false := by simpa [CanTake, htarget] using h
      simp only [Option.map_some, Option.filter_some, hwritable, Bool.false_eq_true, if_false]

/-- Writing a program delivers it if the sink can take it, and falls short of that if it cannot. -/
lemma writeProgram_run (filter t : Text) (sink : Option Text) (w : Workspace) :
    (∃ w', (Command.writeProgram host filter t sink).run w = (.ok (), w') ∧ CanTake w t sink ∧
      Delivers w w' t sink ∧ w'.errorRoom = w.errorRoom) ∨
    ∃ e w', (Command.writeProgram host filter t sink).run w = (.error e, w') ∧ ¬ CanTake w t sink ∧
      FallsShort w w' t sink := by
  rw [Command.writeProgram.eq_def]
  cases sink with
  | none =>
      have hprint : (host.print t).run w = (w.outputRoom.fits t, (printText t w).2) := rfl
      have hflush : host.flush.run (printText t w).2 = (w.outputFlushes, (printText t w).2) := rfl
      -- Either of the two steps can fail, and what has gone out by then stays out.
      cases hfits : w.outputRoom.fits t with
      | false =>
          rw [hfits] at hprint
          exact Or.inr ⟨_, _, run_bind_of_run_eq hprint _, by simp [CanTake, hfits], .ofOutput rfl rfl⟩
      | true =>
          rw [hfits] at hprint
          cases hflushes : w.outputFlushes with
          | false =>
              rw [hflushes] at hflush
              exact Or.inr ⟨_, _, (run_bind_of_run_eq hprint _).trans (run_bind_of_run_eq hflush _),
                by simp [CanTake, hflushes], .ofOutput rfl rfl⟩
          | true =>
              rw [hflushes] at hflush
              refine Or.inl ⟨_, (run_bind_of_run_eq hprint _).trans (run_bind_of_run_eq hflush _),
                ⟨hfits, hflushes⟩, .toOutput rfl ?_, rfl⟩
              rw [printText, Room.taken_of_fits hfits]
  | some path =>
      by_cases htakes : CanTake w t (some path)
      · obtain ⟨tree, htree, hwrite⟩ := writeFile_of_canTake htakes
        obtain ⟨location, hlocation, hothers⟩ := FileTree.at?_of_write? htree
        obtain ⟨_, hsay, notices, rfl⟩ :=
          tellAll_run filter [.programWritten path] { w with tree := tree }
        exact Or.inl ⟨_, (run_bind_of_run_eq hwrite _).trans (run_bind_of_run_eq hsay _), htakes,
          .toFile location hlocation (FileTree.look_of_write? htree) hothers rfl, rfl⟩
      · exact Or.inr ⟨_, _, run_bind_of_run_eq (writeFile_of_not_canTake htakes) _, htakes,
          .ofFile rfl rfl⟩

/-- Writing a report leaves files and standard output alone. -/
lemma writeReport_run (c : Converter) (format? : Option ReportFormat) (w : Workspace) : ∃ w',
    (Command.writeReport host c format?).run w =
      (w.errorRoom.fits (c.statistics.reportText format?), w') ∧
    w'.tree = w.tree ∧ w'.output = w.output := by
  cases format? with
  | none =>
      refine ⟨w, ?_, rfl, rfl⟩
      rw [Statistics.reportText, Option.elim_none, Room.fits_nil]
      rfl
  | some format => exact ⟨_, rfl, rfl, rfl⟩

/-! ### Everything or nothing -/

/-- How a run ends that owes some text to some sink, and some report. -/
inductive Settles (w : Workspace) (owed : Option Text → Text → Text → Prop) (r : Exit × Workspace) :
    Prop
  /-- All is delivered. -/
  | done {sink : Option Text} {t report : Text} (howed : owed sink t report)
      (htakes : CanTake w t sink) (hreports : CanReport w report) (hdelivers : Delivers w r.2 t sink)
      (hcode : r.1.code = 0)
  /-- The text is delivered, and the report on it is not. -/
  | unreported {sink : Option Text} {t report : Text} (howed : owed sink t report)
      (htakes : CanTake w t sink) (hreports : ¬ CanReport w report)
      (hdelivers : Delivers w r.2 t sink) (hcode : r.1.code = 101)
  /-- The sink does not take the text, so that there is nothing to report on. -/
  | fellShort {sink : Option Text} {t report : Text} (howed : owed sink t report)
      (htakes : ¬ CanTake w t sink) (hshort : FallsShort w r.2 t sink) (hcode : r.1.code = 1)
  /-- There is nothing to deliver. -/
  | stopped (hnothing : ∀ sink t report, ¬ owed sink t report) (hcode : r.1.code ≠ 0)
      (htree : r.2.tree = w.tree) (houtput : r.2.output = w.output)

lemma Settles.congr (h : Settles w owed r)
    (howed : ∀ sink t report, owed sink t report ↔ owed' sink t report) : Settles w owed' r := by
  obtain rfl : owed = owed' :=
    funext fun sink => funext fun t => funext fun report => propext (howed sink t report)
  exact h

lemma Settles.of_onlySays (hquiet : OnlySays w w₁) (h : Settles w₁ owed r) : Settles w owed r := by
  cases h with
  | done howed htakes hreports hdelivers hcode =>
      exact .done howed ((CanTake.of_onlySays hquiet).mp htakes)
        ((CanReport.of_onlySays hquiet).mp hreports) (hdelivers.of_onlySays hquiet) hcode
  | unreported howed htakes hreports hdelivers hcode =>
      exact .unreported howed ((CanTake.of_onlySays hquiet).mp htakes)
        (fun hcan => hreports ((CanReport.of_onlySays hquiet).mpr hcan))
        (hdelivers.of_onlySays hquiet) hcode
  | fellShort howed htakes hshort hcode =>
      exact .fellShort howed (fun hcan => htakes ((CanTake.of_onlySays hquiet).mpr hcan))
        (hshort.of_onlySays hquiet) hcode
  | stopped hnothing hcode htree houtput =>
      obtain ⟨notices, rfl⟩ := hquiet
      exact .stopped hnothing hcode htree houtput

/-- Files are changed by a delivery alone. -/
lemma Settles.delivers_or_tree_eq (h : Settles w owed r) :
    (∃ sink t report, owed sink t report ∧ Delivers w r.2 t sink) ∨ r.2.tree = w.tree := by
  cases h with
  | done howed _ _ hdelivers _ => exact Or.inl ⟨_, _, _, howed, hdelivers⟩
  | unreported howed _ _ hdelivers _ => exact Or.inl ⟨_, _, _, howed, hdelivers⟩
  | fellShort _ _ hshort _ =>
      cases hshort with
      | ofFile htree _ => exact Or.inr htree
      | ofOutput htree _ => exact Or.inr htree
  | stopped _ _ htree _ => exact Or.inr htree

lemma deliver_run (config : Config) (t : Text) (c : Converter) (w : Workspace) :
    Settles w (fun sink t' report => sink = config.output ∧ t' = t ∧
        report = c.statistics.reportText config.report)
      ((Command.deliver host config t c).run w) := by
  rw [Command.deliver]
  obtain ⟨w₁, hwrite, htakes, hdelivers, hroom⟩ | ⟨e, w₁, hwrite, htakes, hshort⟩ :=
    writeProgram_run config.logFilter t config.output w
  · -- The report is only about what has been delivered already; failing, it takes nothing back.
    obtain ⟨w₂, hreport, htree, houtput⟩ := writeReport_run c config.report w₁
    have hdelivered := hdelivers.congr htree houtput
    rw [hroom] at hreport
    simp only [run_bind_of_run_eq hwrite]
    rw [run_bind_of_run_eq hreport]
    cases hreports : w.errorRoom.fits (c.statistics.reportText config.report) with
    | true => exact .done ⟨rfl, rfl, rfl⟩ htakes hreports hdelivered rfl
    | false =>
        exact .unreported ⟨rfl, rfl, rfl⟩ htakes (by simp [CanReport, hreports]) hdelivered rfl
  · simp only [run_bind_of_run_eq hwrite]
    exact .fellShort ⟨rfl, rfl, rfl⟩ htakes hshort rfl

/-- A conversion of this program in this workspace, and the report on it. -/
def IsConverted (w : Workspace) (config : Config) (program t report : Text) : Prop :=
  ∃ out, Converter.IsConversion (config.settingsFor program) (some program) w.time out ∧
    t = Text.unlines out ∧
    report = ((Statistics.ofProgram program).withOutput out).reportText config.report

lemma convertProgram_run (config : Config) (program : Text) (w : Workspace) :
    Settles w (fun sink t report => sink = config.output ∧ w.IsConverted config program t report)
      ((Command.convertProgram host config program).run w) := by
  rw [Command.convertProgram]
  obtain ⟨w₁, htell, notices, rfl⟩ := tellAll_run config.logFilter
    (Config.settingsNotices program ++ [.settingsResolved (config.settingsFor program)]) w
  have hnow : host.now.run { w with notices } = (w.time, { w with notices }) := rfl
  rw [run_bind_of_run_eq htell, run_bind_of_run_eq hnow]
  refine Settles.of_onlySays ⟨notices, rfl⟩ ?_
  have hiff : ∀ t statistics, (∃ after, (Converter.load w.time program
      { settings := config.settingsFor program }).convert w.time = .ok (t, after) ∧
        after.statistics = statistics) ↔ _ :=
    fun t statistics => Converter.convert_load_eq_ok_iff
  generalize Converter.load w.time program { settings := config.settingsFor program } =
    converter at hiff ⊢
  obtain ⟨w₂, htell₂, hquiet₂⟩ := tellAll_run config.logFilter
    (converter.loadNotices ++ converter.convertNotices (converter.convert w.time))
    { w with notices }
  rw [run_bind_of_run_eq htell₂]
  refine Settles.of_onlySays hquiet₂ ?_
  -- Up to here nothing but notices; only a finished conversion is handed to the sink.
  cases hconvert : converter.convert w.time with
  | error e =>
      refine .stopped ?_ (by simp [Exit.code]) rfl rfl
      rintro sink t report ⟨-, out, hout, rfl, -⟩
      obtain ⟨after, hafter, -⟩ := (hiff _ _).mpr ⟨out, hout, rfl, rfl⟩
      rw [hconvert] at hafter
      cases hafter
  | ok converted =>
      obtain ⟨t, after⟩ := converted
      refine (deliver_run config t after w₂).congr fun sink t' report => and_congr_right fun _ => ?_
      constructor
      · rintro ⟨rfl, rfl⟩
        obtain ⟨out, hout, ht, hstatistics⟩ := (hiff t' after.statistics).mp ⟨after, hconvert, rfl⟩
        exact ⟨out, hout, ht, by rw [hstatistics]⟩
      · rintro ⟨out, hout, rfl, rfl⟩
        obtain ⟨after', hafter, hstatistics⟩ := (hiff _ _).mpr ⟨out, hout, rfl, rfl⟩
        rw [hconvert] at hafter
        cases hafter
        exact ⟨rfl, by rw [hstatistics]⟩

/-- What a run of the command reads a program from, a file or else standard input. -/
def programAt (w : Workspace) : Option Text → Option Text
  | some path => (w.tree.look w.current path).text
  | none => w.input

lemma programAt_of_onlySays (h : OnlySays w w') (source : Option Text) :
    w'.programAt source = w.programAt source := by
  obtain ⟨notices, rfl⟩ := h
  cases source <;> rfl

lemma readProgram_run (source : Option Text) (w : Workspace) : ∃ result,
    (Command.readProgram host source).run w = (result, w) ∧
      ∀ program, result = .ok program ↔ w.programAt source = some program := by
  rw [Command.readProgram.eq_def]
  cases source with
  | none =>
      refine ⟨_, rfl, fun program => ?_⟩
      change (match w.input with | some t => _ | none => _) = _ ↔ w.input = some program
      cases w.input <;> simp
  | some path =>
      refine ⟨_, rfl, fun program => ?_⟩
      change (match (w.tree.look w.current path).text with | some t => _ | none => _) = _ ↔
        (w.tree.look w.current path).text = some program
      cases (w.tree.look w.current path).text <;> simp

lemma runWith_run (config : Config) (w : Workspace) :
    Settles w (fun sink t report => sink = config.output ∧ ∃ program,
        w.programAt config.input = some program ∧ w.IsConverted config program t report)
      ((Command.runWith host config).run w) := by
  rw [Command.runWith]
  obtain ⟨w₁, htell, hquiet⟩ := tellAll_run config.logFilter
    (config.projectFile.map .projectFileUsed).toList w
  obtain ⟨result, hread, hresult⟩ := readProgram_run config.input w₁
  rw [run_bind_of_run_eq htell, run_bind_of_run_eq hread]
  refine Settles.of_onlySays hquiet ?_
  rw [programAt_of_onlySays hquiet] at hresult
  cases result with
  | error e =>
      refine .stopped ?_ (by simp [Exit.code]) rfl rfl
      rintro sink t report ⟨-, program, hprogram, -⟩
      cases (hresult program).mpr hprogram
  | ok program =>
      refine (convertProgram_run config program w₁).congr fun sink t report => ?_
      rw [(hresult program).mp rfl]
      simp only [Option.some.injEq, exists_eq_left']
      obtain ⟨notices, rfl⟩ := hquiet
      exact Iff.rfl

lemma resolve_run (places : Places) (a : Arguments) (w : Workspace) :
    (Config.resolve host.look places a).run w =
      (Id.run (Config.resolve (m := Id) (w.tree.look w.current) places a), w) := by
  rw [Config.resolve, Config.resolve, Config.gather, Config.gather, Config.lookForUser,
    Config.lookForUser, Config.lookForProject, Config.lookForProject]
  cases places.userFile? <;> cases a.config <;> rfl

/-- **What a run of the command has to deliver**: the conversion of the program that the arguments name,
with the settings that are resolved for it. -/
structure Converts (w : Workspace) (places : Places) (argv : List Text) (a : Arguments)
    (config : Config) (program : Text) (out : List Text) : Prop where
  parsed : Arguments.parse argv = .ok a
  resolved : Id.run (Config.resolve (m := Id) (w.tree.look w.current) places a) = .ok config
  read : w.programAt (Config.inputOf a) = some program
  converted : Converter.IsConversion (config.settingsFor program) (some program) w.time out

/-- The command owes a conversion to the sink that the arguments name, and the report on it. -/
def Owes (w : Workspace) (places : Places) (argv : List Text) (sink : Option Text) (t report : Text) :
    Prop :=
  ∃ a config program out, w.Converts places argv a config program out ∧
    Config.outputOf a = .ok sink ∧ t = Text.unlines out ∧
    report = ((Statistics.ofProgram program).withOutput out).reportText config.report

/-- There is at most one text to deliver, with one sink and one report. -/
lemma Owes.unique {places : Places} {argv : List Text} {sink' : Option Text} {t' report' : Text}
    (h : w.Owes places argv sink t report) (h' : w.Owes places argv sink' t' report') :
    sink = sink' ∧ t = t' ∧ report = report' := by
  obtain ⟨a, config, program, out, hconverts, hsink, rfl, rfl⟩ := h
  obtain ⟨a', config', program', out', hconverts', hsink', rfl, rfl⟩ := h'
  obtain rfl := Except.ok.inj (hconverts.parsed.symm.trans hconverts'.parsed)
  obtain rfl := Except.ok.inj (hconverts.resolved.symm.trans hconverts'.resolved)
  obtain rfl := Option.some.inj (hconverts.read.symm.trans hconverts'.read)
  obtain rfl := hconverts.converted.unique hconverts'.converted
  exact ⟨Except.ok.inj (hsink.symm.trans hsink'), rfl, rfl⟩

lemma run_settles (places : Places) (argv : List Text) (w : Workspace)
    (hhelp : Arguments.parse argv ≠ .error .help)
    (hversion : Arguments.parse argv ≠ .error .version) :
    Settles w (w.Owes places argv) (w.run places argv) := by
  rw [run, Command.run]
  cases hparse : Arguments.parse argv with
  | error stop =>
      cases stop with
      | help => exact absurd hparse hhelp
      | version => exact absurd hparse hversion
      | misuse e =>
          refine .stopped ?_ (by simp [Exit.code]) rfl rfl
          rintro sink t report ⟨a, config, program, out, hconverts, -⟩
          cases hparse.symm.trans hconverts.parsed
  | ok a =>
      simp only [run_bind_of_run_eq (resolve_run places a w)]
      cases hresolve : Id.run (Config.resolve (m := Id) (w.tree.look w.current) places a) with
      | error e =>
          refine .stopped ?_ (by simp [Exit.code]) rfl rfl
          rintro sink t report ⟨a', config, program, out, hconverts, -⟩
          obtain rfl := Except.ok.inj (hparse.symm.trans hconverts.parsed)
          cases hresolve.symm.trans hconverts.resolved
      | ok config =>
          obtain ⟨hinput, houtput⟩ := Config.input_output_of_resolve hresolve
          -- Arguments and configuration are known by now, so the rest owes what the command owes.
          refine (runWith_run config w).congr fun sink t report => ⟨?_, ?_⟩
          · rintro ⟨rfl, program, hread, out, hout, rfl, rfl⟩
            exact ⟨a, config, program, out, ⟨hparse, hresolve, hinput ▸ hread, hout⟩, houtput, rfl, rfl⟩
          · rintro ⟨a', config', program, out, hconverts, hsink, rfl, rfl⟩
            obtain rfl := Except.ok.inj (hparse.symm.trans hconverts.parsed)
            obtain rfl := Except.ok.inj (hresolve.symm.trans hconverts.resolved)
            obtain rfl := Except.ok.inj (houtput.symm.trans hsink)
            exact ⟨rfl, program, hinput ▸ hconverts.read, out, hconverts.converted, rfl, rfl⟩

end Workspace

end DrillCycles
