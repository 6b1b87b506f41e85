import DrillCycles.Proofs.Modeline.Patterns

/-!
# The search for a modeline

Which line of a program is its modeline, said without scanning.

**Lines.**  `IsModeline` is a comment with a mark behind its first character; `HasSettings` adds the
settings, which stand behind the last mark.  `settingsText?_eq_some_iff` says that `settingsText?` decides
both.

**The window.**  `IsSearched` are the places that are looked at, counted from either end, and
`window_eq` says that these lines are looked at in their order, each of them once.  `IsFound` is the first
modeline among them (`find?_eq_some_iff`).

**Main result.**  `modeline_window` says what a program's layer is, and that the lines between the two
parts of the window have no part in it.
-/

namespace DrillCycles.Modeline

variable {t line body settings program : Text} {lines : List Text} {layer : Layer}

/-! ### Marks -/

/-- A mark stands in the text, and not in the middle of a word. -/
structure MarkedAt (body before behind : Text) : Prop where
  text : body = before ++ mark ++ behind
  boundary : ∃ c, before.getLast? = some c ∧ isWordCharacter c = false

/-- The last mark of a text. -/
structure IsLastMark (body before behind : Text) : Prop extends MarkedAt body before behind where
  last : ∀ before' behind', MarkedAt body before' behind' → before'.length ≤ before.length

/-- A comment starts at the first character that is no blank. -/
structure IsComment (line body : Text) : Prop where
  blanks : ∃ lead, line = lead ++ body ∧ ∀ c ∈ lead, isBlank c = true
  opening : ∃ rest, body = ';' :: rest ∨ body = '(' :: rest

/-- **A modeline** is a comment with a mark behind its first character. -/
def IsModeline (line : Text) : Prop :=
  ∃ body before behind, IsComment line body ∧ MarkedAt body before behind

/-- **The settings of a modeline** stand behind the last mark and the blanks there, up to the first closing
parenthesis. -/
def HasSettings (line settings : Text) : Prop :=
  ∃ body before behind, IsComment line body ∧ IsLastMark body before behind ∧
    settings = (Text.trimStart behind).takeWhile (· != ')')

lemma HasSettings.isModeline (h : HasSettings line settings) : IsModeline line := by
  obtain ⟨body, before, behind, hcomment, hlast, -⟩ := h
  exact ⟨body, before, behind, hcomment, hlast.toMarkedAt⟩

lemma not_markedAt_singleton {c : Char} {before behind : Text} : ¬ MarkedAt [c] before behind := by
  intro h
  have hlength := congrArg List.length h.text
  simp [mark] at hlength
  omega

/-- A mark stands directly behind the first character, or further behind. -/
lemma markedAt_cons_cons_iff {c d : Char} {before behind : Text} :
    MarkedAt (c :: d :: t) before behind ↔
      (before = [c] ∧ d :: t = mark ++ behind ∧ isWordCharacter c = false) ∨
      ∃ before', before = c :: before' ∧ MarkedAt (d :: t) before' behind := by
  constructor
  · rintro ⟨htext, e, hlast, hboundary⟩
    cases before with
    | nil => cases hlast
    | cons b before =>
        rw [List.cons_append, List.cons_append, List.cons.injEq] at htext
        obtain ⟨rfl, htext⟩ := htext
        cases before with
        | nil =>
            obtain rfl := Option.some.inj hlast
            exact Or.inl ⟨rfl, by simpa using htext, hboundary⟩
        | cons b before =>
            refine Or.inr ⟨_, rfl, htext, e, ?_, hboundary⟩
            rwa [List.getLast?_cons_cons] at hlast
  · rintro (⟨rfl, htext, hboundary⟩ | ⟨before', rfl, htext, e, hlast, hboundary⟩)
    · exact ⟨by rw [htext]; rfl, c, rfl, hboundary⟩
    · refine ⟨by rw [htext]; rfl, e, ?_, hboundary⟩
      rw [List.getLast?_cons, hlast]
      rfl

/-- What stands behind the last mark is found, if there is a mark. -/
lemma behindLastMark_cases (c : Char) (t : Text) :
    (behindLastMark none c t = none ∧ ∀ before behind, ¬ MarkedAt (c :: t) before behind) ∨
    ∃ before behind, behindLastMark none c t = some behind ∧ IsLastMark (c :: t) before behind := by
  induction t generalizing c with
  | nil => exact Or.inl ⟨rfl, fun _ _ => not_markedAt_singleton⟩
  | cons d t ih =>
      rw [behindLastMark_cons]
      rcases ih d with ⟨hnone, hunmarked⟩ | ⟨before, behind, hfound, hlast⟩
      · rw [hnone, Option.none_or]
        have hfirst : ∀ before behind, MarkedAt (c :: d :: t) before behind →
            before = [c] ∧ d :: t = mark ++ behind ∧ isWordCharacter c = false := fun before behind h =>
          (markedAt_cons_cons_iff.mp h).resolve_right fun ⟨before', _, h'⟩ => hunmarked before' behind h'
        split
        · next hmark =>
            rw [Bool.and_eq_true, List.isPrefixOf_iff_prefix, Bool.not_eq_true'] at hmark
            obtain ⟨⟨behind, htext⟩, hboundary⟩ := hmark
            have hdrop : t.drop (mark.length - 1) = behind := by
              rw [mark, List.cons_append, List.cons.injEq] at htext
              rw [← htext.2]
              rfl
            refine Or.inr ⟨[c], behind, by rw [hdrop], ⟨?_, fun before' behind' h => ?_⟩⟩
            · exact markedAt_cons_cons_iff.mpr (Or.inl ⟨rfl, htext.symm, hboundary⟩)
            · rw [(hfirst before' behind' h).1]
        · next hmark =>
            refine Or.inl ⟨rfl, fun before behind h => hmark ?_⟩
            obtain ⟨-, htext, hboundary⟩ := hfirst before behind h
            rw [Bool.and_eq_true, List.isPrefixOf_iff_prefix, htext, hboundary]
            exact ⟨List.prefix_append _ _, rfl⟩
      · rw [hfound, Option.some_or]
        refine Or.inr ⟨c :: before, behind, rfl, ⟨?_, fun before' behind' h => ?_⟩⟩
        · exact markedAt_cons_cons_iff.mpr (Or.inr ⟨before, rfl, hlast.toMarkedAt⟩)
        · rcases markedAt_cons_cons_iff.mp h with ⟨rfl, -⟩ | ⟨before'', rfl, h'⟩
          · exact Nat.succ_le_succ (Nat.zero_le _)
          · exact Nat.succ_le_succ (hlast.last before'' behind' h')

/-! ### Lines -/

/-- A line has one comment at most, and trimming finds it. -/
lemma IsComment.eq_trimStart (h : IsComment line body) : body = line.trimStart := by
  obtain ⟨⟨lead, rfl, hlead⟩, rest, hopening⟩ := h
  have hblank : isBlank ';' = false ∧ isBlank '(' = false := by decide
  rw [Text.trimStart, List.dropWhile_append_of_pos hlead]
  rcases hopening with rfl | rfl
  · rw [List.dropWhile_cons_of_neg (by rw [hblank.1]; exact Bool.false_ne_true)]
  · rw [List.dropWhile_cons_of_neg (by rw [hblank.2]; exact Bool.false_ne_true)]

lemma isComment_trimStart {c : Char} {rest : Text} (h : line.trimStart = c :: rest)
    (hopening : c = ';' ∨ c = '(') : IsComment line (c :: rest) := by
  refine ⟨⟨line.takeWhile isBlank, ?_, fun d hd => List.mem_takeWhile_imp hd⟩, rest, ?_⟩
  · rw [← h]
    exact List.takeWhile_append_dropWhile.symm
  · rcases hopening with rfl | rfl <;> simp

/-- **A line is read as the modeline that it is**, or as none. -/
theorem settingsText?_cases (line : Text) : (settingsText? line = none ∧ ¬ IsModeline line) ∨
    ∃ settings, settingsText? line = some settings ∧ HasSettings line settings := by
  rw [settingsText?]
  cases htrim : line.trimStart with
  | nil =>
      refine Or.inl ⟨rfl, ?_⟩
      rintro ⟨body, -, -, hcomment, -⟩
      obtain ⟨rest, hopening⟩ := hcomment.opening
      rw [hcomment.eq_trimStart, htrim] at hopening
      simp at hopening
  | cons c rest =>
      dsimp only
      split
      · next hopening =>
          rw [Bool.or_eq_true, decide_eq_true_eq, decide_eq_true_eq] at hopening
          rcases behindLastMark_cases c rest with ⟨hnone, hunmarked⟩ | ⟨before, behind, hfound, hlast⟩
          · rw [hnone]
            refine Or.inl ⟨rfl, ?_⟩
            rintro ⟨body, before, behind, hcomment, hmarked⟩
            rw [hcomment.eq_trimStart, htrim] at hmarked
            exact hunmarked before behind hmarked
          · rw [hfound]
            exact Or.inr ⟨_, rfl, _, before, behind, isComment_trimStart htrim hopening, hlast, rfl⟩
      · next hopening =>
          refine Or.inl ⟨rfl, ?_⟩
          rintro ⟨body, -, -, hcomment, -⟩
          obtain ⟨rest', hcons⟩ := hcomment.opening
          rw [hcomment.eq_trimStart, htrim, List.cons.injEq, List.cons.injEq] at hcons
          rw [Bool.or_eq_true, decide_eq_true_eq, decide_eq_true_eq] at hopening
          exact hopening (hcons.imp And.left And.left)

theorem settingsText?_eq_none_iff : settingsText? line = none ↔ ¬ IsModeline line := by
  rcases settingsText?_cases line with ⟨hnone, hmodeline⟩ | ⟨settings, hsome, hsettings⟩
  · exact iff_of_true hnone hmodeline
  · rw [hsome]
    exact iff_of_false nofun fun h => h hsettings.isModeline

/-- There is one last mark, so a line has one text of settings. -/
lemma HasSettings.unique {settings' : Text} (h : HasSettings line settings)
    (h' : HasSettings line settings') : settings = settings' := by
  obtain ⟨body, before, behind, hcomment, hlast, rfl⟩ := h
  obtain ⟨body', before', behind', hcomment', hlast', rfl⟩ := h'
  obtain rfl : body = body' := hcomment.eq_trimStart.trans hcomment'.eq_trimStart.symm
  have hlength := (hlast'.last _ _ hlast.toMarkedAt).antisymm (hlast.last _ _ hlast'.toMarkedAt)
  have htext := hlast.text.symm.trans hlast'.text
  rw [List.append_assoc, List.append_assoc] at htext
  have hbehind := List.append_cancel_left (List.append_inj htext hlength).2
  rw [hbehind]

theorem settingsText?_eq_some_iff : settingsText? line = some settings ↔ HasSettings line settings := by
  rcases settingsText?_cases line with ⟨hnone, hmodeline⟩ | ⟨settings', hsome, hsettings⟩
  · rw [hnone]
    exact iff_of_false nofun fun h => hmodeline h.isModeline
  · rw [hsome, Option.some.injEq]
    exact ⟨fun heq => heq ▸ hsettings, hsettings.unique⟩

/-! ### The window -/

/-- The places that are searched in a program with so many lines: the first ones and the last ones. -/
def IsSearched (count i : ℕ) : Prop :=
  i < windowSize ∨ count ≤ i + windowSize

instance (count i : ℕ) : Decidable (IsSearched count i) :=
  inferInstanceAs (Decidable (_ ∨ _))

/-- The lines at the places that are searched, in their order and each of them once. -/
def searchedLines (lines : List Text) : List Text :=
  (lines.zipIdx.filter fun entry => IsSearched lines.length entry.2).map Prod.fst

lemma filter_zipIdx {count : ℕ} (lines : List Text) (k : ℕ) :
    ((∀ i, k ≤ i → i < k + lines.length → IsSearched count i) →
      (lines.zipIdx k).filter (fun entry => IsSearched count entry.2) = lines.zipIdx k) ∧
    ((∀ i, k ≤ i → i < k + lines.length → ¬ IsSearched count i) →
      (lines.zipIdx k).filter (fun entry => IsSearched count entry.2) = []) := by
  refine ⟨fun h => List.filter_eq_self.mpr ?_, fun h => List.filter_eq_nil_iff.mpr ?_⟩ <;>
    rintro ⟨line, i⟩ hmem <;> obtain ⟨hlow, hhigh, -⟩ := List.mem_zipIdx hmem
  · exact decide_eq_true (h i hlow hhigh)
  · rw [decide_eq_true_eq]
    exact h i hlow hhigh

/-- **The window** are the lines that are searched. -/
theorem window_eq (lines : List Text) : window lines = searchedLines lines := by
  rw [window, searchedLines]
  split
  · next hshort =>
      rw [(filter_zipIdx lines 0).1 fun i _ hi => ?_, List.zipIdx_map_fst]
      rw [IsSearched]
      omega
  · next hlong =>
      -- The lines in front of the middle ones, the middle ones, and those behind them.
      set front := lines.take windowSize with hfront
      set middle := (lines.drop windowSize).take (lines.length - 2 * windowSize) with hmiddle
      set back := lines.drop (lines.length - windowSize) with hback
      have hbehind : (lines.drop windowSize).drop (lines.length - 2 * windowSize) = back := by
        rw [List.drop_drop, hback]
        congr 1
        omega
      have hsplit : lines = front ++ (middle ++ back) := by
        rw [hfront, hmiddle, ← hbehind, List.take_append_drop, List.take_append_drop]
      have hlength : front.length = windowSize ∧ middle.length = lines.length - 2 * windowSize ∧
          back.length = windowSize := by
        rw [hfront, hmiddle, hback, List.length_take, List.length_take, List.length_drop,
          List.length_drop]
        omega
      obtain ⟨hfrontLength, hmiddleLength, hbackLength⟩ := hlength
      have hentries : lines.zipIdx = front.zipIdx ++ (middle.zipIdx (0 + front.length) ++
          back.zipIdx (0 + front.length + middle.length)) := by
        conv_lhs => rw [hsplit]
        rw [List.zipIdx_append, List.zipIdx_append]
      rw [hentries, List.filter_append, List.filter_append, (filter_zipIdx front 0).1 fun i _ hi => ?_,
        (filter_zipIdx middle _).2 fun i hlow hhigh => ?_,
        (filter_zipIdx back _).1 fun i hlow hhigh => ?_, List.nil_append, List.map_append,
        List.zipIdx_map_fst, List.zipIdx_map_fst]
      all_goals
        rw [IsSearched]
        omega

/-- **The first modeline** of some lines, among those that are searched. -/
structure IsFound (lines : List Text) (i : ℕ) (line : Text) : Prop where
  place : lines[i]? = some line
  searched : IsSearched lines.length i
  modeline : IsModeline line
  first : ∀ j < i, ∀ other, lines[j]? = some other → IsSearched lines.length j → ¬ IsModeline other

/-- What a search finds is found at the first place where there is something to find. -/
lemma findSome?_eq_some_iff_getElem? {α β : Type} {f : α → Option β} {l : List α} {b : β} :
    l.findSome? f = some b ↔ ∃ (i : ℕ) (a : α), l[i]? = some a ∧ f a = some b ∧
      ∀ j < i, ∀ a', l[j]? = some a' → f a' = none := by
  rw [List.findSome?_eq_some_iff]
  constructor
  · rintro ⟨before, a, after, rfl, hfound, hbefore⟩
    refine ⟨before.length, a, by simp, hfound, fun j hj a' ha' => hbefore a' ?_⟩
    rw [List.getElem?_append_left hj] at ha'
    exact List.mem_of_getElem? ha'
  · rintro ⟨i, a, hi, hfound, hfirst⟩
    obtain ⟨hlt, rfl⟩ := List.getElem?_eq_some_iff.mp hi
    refine ⟨l.take i, l[i], l.drop (i + 1), ?_, hfound, fun a' ha' => ?_⟩
    · rw [← List.drop_eq_getElem_cons hlt, List.take_append_drop]
    · obtain ⟨j, hj, rfl⟩ := List.mem_take_iff_getElem.mp ha'
      exact hfirst j (by omega) _ (List.getElem?_eq_getElem _)

/-- What is read of the window, line by line. -/
lemma findSome?_window {β : Type} (read : Text → Option β) (lines : List Text) :
    (window lines).findSome? read = lines.zipIdx.findSome? fun entry =>
      if IsSearched lines.length entry.2 then read entry.1 else none := by
  rw [window_eq, searchedLines, List.findSome?_map]
  induction lines.zipIdx with
  | nil => rfl
  | cons entry entries ih =>
      rw [List.filter_cons, List.findSome?_cons]
      by_cases hsearched : IsSearched lines.length entry.2
      · rw [if_pos (decide_eq_true hsearched), if_pos hsearched, List.findSome?_cons, ih]
        rfl
      · rw [if_neg (by simpa using hsearched), if_neg hsearched, ih]

/-- **The search finds the first modeline**, with its settings. -/
theorem find?_eq_some_iff : find? program = some settings ↔
    ∃ i line, IsFound (Text.terminatedLines program) i line ∧ HasSettings line settings := by
  set lines := Text.terminatedLines program with hlines
  rw [find?, ← hlines, findSome?_window, findSome?_eq_some_iff_getElem?]
  constructor
  · rintro ⟨i, ⟨line, k⟩, hplace, hread, hfirst⟩
    rw [List.getElem?_zipIdx, Option.map_eq_some_iff] at hplace
    obtain ⟨line, hline, hentry⟩ := hplace
    rw [Nat.zero_add, Prod.mk.injEq] at hentry
    obtain ⟨rfl, rfl⟩ := hentry
    obtain ⟨hsearched, hsettings⟩ : IsSearched lines.length i ∧ HasSettings line settings := by
      by_cases hsearched : IsSearched lines.length i
      · rw [if_pos hsearched] at hread
        exact ⟨hsearched, settingsText?_eq_some_iff.mp hread⟩
      · rw [if_neg hsearched] at hread
        cases hread
    refine ⟨i, line, ⟨hline, hsearched, hsettings.isModeline, fun j hj other hother hsearched' => ?_⟩,
      hsettings⟩
    have hnone := hfirst j hj (other, j) (by rw [List.getElem?_zipIdx, hother, Nat.zero_add]; rfl)
    rw [if_pos hsearched'] at hnone
    exact settingsText?_eq_none_iff.mp hnone
  · rintro ⟨i, line, hfound, hsettings⟩
    refine ⟨i, (line, i), ?_, ?_, ?_⟩
    · rw [List.getElem?_zipIdx, hfound.place, Nat.zero_add]
      rfl
    · rw [if_pos hfound.searched]
      exact settingsText?_eq_some_iff.mpr hsettings
    · rintro j hj ⟨other, k⟩ hplace
      rw [List.getElem?_zipIdx, Option.map_eq_some_iff] at hplace
      obtain ⟨other, hother, hentry⟩ := hplace
      rw [Nat.zero_add, Prod.mk.injEq] at hentry
      obtain ⟨rfl, rfl⟩ := hentry
      dsimp only
      split
      · next hsearched =>
          exact settingsText?_eq_none_iff.mpr (hfound.first j hj other hother hsearched)
      · rfl

theorem find?_eq_none_iff : find? program = none ↔
    ∀ (i : ℕ) (line : Text), (Text.terminatedLines program)[i]? = some line →
      IsSearched (Text.terminatedLines program).length i → ¬ IsModeline line := by
  rw [find?, findSome?_window, List.findSome?_eq_none_iff]
  constructor
  · intro h i line hline hsearched
    have hentry : (line, i) ∈ (Text.terminatedLines program).zipIdx :=
      List.mk_mem_zipIdx_iff_getElem?.mpr hline
    have hnone := h (line, i) hentry
    rw [if_pos hsearched] at hnone
    exact settingsText?_eq_none_iff.mp hnone
  · rintro h ⟨line, i⟩ hentry
    dsimp only
    split
    · next hsearched =>
        exact settingsText?_eq_none_iff.mpr
          (h i line (List.mk_mem_zipIdx_iff_getElem?.mp hentry) hsearched)
    · rfl

theorem layer?_eq_some_iff : layer? program = some layer ↔
    ∃ (i : ℕ) (line settings : Text), IsFound (Text.terminatedLines program) i line ∧
      HasSettings line settings ∧ layer = layerOf settings := by
  rw [layer?, Option.map_eq_some_iff]
  constructor
  · rintro ⟨settings, hfind, rfl⟩
    obtain ⟨i, line, hfound, hsettings⟩ := find?_eq_some_iff.mp hfind
    exact ⟨i, line, settings, hfound, hsettings, rfl⟩
  · rintro ⟨i, line, settings, hfound, hsettings, rfl⟩
    exact ⟨settings, find?_eq_some_iff.mpr ⟨i, line, hfound, hsettings⟩, rfl⟩

/-! ### Between the two parts of the window -/

/-- The window of either list is full, and its lines are the same. -/
structure AgreeAtEnds (lines lines' : List Text) : Prop where
  long : 2 * windowSize ≤ lines.length ∧ 2 * windowSize ≤ lines'.length
  first : lines.take windowSize = lines'.take windowSize
  last : lines.drop (lines.length - windowSize) = lines'.drop (lines'.length - windowSize)

/-- A window that is full consists of the first lines and the last ones, also if there are no others. -/
lemma window_of_long (h : 2 * windowSize ≤ lines.length) :
    window lines = lines.take windowSize ++ lines.drop (lines.length - windowSize) := by
  rw [window]
  split
  · have hlength : lines.length - windowSize = windowSize := by omega
    rw [hlength, List.take_append_drop]
  · rfl

lemma AgreeAtEnds.window_eq {lines' : List Text} (h : AgreeAtEnds lines lines') :
    window lines = window lines' := by
  rw [window_of_long h.long.1, window_of_long h.long.2, h.first, h.last]

/-- **The search for the modeline.**  All lines of the window are looked at, each of them once and in
their order, and no others.  The layer of a program is that of the first modeline there, even if it sets
nothing, and a program without a modeline there has none.  So two programs of which these lines are the
same have the same layer, and there is the same to tell about it. -/
theorem modeline_window (program : Text) :
    window (Text.terminatedLines program) = searchedLines (Text.terminatedLines program) ∧
    (∀ layer, layer? program = some layer ↔
      ∃ (i : ℕ) (line settings : Text), IsFound (Text.terminatedLines program) i line ∧
        HasSettings line settings ∧ layer = layerOf settings) ∧
    (layer? program = none ↔
      ∀ (i : ℕ) (line : Text), (Text.terminatedLines program)[i]? = some line →
        IsSearched (Text.terminatedLines program).length i → ¬ IsModeline line) ∧
    ∀ other, AgreeAtEnds (Text.terminatedLines program) (Text.terminatedLines other) →
      layer? other = layer? program ∧ notices other = notices program := by
  refine ⟨window_eq _, fun layer => layer?_eq_some_iff, ?_, fun other hagree => ?_⟩
  · rw [layer?, Option.map_eq_none_iff]
    exact find?_eq_none_iff
  · have hfind : find? other = find? program := by rw [find?, find?, hagree.window_eq]
    rw [layer?, layer?, notices, notices, hfind]
    exact ⟨rfl, rfl⟩

/-- A program of ten lines, with others put into its middle. -/
def programAround (middle : Text) : Text :=
  "%\n(PLATE)\nG90\n ; xccx: ccx:\nG0 X0\n".toList ++ middle ++
    "(ccx: precision=2)\nG0 X1\nM5\nM2\n%".toList

/-- The modeline of the fourth line sets nothing, but it is the first one.  What is put into the middle is
not looked at. -/
theorem modeline_window_firstOfTwo :
    let lines := Text.terminatedLines (programAround [])
    let lines' := Text.terminatedLines (programAround "; ccx: precision=3\n\nM8\n".toList)
    AgreeAtEnds lines lines' ∧ lines.length = 10 ∧ lines'.length = 13 ∧
    IsFound lines 3 " ; xccx: ccx:".toList ∧ layer? (programAround []) = some {} ∧
    layer? (programAround "; ccx: precision=3\n\nM8\n".toList) = some {} := by
  intro lines lines'
  have hagree : AgreeAtEnds lines lines' := ⟨by decide, by decide, by decide⟩
  obtain ⟨-, -, -, hsame⟩ := modeline_window (programAround [])
  have hlayer : layer? (programAround []) = some {} := by decide +kernel
  refine ⟨hagree, by decide, by decide, ?_, hlayer, (hsame _ hagree).1.trans hlayer⟩
  have hsettings : HasSettings " ; xccx: ccx:".toList [] :=
    settingsText?_eq_some_iff.mp (by decide +kernel)
  refine ⟨by decide, by decide, hsettings.isModeline, fun j hj other hother _ => ?_⟩
  have hbefore : (lines.take 3).all (fun other => settingsText? other = none) = true := by
    decide +kernel
  refine settingsText?_eq_none_iff.mp (of_decide_eq_true (List.all_eq_true.mp hbefore other ?_))
  exact List.mem_of_getElem? ((List.getElem?_take_of_lt hj).trans hother)

end DrillCycles.Modeline
