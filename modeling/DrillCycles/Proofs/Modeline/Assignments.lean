import DrillCycles.Proofs.Latest
import DrillCycles.Proofs.Modeline.Search

/-!
# What a modeline sets

The settings of a modeline are pairs of a key and a value, and each of them is looked at on its own.

**One pair.**  `Assignment.IsAccepted` are the pairs that set something, and `Assignment.IsRefused` the
others, each with what is wrong with it.  `Assignment.parse` tells them apart (`parse_eq_ok_iff`,
`parse_eq_error_iff`).

**All pairs.**  One more pair that is accepted decides its own setting, and no other one; one that is
refused decides nothing.  So each setting is as the latest accepted pair for it says
(`isLatest_foldl_addPair`), and what is told are the refused pairs (`isReport_filterMap`).

**Main result.**  `modeline_settings` puts this behind the search for the modeline.
-/

namespace DrillCycles

/-! ### One pair -/

namespace Assignment

variable {key value : Text} {reason : SettingError}

/-- The two keys of one setting. -/
def suppressionKeys : List Text :=
  ["suppress_duplicates".toList, "suppress_duplicate_lines".toList]

/-- What a dwell unit may be called, in lower case. -/
def unitNames : DwellUnit → List Text
  | .seconds => ["s".toList, "sec".toList, "seconds".toList]
  | .milliseconds => ["ms".toList, "milliseconds".toList]

/-- Decimal digits of a number that is not too large. -/
structure AreDigitsOf (digits : Text) (n : ℕ) : Prop where
  ne_nil : digits ≠ []
  isDigit : ∀ c ∈ digits, c.isDigit = true
  value : Nat.ofDigitChars 10 digits 0 = n
  small : n ≤ maxCount

/-- A count is written with decimal digits, perhaps behind a plus sign. -/
def IsCount (value : Text) (n : ℕ) : Prop :=
  ∃ digits, (value = digits ∨ value = '+' :: digits) ∧ AreDigitsOf digits n

/-- **The pairs that set something**, and what they set. -/
inductive IsAccepted : Text → Text → Assignment → Prop
  | suppressDuplicates {key : Text} (hkey : key ∈ suppressionKeys) (b : Bool) :
      IsAccepted key (Notice.boolText b) (.suppressDuplicates b)
  | dwellUnit {value : Text} {unit : DwellUnit} (hvalue : value.map Char.toLower ∈ unitNames unit) :
      IsAccepted "dwell_unit".toList value (.dwellUnit unit)
  | precision {value : Text} {n : ℕ} (hvalue : IsCount value n) :
      IsAccepted "precision".toList value (.precision n)

/-- **The pairs that set nothing**, and what is wrong with them. -/
inductive IsRefused : Text → Text → SettingError → Prop
  | notBoolean {key value : Text} (hkey : key ∈ suppressionKeys)
      (hvalue : ∀ b, value ≠ Notice.boolText b) : IsRefused key value (.notBoolean value)
  | unknownDwellUnit {value : Text} (hvalue : ∀ unit, value.map Char.toLower ∉ unitNames unit) :
      IsRefused "dwell_unit".toList value (.unknownDwellUnit (value.map Char.toLower))
  | notPrecision {value : Text} (hvalue : ∀ n, ¬ IsCount value n) :
      IsRefused "precision".toList value (.notPrecision value)
  | unknownKey {key value : Text} (hsuppression : key ∉ suppressionKeys)
      (hunit : key ≠ "dwell_unit".toList) (hprecision : key ≠ "precision".toList) :
      IsRefused key value (.unknownKey key)

lemma parseBool_eq_ok_iff {b : Bool} : parseBool value = .ok b ↔ value = Notice.boolText b := by
  rw [parseBool]
  split
  · next h => cases b <;> simp [h, Notice.boolText]
  · next h =>
      split
      · next h' => cases b <;> simp [h', Notice.boolText]
      · next h' => cases b <;> simpa [Notice.boolText]

lemma eq_of_parseBool_eq_error (h : parseBool value = .error reason) : reason = .notBoolean value := by
  rw [parseBool] at h
  split at h
  · cases h
  · split at h <;> cases h
    rfl

lemma ofLowerCase?_eq_some_iff {unit : DwellUnit} :
    DwellUnit.ofLowerCase? value = some unit ↔ value ∈ unitNames unit := by
  constructor
  · intro h
    rw [DwellUnit.ofLowerCase?, DwellUnit.ofName?] at h
    split at h
    · next hshort =>
        cases h
        rw [Bool.or_eq_true, decide_eq_true_eq, decide_eq_true_eq] at hshort
        exact List.mem_append_left ["seconds".toList] (List.mem_pair.mpr hshort)
    · split at h
      · next hshort =>
          cases h
          exact List.mem_cons.mpr (Or.inl hshort)
      · split at h
        · next hlong =>
            cases h
            exact List.mem_append_right ["s".toList, "sec".toList] (List.mem_singleton.mpr hlong)
        · split at h <;> cases h
          next hlong => exact List.mem_pair.mpr (Or.inr hlong)
  · intro h
    cases unit with
    | seconds =>
        rcases List.mem_cons.mp h with rfl | h
        · rfl
        · rcases List.mem_pair.mp h with rfl | rfl <;> rfl
    | milliseconds => rcases List.mem_pair.mp h with rfl | rfl <;> rfl

lemma parseUnit_eq_ok_iff {unit : DwellUnit} :
    DwellUnit.parse value = .ok unit ↔ value.map Char.toLower ∈ unitNames unit := by
  rw [← ofLowerCase?_eq_some_iff, DwellUnit.parse]
  split
  · next h => rw [h, Except.ok.injEq, Option.some.injEq]
  · next h => rw [h]; simp

lemma eq_of_parseUnit_eq_error (h : DwellUnit.parse value = .error reason) :
    reason = .unknownDwellUnit (value.map Char.toLower) := by
  rw [DwellUnit.parse] at h
  split at h <;> cases h
  rfl

/-- What follows a plus sign, if there is one. -/
def behindPlus : Text → Text
  | '+' :: rest => rest
  | t => t

lemma behindPlus_of_ne (h : ∀ rest, value ≠ '+' :: rest) : behindPlus value = value := by
  unfold behindPlus
  split
  · next rest => exact absurd rfl (h rest)
  · rfl

lemma parseCount?_eq_some_iff {n : ℕ} :
    parseCount? value = some n ↔ AreDigitsOf (behindPlus value) n := by
  have hread : parseCount? value =
      if (behindPlus value).isEmpty || !(behindPlus value).all Char.isDigit then none
      else if Nat.ofDigitChars 10 (behindPlus value) 0 ≤ maxCount then
        some (Nat.ofDigitChars 10 (behindPlus value) 0) else none := by
    unfold parseCount?
    split
    · rfl
    · next h => rw [behindPlus_of_ne h]
  rw [hread]
  constructor
  · intro h
    split at h
    · cases h
    · next hdigits =>
        rw [Bool.or_eq_true, Bool.not_eq_true', not_or, List.isEmpty_iff, Bool.not_eq_false,
          List.all_eq_true] at hdigits
        split at h
        · next hsmall =>
            cases h
            exact ⟨hdigits.1, hdigits.2, rfl, hsmall⟩
        · cases h
  · rintro ⟨hne, hdigits, rfl, hsmall⟩
    rw [if_neg, if_pos hsmall]
    rw [Bool.or_eq_true, Bool.not_eq_true', not_or, List.isEmpty_iff, Bool.not_eq_false,
      List.all_eq_true]
    exact ⟨hne, hdigits⟩

/-- A plus sign is no digit, so there is one way to read a count. -/
lemma isCount_iff {n : ℕ} : IsCount value n ↔ parseCount? value = some n := by
  rw [parseCount?_eq_some_iff]
  constructor
  · rintro ⟨digits, rfl | rfl, h⟩
    · rw [behindPlus_of_ne]
      · exact h
      · rintro rest rfl
        exact absurd (h.isDigit '+' List.mem_cons_self) (by decide)
    · exact h
  · intro h
    refine ⟨behindPlus value, ?_, h⟩
    unfold behindPlus
    split
    · exact Or.inr rfl
    · exact Or.inl rfl

lemma parsePrecision_eq_ok_iff {n : ℕ} : parsePrecision value = .ok n ↔ IsCount value n := by
  rw [isCount_iff, parsePrecision]
  split
  · next h => rw [h, Except.ok.injEq, Option.some.injEq]
  · next h => rw [h]; simp

lemma eq_of_parsePrecision_eq_error (h : parsePrecision value = .error reason) :
    reason = .notPrecision value := by
  rw [parsePrecision] at h
  split at h <;> cases h
  rfl

lemma map_eq_ok_iff {ε α β : Type} {f : α → β} {x : Except ε α} {b : β} :
    x.map f = .ok b ↔ ∃ a, x = .ok a ∧ f a = b := by
  cases x <;> simp [Except.map]

lemma map_eq_error_iff {ε α β : Type} {f : α → β} {x : Except ε α} {e : ε} :
    x.map f = .error e ↔ x = .error e := by
  cases x <;> simp [Except.map]

/-- A reader that fails in one way only fails where nothing is to be read. -/
lemma eq_error_iff {α : Type} {x : Except SettingError α} {e : SettingError} {Is : α → Prop}
    (hok : ∀ a, x = .ok a ↔ Is a) (herror : ∀ reason, x = .error reason → reason = e) :
    x = .error reason ↔ (∀ a, ¬ Is a) ∧ reason = e := by
  constructor
  · intro h
    refine ⟨fun a ha => ?_, herror reason h⟩
    rw [h] at hok
    exact absurd ((hok a).mpr ha) nofun
  · rintro ⟨hnone, rfl⟩
    cases x with
    | ok a => exact absurd ((hok a).mp rfl) (hnone a)
    | error reason' => rw [herror reason' rfl]

lemma parse_of_suppression (hkey : key ∈ suppressionKeys) :
    parse key value = (parseBool value).map .suppressDuplicates := by
  rw [parse, if_pos]
  rwa [Bool.or_eq_true, decide_eq_true_eq, decide_eq_true_eq, ← List.mem_pair]

lemma parse_of_unit : parse "dwell_unit".toList value = (DwellUnit.parse value).map .dwellUnit := rfl

lemma parse_of_precision : parse "precision".toList value = (parsePrecision value).map .precision := rfl

lemma parse_of_unknown (hsuppression : key ∉ suppressionKeys) (hunit : key ≠ "dwell_unit".toList)
    (hprecision : key ≠ "precision".toList) : parse key value = .error (.unknownKey key) := by
  rw [parse, if_neg, if_neg hunit, if_neg hprecision]
  rwa [Bool.or_eq_true, decide_eq_true_eq, decide_eq_true_eq, ← List.mem_pair]

/-- The keys are told apart, and every other text is no key. -/
lemma key_cases (key : Text) : key ∈ suppressionKeys ∨ key = "dwell_unit".toList ∨
    key = "precision".toList ∨
    key ∉ suppressionKeys ∧ key ≠ "dwell_unit".toList ∧ key ≠ "precision".toList := by
  tauto

/-- **A pair is read as what it sets.** -/
theorem parse_eq_ok_iff {a : Assignment} : parse key value = .ok a ↔ IsAccepted key value a := by
  constructor
  · intro h
    rcases key_cases key with hkey | rfl | rfl | ⟨hsuppression, hunit, hprecision⟩
    · rw [parse_of_suppression hkey, map_eq_ok_iff] at h
      obtain ⟨b, hb, rfl⟩ := h
      obtain rfl := parseBool_eq_ok_iff.mp hb
      exact .suppressDuplicates hkey b
    · rw [parse_of_unit, map_eq_ok_iff] at h
      obtain ⟨unit, hunit, rfl⟩ := h
      exact .dwellUnit (parseUnit_eq_ok_iff.mp hunit)
    · rw [parse_of_precision, map_eq_ok_iff] at h
      obtain ⟨n, hn, rfl⟩ := h
      exact .precision (parsePrecision_eq_ok_iff.mp hn)
    · rw [parse_of_unknown hsuppression hunit hprecision] at h
      cases h
  · intro h
    cases h with
    | suppressDuplicates hkey b =>
        rw [parse_of_suppression hkey, parseBool_eq_ok_iff.mpr rfl]
        rfl
    | dwellUnit hvalue =>
        rw [parse_of_unit, parseUnit_eq_ok_iff.mpr hvalue]
        rfl
    | precision hvalue =>
        rw [parse_of_precision, parsePrecision_eq_ok_iff.mpr hvalue]
        rfl

/-- **Every other pair is refused**, and the reason says what is wrong with it. -/
theorem parse_eq_error_iff : parse key value = .error reason ↔ IsRefused key value reason := by
  have hbool : parseBool value = .error reason ↔ _ :=
    eq_error_iff (fun _ => parseBool_eq_ok_iff) fun _ => eq_of_parseBool_eq_error
  have hunit : DwellUnit.parse value = .error reason ↔ _ :=
    eq_error_iff (fun _ => parseUnit_eq_ok_iff) fun _ => eq_of_parseUnit_eq_error
  have hcount : parsePrecision value = .error reason ↔ _ :=
    eq_error_iff (fun _ => parsePrecision_eq_ok_iff) fun _ => eq_of_parsePrecision_eq_error
  constructor
  · intro h
    rcases key_cases key with hkey | rfl | rfl | ⟨hkey, hkey', hkey''⟩
    · rw [parse_of_suppression hkey, map_eq_error_iff] at h
      obtain ⟨hvalue, rfl⟩ := hbool.mp h
      exact .notBoolean hkey hvalue
    · rw [parse_of_unit, map_eq_error_iff] at h
      obtain ⟨hvalue, rfl⟩ := hunit.mp h
      exact .unknownDwellUnit hvalue
    · rw [parse_of_precision, map_eq_error_iff] at h
      obtain ⟨hvalue, rfl⟩ := hcount.mp h
      exact .notPrecision hvalue
    · rw [parse_of_unknown hkey hkey' hkey''] at h
      cases h
      exact .unknownKey hkey hkey' hkey''
  · intro h
    cases h with
    | notBoolean hkey hvalue =>
        rw [parse_of_suppression hkey, map_eq_error_iff]
        exact hbool.mpr ⟨hvalue, rfl⟩
    | unknownDwellUnit hvalue =>
        rw [parse_of_unit, map_eq_error_iff]
        exact hunit.mpr ⟨hvalue, rfl⟩
    | notPrecision hvalue =>
        rw [parse_of_precision, map_eq_error_iff]
        exact hcount.mpr ⟨hvalue, rfl⟩
    | unknownKey hkey hkey' hkey'' => exact parse_of_unknown hkey hkey' hkey''

end Assignment

/-! ### All pairs -/

/-- One of the settings: how it is assigned, and where a layer keeps it. -/
structure Setting (β : Type) where
  assign : β → Assignment
  assigned? : Assignment → Option β
  read : Layer → Option β
  assigned?_eq_some_iff : ∀ a b, assigned? a = some b ↔ a = assign b
  read_empty : read {} = none
  read_apply : ∀ (a : Assignment) (layer : Layer), read (a.apply layer) = (assigned? a <|> read layer)

namespace Setting

def suppressDuplicates : Setting Bool where
  assign := .suppressDuplicates
  assigned? | .suppressDuplicates b => some b | _ => none
  read := Layer.suppressDuplicates
  assigned?_eq_some_iff a b := by cases a <;> simp
  read_empty := rfl
  read_apply a layer := by cases a <;> rfl

def dwellUnit : Setting DwellUnit where
  assign := .dwellUnit
  assigned? | .dwellUnit unit => some unit | _ => none
  read := Layer.dwellUnit
  assigned?_eq_some_iff a unit := by cases a <;> simp
  read_empty := rfl
  read_apply a layer := by cases a <;> rfl

def precision : Setting ℕ where
  assign := .precision
  assigned? | .precision n => some n | _ => none
  read := Layer.precision
  assigned?_eq_some_iff a n := by cases a <;> simp
  read_empty := rfl
  read_apply a layer := by cases a <;> rfl

end Setting

namespace Modeline

variable {ps : List (Text × Text)} {key value : Text}

/-- The pair at a place is accepted, and sets something. -/
def SetsAt (ps : List (Text × Text)) (k : ℕ) (a : Assignment) : Prop :=
  ∃ key value, ps[k]? = some (key, value) ∧ Assignment.IsAccepted key value a

lemma setsAt_concat_of_lt {pair : Text × Text} {k : ℕ} {a : Assignment} (hk : k < ps.length) :
    SetsAt (ps ++ [pair]) k a ↔ SetsAt ps k a := by
  rw [SetsAt, SetsAt, List.getElem?_append_left hk]

lemma setsAt_concat_length {a : Assignment} :
    SetsAt (ps ++ [(key, value)]) ps.length a ↔ Assignment.IsAccepted key value a := by
  simp [SetsAt]

/-- **A refused pair changes nothing**, whatever was set before. -/
lemma addPair_of_isRefused {reason : SettingError} (h : Assignment.IsRefused key value reason)
    (layer : Layer) : addPair layer (key, value) = layer := by
  rw [addPair, Assignment.parse_eq_error_iff.mpr h]

/-- One more pair: what it sets, if it is accepted, and what was set before otherwise. -/
lemma read_addPair {β : Type} (setting : Setting β) (layer : Layer) (key value : Text) :
    ∃ new : Option β, setting.read (addPair layer (key, value)) = (new <|> setting.read layer) ∧
      ∀ b, Assignment.IsAccepted key value (setting.assign b) ↔ new = some b := by
  simp only [← Assignment.parse_eq_ok_iff]
  rw [addPair]
  cases Assignment.parse key value with
  | ok a =>
      refine ⟨setting.assigned? a, setting.read_apply a layer, fun b => ?_⟩
      rw [setting.assigned?_eq_some_iff, Except.ok.injEq]
  | error reason => exact ⟨none, rfl, by simp⟩

/-- **The latest accepted pair for a setting decides it.** -/
theorem isLatest_foldl_addPair {β : Type} (setting : Setting β) (ps : List (Text × Text)) :
    IsLatest (fun k b => SetsAt ps k (setting.assign b)) ps.length
      (setting.read (ps.foldl addPair {})) := by
  induction ps using List.reverseRecOn with
  | nil =>
      rw [List.foldl_nil, setting.read_empty]
      exact isLatest_zero _
  | append_singleton ps pair ih =>
      obtain ⟨key, value⟩ := pair
      obtain ⟨new, hread, hnew⟩ := read_addPair setting (ps.foldl addPair {}) key value
      rw [List.foldl_append, List.foldl_cons, List.foldl_nil, hread, List.length_append]
      refine (ih.congr fun k hk b => setsAt_concat_of_lt hk).succ new fun b => ?_
      rw [setsAt_concat_length, hnew]

/-- **What is to be told about some pairs**: one notice for each refused pair, in their order. -/
inductive IsReport : List (Text × Text) → List Notice → Prop
  | nil : IsReport [] []
  | accepted {key value : Text} {a : Assignment} {ps : List (Text × Text)} {notices : List Notice}
      (h : Assignment.IsAccepted key value a) (hrest : IsReport ps notices) :
      IsReport ((key, value) :: ps) notices
  | refused {key value : Text} {reason : SettingError} {ps : List (Text × Text)} {notices : List Notice}
      (h : Assignment.IsRefused key value reason) (hrest : IsReport ps notices) :
      IsReport ((key, value) :: ps) (.modelineSettingIgnored key value reason :: notices)

lemma isReport_filterMap (ps : List (Text × Text)) : IsReport ps (ps.filterMap pairNotice?) := by
  induction ps with
  | nil => exact .nil
  | cons pair ps ih =>
      obtain ⟨key, value⟩ := pair
      cases hparse : Assignment.parse key value with
      | ok a =>
          rw [List.filterMap_cons_none (by rw [pairNotice?, hparse])]
          exact .accepted (Assignment.parse_eq_ok_iff.mp hparse) ih
      | error reason =>
          rw [List.filterMap_cons_some (by rw [pairNotice?, hparse])]
          exact .refused (Assignment.parse_eq_error_iff.mp hparse) ih

/-- Refused settings are warnings. -/
lemma IsReport.level {ps : List (Text × Text)} {notices : List Notice} (h : IsReport ps notices) :
    ∀ notice ∈ notices, notice.level = .warn := by
  induction h with
  | nil => simp
  | accepted _ _ ih => exact ih
  | refused _ _ ih => exact List.forall_mem_cons.mpr ⟨rfl, ih⟩

/-- **The settings of a modeline.**  Let a line be the first modeline of a program.  Its settings are
what the pattern of a line finds, and they stand behind its last mark.  The pairs in them are what the
pattern of a pair finds from left to right.  Each setting of the program's layer is what the latest pair
says that is accepted for it, and is open if there is none.  A pair that is refused changes nothing, and
is told of in one warning; the warnings are in the order of their pairs. -/
theorem modeline_settings {program line : Text} {i : ℕ}
    (h : IsFound (Text.terminatedLines program) i line) :
    ∃ (settings : Text) (fits : List Fit) (ps : List (Text × Text)) (layer : Layer),
      HasSettings line settings ∧
      (linePattern.firstFit? none line).map Fit.groups = some [settings] ∧
      pairPattern.IsScan none settings fits ∧
      fits.map Fit.groups = ps.map (fun pair => [pair.1, pair.2]) ∧
      layer? program = some layer ∧ layer = ps.foldl addPair {} ∧
      IsLatest (fun k b => SetsAt ps k (.suppressDuplicates b)) ps.length layer.suppressDuplicates ∧
      IsLatest (fun k unit => SetsAt ps k (.dwellUnit unit)) ps.length layer.dwellUnit ∧
      IsLatest (fun k n => SetsAt ps k (.precision n)) ps.length layer.precision ∧
      (∀ key value reason, Assignment.IsRefused key value reason →
        ∀ before, addPair before (key, value) = before) ∧
      IsReport ps (notices program) ∧ ∀ notice ∈ notices program, notice.level = .warn := by
  obtain ⟨settings, hread⟩ : ∃ settings, settingsText? line = some settings :=
    Option.ne_none_iff_exists'.mp fun hnone => settingsText?_eq_none_iff.mp hnone h.modeline
  have hsettings := settingsText?_eq_some_iff.mp hread
  have hfind := find?_eq_some_iff.mpr ⟨i, line, h, hsettings⟩
  have hunbroken := Text.not_mem_of_mem_terminatedLines (List.mem_of_getElem? h.place)
  obtain ⟨fits, hscan, hgroups⟩ := exists_isScan_pairPattern none settings
  have hreport : IsReport (pairs settings) (notices program) := by
    rw [notices, hfind]
    exact isReport_filterMap _
  refine ⟨settings, fits, pairs settings, layerOf settings, hsettings, ?_, hscan, hgroups, ?_, rfl,
    isLatest_foldl_addPair .suppressDuplicates _, isLatest_foldl_addPair .dwellUnit _,
    isLatest_foldl_addPair .precision _, fun key value reason => addPair_of_isRefused, hreport,
    hreport.level⟩
  · rw [groups_firstFit?_linePattern hunbroken, hread]
    rfl
  · rw [layer?, hfind]
    rfl

/-- Six pairs, two of which are refused. -/
def sixPairs : Text :=
  "precision=2 precision=x, suppress_duplicates = true; speed=9 ".toList ++
    "suppress_duplicate_lines=false dwell_unit=MS".toList

/-- A modeline with two marks. -/
def lineOfSixPairs : Text :=
  "( ccx: precision=1, ccx:".toList ++ sixPairs ++ ") precision=3".toList

/-- Two pairs under different keys are for one setting, and the one that is refused does not count. -/
theorem modeline_settings_sixPairs :
    let program := Text.unlines ["%".toList, lineOfSixPairs, "M2".toList]
    IsFound (Text.terminatedLines program) 1 lineOfSixPairs ∧ HasSettings lineOfSixPairs sixPairs ∧
    layer? program = some ⟨some false, some .milliseconds, some 2⟩ ∧
    ∃ ps, IsLatest (fun k b => SetsAt ps k (.suppressDuplicates b)) ps.length (some false) ∧
      IsLatest (fun k n => SetsAt ps k (.precision n)) ps.length (some 2) ∧
      IsReport ps [.modelineSettingIgnored "precision".toList "x".toList (.notPrecision "x".toList),
        .modelineSettingIgnored "speed".toList "9".toList (.unknownKey "speed".toList)] := by
  intro program
  have hsettings : HasSettings lineOfSixPairs sixPairs :=
    settingsText?_eq_some_iff.mp (by decide +kernel)
  have hlines : Text.terminatedLines program = ["%".toList, lineOfSixPairs, "M2".toList] :=
    Text.terminatedLines_unlines (by decide +kernel) (by decide +kernel)
  have hfound : IsFound (Text.terminatedLines program) 1 lineOfSixPairs := by
    rw [hlines]
    refine ⟨rfl, Or.inl (by decide), hsettings.isModeline, ?_⟩
    rintro j hj other hother -
    obtain rfl : j = 0 := Nat.lt_one_iff.mp hj
    obtain rfl : "%".toList = other := Option.some.inj hother
    exact settingsText?_eq_none_iff.mp (by decide +kernel)
  have hpairs : pairs sixPairs = [("precision".toList, "2".toList), ("precision".toList, "x".toList),
      ("suppress_duplicates".toList, "true".toList), ("speed".toList, "9".toList),
      ("suppress_duplicate_lines".toList, "false".toList), ("dwell_unit".toList, "MS".toList)] := by
    decide +kernel
  have hlayer : layer? program = some ⟨some false, some .milliseconds, some 2⟩ := by
    refine layer?_eq_some_iff.mpr ⟨1, _, _, hfound, hsettings, ?_⟩
    rw [layerOf, hpairs]
    decide +kernel
  have hnotices : notices program =
      [.modelineSettingIgnored "precision".toList "x".toList (.notPrecision "x".toList),
        .modelineSettingIgnored "speed".toList "9".toList (.unknownKey "speed".toList)] := by
    rw [notices, find?_eq_some_iff.mpr ⟨1, _, hfound, hsettings⟩, Option.map_some, hpairs]
    decide +kernel
  obtain ⟨settings, fits, ps, layer, -, -, -, -, hread, -, hsuppress, -, hprecision, -, hreport, -⟩ :=
    modeline_settings hfound
  obtain rfl := Option.some.inj (hread.symm.trans hlayer)
  rw [hnotices] at hreport
  exact ⟨hfound, hsettings, hlayer, ps, hsuppress, hprecision, hreport⟩

end Modeline

end DrillCycles
