import DrillCycles.Text.WordCharacter
import Mathlib.Tactic.Common

/-!
# Patterns

Regular expressions without alternatives, in which only single characters are repeated, and the way in
which they are matched: of all ways to fit a pattern to a text, **the first one from the left** counts, and
at one place the one that **takes as much as possible**, decided piece by piece from the left.

* **`Pattern.fits`** lists all ways to fit a pattern at a place, the preferred one first.
* **`Pattern.firstFit?`** goes along the text to the first place where the pattern fits.
* **`Pattern.IsScan`** goes on behind what was matched, so the matches do not overlap.

A repetition gives characters back only if what follows it does not fit otherwise.  In two cases it never
has to: what follows fits everywhere (`found?_many_group`), or it fits nowhere at a character that is
repeated (`found?_many_of_avoids`).
-/

namespace DrillCycles

/-- A pattern of texts. -/
inductive Pattern where
  /-- The start of the whole text. -/
  | start
  /-- A place with a word character on exactly one side. -/
  | boundary
  /-- One character of a class. -/
  | one (p : Char → Bool)
  /-- Any number of characters of a class, as many as possible. -/
  | many (p : Char → Bool)
  /-- A pattern whose text is kept. -/
  | group (inner : Pattern)
  /-- One pattern directly behind another one. -/
  | next (first second : Pattern)

/-- One way to fit a pattern to the text behind a place. -/
structure Fit where
  /-- The text that the pattern covers. -/
  text : Text
  /-- The texts of its groups, from left to right. -/
  groups : List Text
  /-- What follows. -/
  rest : Text
  deriving DecidableEq, Repr

/-- Two fits, the second one directly behind the first one. -/
def Fit.append (f g : Fit) : Fit :=
  ⟨f.text ++ g.text, f.groups ++ g.groups, g.rest⟩

/-- What is left of a fit: its groups, and what follows. -/
def Fit.result (f : Fit) : List Text × Text :=
  (f.groups, f.rest)

namespace Pattern

/-- Characters of a class at the start of a text, and what follows them: as many as possible first. -/
def splits (p : Char → Bool) : Text → List (Text × Text)
  | [] => [([], [])]
  | c :: t =>
    if p c then (splits p t).map (fun split => (c :: split.1, split.2)) ++ [([], c :: t)]
    else [([], c :: t)]

/-- All ways to fit a pattern to a text, the preferred one first.  The character in front of the text is
given, if there is one. -/
def fits : Pattern → Option Char → Text → List Fit
  | start, previous, t => if previous.isNone then [⟨[], [], t⟩] else []
  | boundary, previous, t =>
    if previous.any isWordCharacter != t.head?.any isWordCharacter then [⟨[], [], t⟩] else []
  | one _, _, [] => []
  | one p, _, c :: t => if p c then [⟨[c], [], t⟩] else []
  | many p, _, t => (splits p t).map fun split => ⟨split.1, [], split.2⟩
  | group inner, previous, t =>
    (inner.fits previous t).map fun f => { f with groups := f.text :: f.groups }
  | next first second, previous, t =>
    (first.fits previous t).flatMap fun f =>
      (second.fits (f.text.getLast?.or previous) f.rest).map f.append

/-- **The first fit from the left.** -/
def firstFit? (q : Pattern) (previous : Option Char) : Text → Option Fit
  | [] => (q.fits previous []).head?
  | c :: t => (q.fits previous (c :: t)).head?.or (q.firstFit? (some c) t)

/-- **All fits from left to right**, each of them behind the one before it. -/
inductive IsScan (q : Pattern) : Option Char → Text → List Fit → Prop
  | done {previous : Option Char} {t : Text} (h : q.firstFit? previous t = none) :
      q.IsScan previous t []
  | more {previous : Option Char} {t : Text} {f : Fit} {fs : List Fit}
      (h : q.firstFit? previous t = some f) (hshorter : f.rest.length < t.length)
      (hrest : q.IsScan f.text.getLast? f.rest fs) : q.IsScan previous t (f :: fs)

/-- At least one character of a class, as many as possible. -/
def oneOrMore (p : Char → Bool) : Pattern :=
  next (one p) (many p)

/-- A text as it stands, with a pattern behind it. -/
def literal (w : Text) (behind : Pattern) : Pattern :=
  w.foldr (fun c q => next (one (· == c)) q) behind

/-- The groups of the preferred fit, and what follows it. -/
def found? (q : Pattern) (previous : Option Char) (t : Text) : Option (List Text × Text) :=
  (q.fits previous t).head?.map Fit.result

/-- The same result with more groups in front. -/
def behind (groups : List Text) (result : List Text × Text) : List Text × Text :=
  (groups ++ result.1, result.2)

variable {p : Char → Bool} {q : Pattern} {previous : Option Char} {c : Char} {t : Text}

/-! ### One piece after the other -/

lemma found?_next (q r : Pattern) (previous : Option Char) (t : Text) :
    (next q r).found? previous t = (q.fits previous t).findSome? fun f =>
      (r.found? (f.text.getLast?.or previous) f.rest).map (behind f.groups) := by
  simp only [found?, fits, List.head?_flatMap, List.head?_map, List.map_findSome?,
    Function.comp_def, Option.map_map]
  rfl

lemma map_behind_nil (found : Option (List Text × Text)) : found.map (behind []) = found := by
  cases found <;> rfl

lemma found?_start (q : Pattern) (t : Text) : (next start q).found? none t = q.found? none t := by
  rw [found?_next, fits, if_pos Option.isNone_none, List.findSome?_singleton]
  exact map_behind_nil _

/-- Behind the start of a text a pattern for the start does not fit. -/
lemma firstFit?_start (q : Pattern) (t : Text) :
    (next start q).firstFit? none t = ((next start q).fits none t).head? := by
  have hlater : ∀ (c : Char) (t : Text), (next start q).firstFit? (some c) t = none := by
    intro c t
    induction t generalizing c with
    | nil => rfl
    | cons d t ih =>
        rw [firstFit?, ih]
        rfl
  cases t with
  | nil => rfl
  | cons c t => rw [firstFit?, hlater, Option.or_none]

lemma found?_boundary (q : Pattern) (previous : Option Char) (t : Text) :
    (next boundary q).found? previous t =
      if previous.any isWordCharacter != t.head?.any isWordCharacter then q.found? previous t
      else none := by
  rw [found?_next, fits]
  split
  · rw [List.findSome?_singleton]
    exact map_behind_nil _
  · rfl

@[simp] lemma found?_one_nil (p : Char → Bool) (q : Pattern) (previous : Option Char) :
    (next (one p) q).found? previous [] = none := rfl

@[simp] lemma found?_one_cons (p : Char → Bool) (q : Pattern) (previous : Option Char) (c : Char)
    (t : Text) : (next (one p) q).found? previous (c :: t) =
      if p c then q.found? (some c) t else none := by
  rw [found?_next, fits]
  split
  · rw [List.findSome?_singleton]
    exact map_behind_nil _
  · rfl

lemma found?_literal (w : Text) (q : Pattern) (previous : Option Char) (t : Text) :
    (literal w q).found? previous t =
      if w <+: t then q.found? (w.getLast?.or previous) (t.drop w.length) else none := by
  induction w generalizing previous t with
  | nil =>
      rw [if_pos List.nil_prefix]
      rfl
  | cons d w ih =>
      change (next (one (· == d)) (literal w q)).found? previous t = _
      cases t with
      | nil => rw [found?_one_nil, if_neg (by simp)]
      | cons c t =>
          rw [found?_one_cons, ih]
          simp only [List.cons_prefix_cons, List.length_cons, List.drop_succ_cons, beq_iff_eq,
            List.getLast?_cons]
          by_cases hd : c = d
          · subst hd
            cases w.getLast? <;> simp
          · rw [if_neg hd, if_neg fun h => hd h.1.symm]

/-! ### Repetition -/

/-- The preferred split takes all characters of the class; every other one leaves some of them. -/
lemma exists_splits_eq (p : Char → Bool) (t : Text) :
    ∃ others, splits p t = (t.takeWhile p, t.dropWhile p) :: others ∧
      ∀ split ∈ others, ∃ c rest, split.2 = c :: rest ∧ p c = true := by
  induction t with
  | nil => exact ⟨[], rfl, by simp⟩
  | cons c t ih =>
      obtain ⟨others, hothers, hleft⟩ := ih
      rw [splits]
      split
      · next hc =>
          rw [hothers, List.takeWhile_cons_of_pos hc, List.dropWhile_cons_of_pos hc]
          refine ⟨_, rfl, fun split hsplit => ?_⟩
          rcases List.mem_append.mp hsplit with hmem | hmem
          · obtain ⟨other, hother, rfl⟩ := List.mem_map.mp hmem
            exact hleft other hother
          · rw [List.mem_singleton.mp hmem]
            exact ⟨c, t, rfl, hc⟩
      · next hc =>
          rw [List.takeWhile_cons_of_neg hc, List.dropWhile_cons_of_neg hc]
          exact ⟨[], rfl, by simp⟩

/-- What is found at the preferred split, if it is found there or only there. -/
lemma findSome?_splits {β : Type} {g : Text × Text → Option β} {t : Text}
    (h : (g (t.takeWhile p, t.dropWhile p)).isSome = true ∨
      ∀ w c rest, p c = true → g (w, c :: rest) = none) :
    (splits p t).findSome? g = g (t.takeWhile p, t.dropWhile p) := by
  obtain ⟨others, hothers, hleft⟩ := exists_splits_eq p t
  rw [hothers, List.findSome?_cons]
  rcases h with hsome | hnone
  · obtain ⟨b, hb⟩ := Option.isSome_iff_exists.mp hsome
    rw [hb]
  · have hlater : others.findSome? g = none := by
      refine List.findSome?_eq_none_iff.mpr fun split hsplit => ?_
      obtain ⟨w, rest⟩ := split
      obtain ⟨c, rest, rfl, hc⟩ := hleft _ hsplit
      exact hnone w c rest hc
    rw [hlater]
    cases g (t.takeWhile p, t.dropWhile p) <;> rfl

/-- A pattern that fits nowhere at a character of the class. -/
def Avoids (q : Pattern) (p : Char → Bool) : Prop :=
  ∀ previous c t, p c = true → q.found? previous (c :: t) = none

lemma avoids_one {p' : Char → Bool} (h : ∀ c, p c = true → p' c = false) (q : Pattern) :
    (next (one p') q).Avoids p := by
  intro previous c t hc
  rw [found?_one_cons, h c hc, if_neg Bool.false_ne_true]

lemma found?_many (p : Char → Bool) (q : Pattern) (previous : Option Char) (t : Text) :
    (next (many p) q).found? previous t =
      (splits p t).findSome? fun split => q.found? (split.1.getLast?.or previous) split.2 := by
  rw [found?_next, fits, List.findSome?_map]
  refine congrArg (List.findSome? · _) (funext fun split => ?_)
  exact map_behind_nil _

/-- Behind a repetition of characters that it avoids, a pattern is looked for in one place only. -/
lemma found?_many_of_avoids (h : q.Avoids p) (previous : Option Char) (t : Text) :
    (next (many p) q).found? previous t =
      q.found? ((t.takeWhile p).getLast?.or previous) (t.dropWhile p) := by
  rw [found?_many]
  exact findSome?_splits (Or.inr fun w c rest hc => h _ c rest hc)

@[simp] lemma found?_group_many (p : Char → Bool) (previous : Option Char) (t : Text) :
    (group (many p)).found? previous t = some ([t.takeWhile p], t.dropWhile p) := by
  obtain ⟨others, hothers, -⟩ := exists_splits_eq p t
  simp [found?, fits, hothers, Fit.result]

/-- What fits everywhere is matched behind the longest repetition. -/
lemma found?_many_group (p p' : Char → Bool) (previous : Option Char) (t : Text) :
    (next (many p) (group (many p'))).found? previous t =
      (group (many p')).found? previous (t.dropWhile p) := by
  rw [found?_many, findSome?_splits (Or.inl (by simp))]
  simp

lemma fits_group_oneOrMore (p : Char → Bool) (previous : Option Char) (c : Char) (t : Text) :
    (group (oneOrMore p)).fits previous (c :: t) = if p c then
      (splits p t).map fun split => ⟨c :: split.1, [c :: split.1], split.2⟩ else [] := by
  simp only [oneOrMore, fits]
  split <;> simp [Fit.append, Function.comp_def]

lemma found?_group_oneOrMore (p : Char → Bool) (previous : Option Char) (c : Char) (t : Text) :
    (group (oneOrMore p)).found? previous (c :: t) =
      if p c then some ([c :: t.takeWhile p], t.dropWhile p) else none := by
  obtain ⟨others, hothers, -⟩ := exists_splits_eq p t
  rw [found?, fits_group_oneOrMore, hothers]
  split <;> rfl

lemma found?_next_group_oneOrMore (h : q.Avoids p) (previous : Option Char) (c : Char) (t : Text) :
    (next (group (oneOrMore p)) q).found? previous (c :: t) = if p c then
      (q.found? ((c :: t.takeWhile p).getLast?.or previous) (t.dropWhile p)).map
        (behind [c :: t.takeWhile p]) else none := by
  rw [found?_next, fits_group_oneOrMore]
  split
  · rw [List.findSome?_map]
    refine findSome?_splits (g := _ ∘ _) (Or.inr fun w d rest hd => ?_)
    rw [Function.comp_apply, h _ d rest hd, Option.map_none]
  · rfl

end Pattern

end DrillCycles
