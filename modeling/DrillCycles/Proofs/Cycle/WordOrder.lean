import DrillCycles.Proofs.Cycle.Failure
import DrillCycles.Proofs.Motion.Reading
import DrillCycles.Proofs.Tag.Stripping
import DrillCycles.Proofs.Tag.Tokens
import DrillCycles.Proofs.Word.Forms

/-!
# The order of the words on a hole line

A hole line can be put together from tokens with single spaces between them: one tag that invokes a hole,
and words with different letters.  What such a line does is the same for every order of its tokens.

**Tokens.**  `Token` is a tag or a word; a word carries the proof that a numeral stands behind its
letter.  `IsHoleLine` says which tokens make up a line, and `Carries` which values they are the words of.

**Reading.**  Spaces keep the tokens apart: no tag is found but those of the tokens
(`occursIn_intercalate`), and no word goes on in the next one (`valueIn?_lineOf`).  A letter has one word
at most, so it does not matter where this word stands (`findSome?_perm`).

**Main result.**  `word_order_irrelevant` compares a line with every line of the same tokens.
-/

namespace DrillCycles

namespace Tag

variable {tag : Tag} {s rest : Text} {tokens : List Text} {candidates : List Tag}

lemma not_occursIn_of_not_mem (h : 'G' ∉ s) : ¬ tag.OccursIn s := by
  rintro ⟨i, before, after, rfl, -⟩
  obtain ⟨d, e, hcode, -⟩ := exists_code_eq tag
  simp [hcode] at h

/-- A space divides a text into two that are searched by themselves. -/
lemma occursIn_append_space :
    tag.OccursIn (s ++ ' ' :: rest) ↔ tag.OccursIn s ∨ tag.OccursIn rest := by
  induction s with
  | nil =>
      have hspace : ¬ tag.heads (' ' :: rest) = true := not_heads_of_ne (by decide)
      rw [List.nil_append, occursIn_cons, or_iff_right hspace, or_iff_right not_occursIn_nil]
  | cons c s ih =>
      have hheads := heads_append_of_isBlank (b := ' ') (by decide) tag (c :: s) rest
      rw [List.cons_append] at hheads ⊢
      rw [occursIn_cons, occursIn_cons, hheads, ih, or_assoc]

/-- A tag stands in a line of tokens exactly if it stands in one of them. -/
lemma occursIn_intercalate :
    tag.OccursIn (List.intercalate [' '] tokens) ↔ ∃ token ∈ tokens, tag.OccursIn token := by
  induction tokens with
  | nil => simp
  | cons token tokens ih =>
      cases tokens with
      | nil => simp
      | cons next tokens =>
          rw [List.intercalate_cons_cons, List.append_assoc, List.singleton_append,
            occursIn_append_space, ih]
          simp only [List.exists_mem_cons_iff]

end Tag

/-- A space divides a text into two whose words are read one after the other. -/
lemma Address.valueIn?_append_space (a : Address) (left right : Text) :
    a.valueIn? (left ++ ' ' :: right) = (a.valueIn? left).or (a.valueIn? right) := by
  have hspace : ¬ a.Lengthens left (' ' :: right) := fun hlengthens =>
    absurd hlengthens.isNumeric (by simp [Numeral.IsNumeric])
  rw [valueIn?_append hspace, valueIn?_cons_of_ne (space_ne_letter a)]

/-- What is found for a key that no two elements have does not depend on where it stands. -/
lemma findSome?_perm {α β κ : Type} {f : α → Option β} {key? : α → Option κ} {k : κ}
    {l l' : List α} (hperm : l.Perm l') (hnodup : (l.filterMap key?).Nodup)
    (hkey : ∀ a b, f a = some b → key? a = some k) : l.findSome? f = l'.findSome? f := by
  induction hperm with
  | nil => rfl
  | cons a _ ih =>
      rw [List.findSome?_cons, List.findSome?_cons,
        ih (hnodup.sublist ((List.sublist_cons_self _ _).filterMap key?))]
  | swap a b l =>
      simp only [List.findSome?_cons]
      cases ha : f a with
      | none => rfl
      | some v =>
          cases hb : f b with
          | none => rfl
          | some w => simp [hkey a v ha, hkey b w hb] at hnodup
  | trans hfirst _ ih ih' =>
      rw [ih hnodup, ih' ((hfirst.filterMap key?).nodup_iff.mp hnodup)]

namespace Cycle

/-! ### Tokens -/

/-- **A token of a hole line**: a tag that invokes a hole, or a letter that is directly followed by a
numeral. -/
inductive Token where
  | tag (tag : Tag) (invokes : tag ∈ Tag.holes)
  | word (address : Address) (numeral : Numeral) (spelling : Text) (form : numeral.IsForm spelling)

namespace Token

/-- The text of a token. -/
def text : Token → Text
  | tag t _ => t.code
  | word a _ spelling _ => a.letter :: spelling

/-- The letter of a word. -/
def address? : Token → Option Address
  | tag .. => none
  | word a .. => some a

/-- Whether a token is a word. -/
def isWord : Token → Bool
  | tag .. => false
  | word .. => true

/-- The value that a token gives to a letter.  A word without a finite value gives none. -/
def valueFor? (a : Address) : Token → Option Binary64
  | tag .. => none
  | word b n .. => if b = a then (some n.value).filter Binary64.isFinite else none

end Token

/-- The line of some tokens, with single spaces between them. -/
def lineOf (tokens : List Token) : Text :=
  List.intercalate [' '] (tokens.map Token.text)

/-- **The tokens of a hole line**: one tag, and words with different letters. -/
structure IsHoleLine (tokens : List Token) : Prop where
  one_tag : tokens.countP (!·.isWord) = 1
  distinct : (tokens.filterMap Token.address?).Nodup

/-- **The values of the words** among some tokens: a letter without a word has none, and neither has a
letter with a numeral that is not finite. -/
structure Carries (tokens : List Token) (words : HoleWords) : Prop where
  value : ∀ a n spelling form, Token.word a n spelling form ∈ tokens →
    words.value a = (some n.value).filter Binary64.isFinite
  absent : ∀ a, (∀ n spelling form, Token.word a n spelling form ∉ tokens) → words.value a = none

variable {tokens tokens' : List Token} {token : Token} {candidates : List Tag} {a : Address}
variable {s : State} {settings : Settings}

namespace Token

/-- The characters of a numeral are no blanks, and no letters of tags or words. -/
lemma ne_letter_of_mem_form {n : Numeral} {spelling : Text} (form : n.IsForm spelling) {c : Char}
    (hc : c ∈ spelling) : isBlank c = false ∧ c ≠ 'G' ∧ ∀ a : Address, c ≠ a.letter := by
  rcases form.isNumeric hc with hdigit | hother
  · refine ⟨not_isBlank_of_isDigit hdigit, ?_, fun a => ?_⟩
    · rintro rfl
      exact absurd hdigit (by decide)
    · rintro rfl
      cases a <;> exact absurd hdigit (by decide)
  · simp only [List.mem_cons, List.not_mem_nil, or_false] at hother
    rcases hother with rfl | rfl | rfl <;>
      exact ⟨by decide, by decide, fun a => by cases a <;> decide⟩

lemma text_ne_nil (token : Token) : token.text ≠ [] := by
  cases token with
  | tag t _ => exact Tag.code_ne_nil t
  | word => exact List.cons_ne_nil _ _

lemma not_isBlank_of_mem_text {c : Char} (hc : c ∈ token.text) : isBlank c = false := by
  cases token with
  | tag t _ => exact Tag.not_isBlank_of_mem_code hc
  | word a n spelling form =>
      rcases List.mem_cons.mp hc with rfl | hc
      · exact Tag.letter_not_isBlank a
      · exact (ne_letter_of_mem_form form hc).1

/-- No tag stands in a word. -/
lemma not_occursIn_text (hword : token.isWord = true) (tag : Tag) : ¬ tag.OccursIn token.text := by
  cases token with
  | tag => cases hword
  | word a n spelling form =>
      refine Tag.not_occursIn_of_not_mem fun hmem => ?_
      rcases List.mem_cons.mp hmem with hletter | hmem
      · revert hletter
        cases a <;> decide
      · exact (ne_letter_of_mem_form form hmem).2.1 rfl

/-- A tag that stands in a token invokes a hole. -/
lemma mem_holes_of_occursIn {tag : Tag} (h : tag.OccursIn token.text) : tag ∈ Tag.holes := by
  cases token with
  | tag t invokes => exact Tag.eq_of_occursIn_code h ▸ invokes
  | word => exact absurd h (not_occursIn_text rfl tag)

lemma isToken (token : Token) : Tag.IsToken Tag.holes token.text := by
  refine ⟨token.text_ne_nil, fun c hc => not_isBlank_of_mem_text hc, ?_⟩
  cases token with
  | tag t invokes => exact Or.inl (List.mem_map_of_mem invokes)
  | word =>
      refine Or.inr ?_
      rintro ⟨tag, -, hocc⟩
      exact not_occursIn_text rfl tag hocc

/-- The tokens that stripping leaves are the words. -/
lemma text_mem_codes_iff (token : Token) :
    token.text ∈ Tag.holes.map Tag.code ↔ token.isWord = false := by
  cases token with
  | tag t invokes => exact iff_of_true (List.mem_map_of_mem invokes) rfl
  | word a n spelling form =>
      refine iff_of_false (fun hmem => ?_) Bool.noConfusion
      obtain ⟨t, -, hcode⟩ := List.mem_map.mp hmem
      have hword : (word a n spelling form).isWord = true := rfl
      exact not_occursIn_text hword t
        ⟨0, [], [], by rw [List.nil_append, List.append_nil, hcode], rfl, rfl⟩

/-- A token is read as what it is. -/
lemma valueIn?_text (a : Address) (token : Token) : a.valueIn? token.text = token.valueFor? a := by
  cases token with
  | tag t _ => exact Address.valueIn?_of_not_mem (Tag.letter_not_mem_code a t)
  | word b n spelling form =>
      have hnone : a.valueIn? spelling = none := Address.valueIn?_of_not_mem fun hmem =>
        (ne_letter_of_mem_form form hmem).2.2 a rfl
      have hletter : b.letter = a.letter ↔ b = a := by
        constructor
        · cases a <;> cases b <;> decide
        · rintro rfl
          rfl
      rw [text, Address.valueIn?_cons, hnone, Option.or_none, valueFor?, Numeral.leadingValue?,
        form.leading?]
      simp only [hletter, Option.map_some]

end Token

/-! ### Reading a line of tokens -/

lemma trim_lineOf (tokens : List Token) : (lineOf tokens).trim = lineOf tokens := by
  refine Tag.trim_intercalate (fun text hmem => ?_) (fun text hmem => ?_) <;>
    obtain ⟨token, -, rfl⟩ := List.mem_map.mp hmem
  · exact token.text_ne_nil
  · exact fun c hc => Token.not_isBlank_of_mem_text hc

lemma occursIn_lineOf {tag : Tag} :
    tag.OccursIn (lineOf tokens) ↔ ∃ token ∈ tokens, tag.OccursIn token.text := by
  rw [lineOf, Tag.occursIn_intercalate]
  simp only [List.mem_map, exists_exists_and_eq_and]

/-- A line of tokens neither starts a cycle nor stops one. -/
lemma not_anyIn_lineOf (tokens : List Token) (h : ∀ tag ∈ candidates, tag ∉ Tag.holes) :
    ¬ Tag.AnyIn candidates (lineOf tokens) := by
  rintro ⟨tag, hmem, hocc⟩
  obtain ⟨token, -, htoken⟩ := occursIn_lineOf.mp hocc
  exact h tag hmem (Token.mem_holes_of_occursIn htoken)

lemma anyIn_holes_lineOf (h : IsHoleLine tokens) : Tag.AnyIn Tag.holes (lineOf tokens) := by
  have hpos : 0 < tokens.countP (!·.isWord) := by rw [h.one_tag]; exact Nat.one_pos
  obtain ⟨token, hmem, htag⟩ := List.countP_pos_iff.mp hpos
  cases token with
  | word => cases htag
  | tag t invokes =>
      refine ⟨t, invokes, occursIn_lineOf.mpr ⟨_, hmem, 0, [], [], ?_, rfl, rfl⟩⟩
      rw [List.nil_append, List.append_nil, Token.text]

/-- The words of a line of tokens are those of its tokens. -/
lemma valueIn?_lineOf (a : Address) (tokens : List Token) :
    a.valueIn? (lineOf tokens) = tokens.findSome? (Token.valueFor? a) := by
  induction tokens with
  | nil => rfl
  | cons token tokens ih =>
      cases tokens with
      | nil =>
          rw [lineOf, List.map_singleton, List.intercalate_singleton, Token.valueIn?_text,
            List.findSome?_singleton]
      | cons next tokens =>
          rw [lineOf, List.map_cons, List.map_cons, List.intercalate_cons_cons, List.append_assoc,
            List.singleton_append, Address.valueIn?_append_space, Token.valueIn?_text,
            ← List.map_cons, ← lineOf, ih, List.findSome?_cons (a := token)]
          cases token.valueFor? a <;> rfl

lemma startless_lineOf (tokens : List Token) : startless (lineOf tokens) = lineOf tokens := by
  rw [startless, trim_lineOf, Tag.strip_of_not_anyIn (not_anyIn_lineOf tokens (by decide)),
    trim_lineOf]

/-- Without its tag a line of tokens is the line of its words. -/
lemma holeText_lineOf (tokens : List Token) :
    holeText (lineOf tokens) = lineOf (tokens.filter Token.isWord) := by
  have htokens : ∀ text ∈ tokens.map Token.text, Tag.IsToken Tag.holes text := by
    intro text hmem
    obtain ⟨token, -, rfl⟩ := List.mem_map.mp hmem
    exact token.isToken
  rw [holeText, startless_lineOf, lineOf, Tag.strip_intercalate htokens, lineOf, List.filter_map]
  refine congrArg (fun words => List.intercalate [' '] (List.map Token.text words)) ?_
  refine List.filter_congr fun token _ => ?_
  simp only [Function.comp_apply, Token.text_mem_codes_iff]
  cases token.isWord <;> rfl

/-- The values of the words among some tokens, each letter with that of its first word. -/
def wordsOf (tokens : List Token) : HoleWords where
  x := tokens.findSome? (Token.valueFor? .x)
  y := tokens.findSome? (Token.valueFor? .y)
  z := tokens.findSome? (Token.valueFor? .z)
  r := tokens.findSome? (Token.valueFor? .r)
  f := tokens.findSome? (Token.valueFor? .f)
  p := tokens.findSome? (Token.valueFor? .p)
  q := tokens.findSome? (Token.valueFor? .q)

lemma value_wordsOf (tokens : List Token) (a : Address) :
    (wordsOf tokens).value a = tokens.findSome? (Token.valueFor? a) := by
  cases a <;> rfl

lemma valueIn?_holeText_lineOf (a : Address) (tokens : List Token) :
    a.valueIn? (holeText (lineOf tokens)) = tokens.findSome? (Token.valueFor? a) := by
  rw [holeText_lineOf, valueIn?_lineOf]
  induction tokens with
  | nil => rfl
  | cons token tokens ih =>
      cases token with
      | tag t invokes =>
          rw [List.filter_cons_of_neg (by simp [Token.isWord]), ih, List.findSome?_cons]
          rfl
      | word b n spelling form =>
          rw [List.filter_cons_of_pos rfl, List.findSome?_cons, List.findSome?_cons, ih]

lemma read_holeText_lineOf (tokens : List Token) :
    HoleWords.read (holeText (lineOf tokens)) = wordsOf tokens := by
  simp only [HoleWords.read, wordsOf, valueIn?_holeText_lineOf]

/-! ### Other orders -/

lemma IsHoleLine.perm (h : IsHoleLine tokens) (hperm : tokens.Perm tokens') : IsHoleLine tokens' :=
  ⟨(hperm.countP_eq _).symm.trans h.one_tag, (hperm.filterMap _).nodup_iff.mp h.distinct⟩

lemma Token.address?_of_valueFor? {v : Binary64} (h : token.valueFor? a = some v) :
    token.address? = some a := by
  cases token with
  | tag => cases h
  | word b n spelling form =>
      rw [Token.valueFor?] at h
      split at h
      · next hletter => rw [Token.address?, hletter]
      · cases h

lemma findSome?_valueFor?_perm (h : IsHoleLine tokens) (hperm : tokens.Perm tokens') (a : Address) :
    tokens.findSome? (Token.valueFor? a) = tokens'.findSome? (Token.valueFor? a) :=
  findSome?_perm hperm h.distinct fun _ _ => Token.address?_of_valueFor?

lemma wordsOf_perm (h : IsHoleLine tokens) (hperm : tokens.Perm tokens') :
    wordsOf tokens = wordsOf tokens' := by
  simp only [wordsOf, findSome?_valueFor?_perm h hperm]

/-- The values of the words, said without an order. -/
lemma carries_wordsOf (h : IsHoleLine tokens) : Carries tokens (wordsOf tokens) := by
  refine ⟨fun a n spelling form hmem => ?_, fun a habsent => ?_⟩ <;> rw [value_wordsOf]
  · obtain ⟨before, after, rfl⟩ := List.append_of_mem hmem
    have hnodup := (h.perm List.perm_middle).distinct
    have hothers : ∀ token ∈ before ++ after, token.valueFor? a = none := by
      intro token htoken
      by_contra hvalue
      obtain ⟨v, hv⟩ := Option.ne_none_iff_exists'.mp hvalue
      exact (List.nodup_cons.mp hnodup).1
        (List.mem_filterMap.mpr ⟨token, htoken, Token.address?_of_valueFor? hv⟩)
    rw [findSome?_valueFor?_perm h List.perm_middle, List.findSome?_cons, Token.valueFor?, if_pos rfl,
      List.findSome?_eq_none_iff.mpr hothers]
    cases (some n.value).filter Binary64.isFinite <;> rfl
  · refine List.findSome?_eq_none_iff.mpr fun token htoken => ?_
    cases token with
    | tag => rfl
    | word b n spelling form =>
        have hne : b ≠ a := by
          rintro rfl
          exact habsent n spelling form htoken
        rw [Token.valueFor?, if_neg hne]

/-- In an open cycle a line of tokens drills the hole that its words name. -/
lemma step_lineOf (hopen : s.active = true) (h : IsHoleLine tokens) :
    s.step (lineOf tokens) = (s.drill (wordsOf tokens), .drilled
      ((s.drill (wordsOf tokens)).hole (lineOf (tokens.filter Token.isWord)) (wordsOf tokens))) := by
  have hstart : ¬ IsStart (lineOf tokens) := by
    rw [IsStart, trim_lineOf]
    exact not_anyIn_lineOf tokens (by decide)
  have hstop : ¬ IsStop (lineOf tokens) := by
    rw [IsStop, trim_lineOf]
    exact fun hstop => not_anyIn_lineOf tokens (by decide) hstop.2
  have hhole : InvokesHole (lineOf tokens) := by
    rw [InvokesHole, startless_lineOf]
    exact anyIn_holes_lineOf h
  have hentered : s.entered (lineOf tokens) = s := State.entered_of_other hstart hstop
  have hdrilled : s.drilled (lineOf tokens) = s.drill (wordsOf tokens) := by
    rw [State.drilled, hentered, read_holeText_lineOf]
  rw [State.step_of_hole (by rw [hentered]; exact hopen) hhole, hdrilled, read_holeText_lineOf,
    holeText_lineOf]

/-- **The order of words is irrelevant.**  In an open cycle, take a hole line of one tag and words with
different letters, with single spaces between them.  Every line of the same tokens in another order gives
the same lines or the same failure, and leaves the same state.  Each of these lines drills a hole, and what
it takes up are the values of the words. -/
theorem word_order_irrelevant (settings : Settings) (hopen : s.active = true)
    (hline : IsHoleLine tokens) (hperm : tokens.Perm tokens') :
    expandLine settings (lineOf tokens') s = expandLine settings (lineOf tokens) s ∧
    ∃ words, Carries tokens words ∧ (s.step (lineOf tokens')).1 = s.drill words ∧
      ∃ hole, (s.step (lineOf tokens')).2 = .drilled hole ∧ hole.x = words.x ∧ hole.y = words.y ∧
        hole.parameters = s.parameters.update words := by
  have hstep := step_lineOf hopen hline
  have hstep' := step_lineOf hopen (hline.perm hperm)
  rw [← wordsOf_perm hline hperm] at hstep'
  refine ⟨?_, wordsOf tokens, carries_wordsOf hline, by rw [hstep'], _, by rw [hstep'], rfl, rfl, rfl⟩
  rw [expandLine_eq, expandLine_eq, hstep, hstep']
  rfl

/-- A tag and three words, each with another form of numeral. -/
def fourTokens : List Token :=
  [.tag .drill (by decide),
    .word .x ⟨false, [], ['5']⟩ ".5".toList
      ⟨[], by decide, _, rfl, .leadingPoint (by decide) (List.forall_mem_singleton.mpr rfl)⟩,
    .word .z ⟨true, ['2'], []⟩ "-2".toList
      ⟨['-'], by decide, _, rfl, .digits (by decide) (List.forall_mem_singleton.mpr rfl)⟩,
    .word .r ⟨false, ['1'], []⟩ "+1.".toList
      ⟨['+'], by decide, _, rfl,
        @Numeral.IsUnsignedForm.point ['1'] [] (by decide) (List.forall_mem_singleton.mpr rfl)
          (List.forall_mem_nil _)⟩]

/-- The tag in front of the words, and behind them. -/
theorem word_order_irrelevant_reversed :
    let s : State := { active := true, retractMode := .rPlane }
    s.active = true ∧ IsHoleLine fourTokens ∧ fourTokens.Perm fourTokens.reverse ∧
    lineOf fourTokens = "G81 X.5 Z-2 R+1.".toList ∧
    lineOf fourTokens.reverse = "R+1. Z-2 X.5 G81".toList ∧
    ∃ after, expandLine {} (lineOf fourTokens.reverse) s =
      .ok ["G0 X0.5".toList, "G0 Z1".toList, "G1 Z-2".toList, "G0 Z1".toList] after := by
  intro s
  have hline : IsHoleLine fourTokens := ⟨rfl, by decide⟩
  have hperm : fourTokens.Perm fourTokens.reverse := (List.reverse_perm fourTokens).symm
  obtain ⟨hsame, -⟩ := word_order_irrelevant {} (s := s) rfl hline hperm
  have hwritten : (s.step (lineOf fourTokens)).2.written {} =
      ["G0 X0.5".toList, "G0 Z1".toList, "G1 Z-2".toList, "G0 Z1".toList] := by decide +kernel
  refine ⟨rfl, hline, hperm, rfl, rfl, (s.step (lineOf fourTokens)).1, ?_⟩
  rw [hsame, expandLine_of_servable rfl, hwritten]

end Cycle

end DrillCycles
