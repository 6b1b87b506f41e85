import DrillCycles.Proofs.Tag.Agreement

/-!
# Stripping a line of tokens

On a line of tokens with single spaces between them, taking tags out is leaving tokens out.  One tag
goes with the space behind it, so what is left is again a line of tokens, except that a space may be
left behind the last one (`remove_intercalate`).  Later removals and the trimming do not see that space.
-/

namespace DrillCycles.Tag

variable {tag other : Tag} {candidates : List Tag} {token rest s : Text} {tokens : List Text}

/-- **A token of a line**, as far as these candidates are concerned: either one of them, or free of
them. -/
structure IsToken (candidates : List Tag) (token : Text) : Prop where
  ne_nil : token ≠ []
  unbroken : ∀ c ∈ token, isBlank c = false
  whole_or_free : token ∈ candidates.map code ∨ ¬ AnyIn candidates token

/-! ### One tag -/

/-- A code holds no other tag. -/
lemma eq_of_occursIn_code (h : tag.OccursIn other.code) : other = tag := by
  obtain ⟨i, before, after, heq, -, -⟩ := h
  have hlength := congrArg List.length heq
  simp only [List.length_append, length_code] at hlength
  obtain rfl : before = [] := List.length_eq_zero_iff.mp (by omega)
  obtain rfl : after = [] := List.length_eq_zero_iff.mp (by omega)
  exact code_injective (by simpa using heq)

lemma IsToken.eq_code_or_not_occursIn (h : IsToken candidates token) (hmem : tag ∈ candidates) :
    token = tag.code ∨ ¬ tag.OccursIn token := by
  rcases h.whole_or_free with hwhole | hfree
  · obtain ⟨other, -, rfl⟩ := List.mem_map.mp hwhole
    by_cases hocc : tag.OccursIn other.code
    · exact Or.inl (congrArg code (eq_of_occursIn_code hocc))
    · exact Or.inr hocc
  · exact Or.inr fun hocc => hfree ⟨tag, hmem, hocc⟩

/-- What is in front of a space is kept as it is when the tag does not stand in it. -/
lemma remove_append_space (h : ¬ tag.OccursIn s) (rest : Text) :
    tag.remove (s ++ ' ' :: rest) = s ++ ' ' :: tag.remove rest := by
  induction s with
  | nil => exact remove_cons_of_not_heads (not_heads_of_ne (by decide))
  | cons c s ih =>
      rw [occursIn_cons, not_or] at h
      have hheads := heads_append_of_isBlank (b := ' ') (by decide) tag (c :: s) rest
      rw [List.cons_append] at hheads ⊢
      rw [remove_cons_of_not_heads (by rw [hheads]; exact h.1), ih h.2, List.cons_append]

lemma remove_code_append_space (tag : Tag) (rest : Text) :
    tag.remove (tag.code ++ ' ' :: rest) = tag.remove rest :=
  remove_code_append rfl

/-- **One tag taken out of a line of tokens** leaves the other tokens, and perhaps a space behind
them. -/
lemma remove_intercalate (tag : Tag)
    (h : ∀ token ∈ tokens, token = tag.code ∨ ¬ tag.OccursIn token) :
    ∃ behind : Text, tag.remove (List.intercalate [' '] tokens) =
        List.intercalate [' '] (tokens.filter (· ≠ tag.code)) ++ behind ∧
      ∀ c ∈ behind, isBlank c = true := by
  induction tokens with
  | nil => exact ⟨[], rfl, by simp⟩
  | cons token tokens ih =>
      obtain ⟨behind, hrest, hblank⟩ := ih fun other hmem => h other (List.mem_cons_of_mem _ hmem)
      have htoken := h token List.mem_cons_self
      by_cases hcode : token = tag.code
      · subst hcode
        rw [List.filter_cons_of_neg (by simp)]
        cases tokens with
        | nil =>
            have hall : tag.remove (tag.code ++ []) = [] := remove_code_append rfl
            exact ⟨[], by simpa using hall, by simp⟩
        | cons next tokens =>
            refine ⟨behind, ?_, hblank⟩
            rw [List.intercalate_cons_cons, List.append_assoc, List.singleton_append,
              remove_code_append_space, hrest]
      · have hfree := htoken.resolve_left hcode
        rw [List.filter_cons_of_pos (by simpa using hcode)]
        cases tokens with
        | nil => exact ⟨[], by simpa using remove_of_not_occursIn hfree, by simp⟩
        | cons next tokens =>
            rw [List.intercalate_cons_cons, List.append_assoc, List.singleton_append,
              remove_append_space hfree, hrest]
            cases (next :: tokens).filter (· ≠ tag.code) with
            | nil => exact ⟨' ' :: behind, by simp, by simpa using ⟨by decide, hblank⟩⟩
            | cons kept others =>
                refine ⟨behind, ?_, hblank⟩
                rw [List.intercalate_cons_cons]
                simp

/-! ### All candidates -/

lemma intercalate_ne_nil (hne : token ≠ []) : List.intercalate [' '] (token :: tokens) ≠ [] := by
  cases tokens with
  | nil => simpa using hne
  | cons next tokens =>
      rw [List.intercalate_cons_cons]
      simp

/-- A line of tokens has no blanks at its ends. -/
lemma trim_intercalate (hne : ∀ token ∈ tokens, token ≠ [])
    (hunbroken : ∀ token ∈ tokens, ∀ c ∈ token, isBlank c = false) :
    Text.trim (List.intercalate [' '] tokens) = List.intercalate [' '] tokens := by
  induction tokens with
  | nil => rfl
  | cons token tokens ih =>
      have htoken := hne token List.mem_cons_self
      have hvisible := hunbroken token List.mem_cons_self
      cases tokens with
      | nil =>
          rw [List.intercalate_singleton]
          exact Text.trim_eq_self (fun c hc => hvisible c (List.mem_of_mem_head? hc))
            (fun c hc => hvisible c (List.mem_of_mem_getLast? hc))
      | cons next tokens =>
          have hrest := ih (fun other hmem => hne other (List.mem_cons_of_mem _ hmem))
            (fun other hmem => hunbroken other (List.mem_cons_of_mem _ hmem))
          have hlast : List.intercalate [' '] (next :: tokens) ≠ [] :=
            intercalate_ne_nil (hne next (by simp))
          rw [List.intercalate_cons_cons]
          refine Text.trim_eq_self (fun c hc => ?_) (fun c hc => ?_)
          · rw [List.append_assoc, List.head?_append_of_ne_nil _ htoken] at hc
            exact hvisible c (List.mem_of_mem_head? hc)
          · rw [List.getLast?_append_of_ne_nil _ hlast, ← hrest] at hc
            exact Text.not_isBlank_getLast_trim hc

/-- The tokens that stay when one tag is taken out are tokens as far as the other candidates are
concerned. -/
lemma IsToken.of_cons (h : IsToken (tag :: candidates) token) (hne : token ≠ tag.code) :
    IsToken candidates token := by
  refine ⟨h.ne_nil, h.unbroken, h.whole_or_free.imp (fun hwhole => ?_) fun hfree hany => hfree ?_⟩
  · rw [List.map_cons, List.mem_cons] at hwhole
    exact hwhole.resolve_left hne
  · obtain ⟨other, hmem, hocc⟩ := hany
    exact ⟨other, List.mem_cons_of_mem _ hmem, hocc⟩

/-- **Stripping is filtering.**  From a line of tokens with single spaces between them, each of which is
a candidate or holds none, stripping leaves the tokens that are no candidates, in their order and with
single spaces between them.  The order of the candidates does not matter. -/
theorem strip_intercalate (h : ∀ token ∈ tokens, IsToken candidates token) :
    strip candidates (List.intercalate [' '] tokens) =
      List.intercalate [' '] (tokens.filter (· ∉ candidates.map code)) := by
  induction candidates generalizing tokens with
  | nil =>
      rw [List.filter_eq_self.mpr (by simp)]
      exact trim_intercalate (fun token hmem => (h token hmem).ne_nil)
        (fun token hmem => (h token hmem).unbroken)
  | cons tag candidates ih =>
      obtain ⟨behind, hremove, hblank⟩ := remove_intercalate tag fun token hmem =>
        (h token hmem).eq_code_or_not_occursIn List.mem_cons_self
      have hpadded : IsPadded (List.intercalate [' '] (tokens.filter (· ≠ tag.code)))
          (tag.remove (List.intercalate [' '] tokens)) := ⟨[], behind, hremove, by simp, hblank⟩
      have hothers : ∀ token ∈ tokens.filter (· ≠ tag.code), IsToken candidates token := by
        intro token hmem
        obtain ⟨hmem, hne⟩ := List.mem_filter.mp hmem
        exact (h token hmem).of_cons (by simpa using hne)
      calc strip (tag :: candidates) (List.intercalate [' '] tokens)
          = strip candidates (tag.remove (List.intercalate [' '] tokens)) := rfl
        _ = strip candidates (List.intercalate [' '] (tokens.filter (· ≠ tag.code))) :=
            hpadded.strip_eq
        _ = List.intercalate [' ']
              ((tokens.filter (· ≠ tag.code)).filter (· ∉ candidates.map code)) := ih hothers
        _ = List.intercalate [' '] (tokens.filter (· ∉ (tag :: candidates).map code)) := by
            rw [List.filter_filter]
            refine congrArg _ (List.filter_congr fun token _ => ?_)
            simp [Bool.and_comm]

/-- Tags at both ends and next to each other, one of them twice, and a longer code that stays. -/
theorem strip_intercalate_holes :
    (∀ token ∈ ["G83".toList, "X1".toList, "G81".toList, "G81".toList, "G811".toList, "G82".toList],
      IsToken [.peckDrill, .drill, .drillDwell] token) ∧
    strip [.peckDrill, .drill, .drillDwell] "G83 X1 G81 G81 G811 G82".toList = "X1 G811".toList := by
  have htokens : ∀ token ∈
      ["G83".toList, "X1".toList, "G81".toList, "G81".toList, "G811".toList, "G82".toList],
      IsToken [.peckDrill, .drill, .drillDwell] token := by
    intro token hmem
    have hunbroken : token.any isBlank = false := by
      revert token
      decide
    refine ⟨?_, by simpa using hunbroken, ?_⟩
    · revert token
      decide
    · revert token
      decide
  exact ⟨htokens, strip_intercalate htokens⟩

end DrillCycles.Tag
