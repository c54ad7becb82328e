import Eestv.Timestamp.Grammar

/-! What the error of a rejected format says: the first place at which no token begins, and how the
letter there may appear. -/

namespace Eestv

def complaint (c : Char) : List Char :=
  if c = 'Y' then "'Y' must appear as YY or YYYY".toList
  else if c = 'M' then "'M' must appear as MM or MMM".toList
  else if c = 'D' then "'D' must appear as DD or D*".toList
  else if c = 'm' then "'m' must appear as mm".toList
  else if c = 's' then "'s' must appear as ss or s*".toList
  else if c = 'f' then "a fraction supports at most 9 'f' digits".toList
  else "'".toList ++ [c] ++ "' must appear as ".toList ++ [c] ++ [c]

/-- The tokens that are read one after the other from the front of a format, and what they leave. -/
inductive SplitsTo : List Char → List Token → List Char → Prop
  | nil (cs : List Char) : SplitsTo cs [] cs
  | cons {cs rest : List Char} {t : Token} {ts : List Token} :
      nextToken cs = some t → SplitsTo (cs.drop t.text.length) ts rest → SplitsTo cs (t :: ts) rest

section OneToken

variable {format cs : List Char} {index : ℕ} {c : Char}

def Complains (c : Char) (r : Except (List Char) (ℕ × CompileState)) : Option Token → Prop
  | some _ => True
  | none => r = .error (complaint c)

theorem Complains.ite {r r' : Except (List Char) (ℕ × CompileState)} {o o' : Option Token}
    {p : Prop} [Decidable p] (h : p → Complains c r o) (h' : ¬ p → Complains c r' o') :
    Complains c (if p then r else r') (if p then o else o') := by
  split
  · exact h ‹_›
  · exact h' ‹_›

theorem compileToken_complains (h : format.drop index = c :: cs) (st : CompileState) :
    Complains c (compileToken format index st) (nextToken (c :: cs)) := by
  have hdigits : fractionDigits format index format.length 1 =
      (cs.takeWhile fun d => d = 'f').length + 1 := by
    rw [fractionDigits_eq format index (by omega), ← List.drop_drop, h, Nat.add_comm]
    rfl
  unfold compileToken nextToken
  dsimp only
  simp only [charAt_of_drop h, one_ahead h, two_ahead h, three_ahead h, hdigits]
  -- the same case distinctions as in the table, and in each one the letter is known
  refine .ite (fun hc => ?_) fun _ => .ite (fun hc => ?_) fun _ => .ite (fun hc => ?_) fun _ =>
    .ite (fun hc => ?_) fun _ => .ite (fun hc => ?_) fun _ => .ite (fun hc => ?_) fun _ =>
    .ite (fun hc => ?_) fun _ => .ite (fun hc => ?_) fun _ => trivial
  · subst hc
    exact .ite (fun _ => trivial) fun _ => .ite (fun _ => trivial) fun _ => rfl
  · subst hc
    exact .ite (fun _ => trivial) fun _ => .ite (fun _ => trivial) fun _ => rfl
  · subst hc
    exact .ite (fun _ => trivial) fun _ => .ite (fun _ => trivial) fun _ => rfl
  · refine .ite (fun _ => trivial) fun _ => ?_
    rcases hc with rfl | rfl <;> rfl
  · subst hc
    exact .ite (fun _ => trivial) fun _ => rfl
  · subst hc
    exact .ite (fun _ => trivial) fun _ => .ite (fun _ => trivial) fun _ => rfl
  · subst hc
    exact .ite (fun _ => trivial) fun _ => .ite (fun _ => rfl) fun _ => trivial
  · exact .ite (fun _ => trivial) fun _ => .ite (fun _ => trivial) fun _ => trivial

end OneToken

theorem SplitsTo.flatMap_text {cs rest : List Char} {ts : List Token} (h : SplitsTo cs ts rest) :
    ts.flatMap Token.text ++ rest = cs := by
  induction h with
  | nil cs => rfl
  | cons ht _ ih =>
    rw [List.flatMap_cons, List.append_assoc, ih]
    exact List.prefix_iff_eq_append.mp (nextToken_text ht).1

theorem not_splitsTo_nil {ts : List Token} {c : Char} {rest : List Char} :
    ¬ SplitsTo [] ts (c :: rest) := fun h =>
  absurd h.flatMap_text (List.append_ne_nil_of_right_ne_nil _ (List.cons_ne_nil c rest))

/-- The loop stops at the first character behind the tokens that begins none. -/
theorem compileLoop_complains (format : List Char) {fuel index : ℕ} (st : CompileState)
    (hfuel : format.length ≤ index + fuel) {ts : List Token} {c : Char} {rest : List Char}
    (h : SplitsTo (format.drop index) ts (c :: rest)) (hnone : nextToken (c :: rest) = none) :
    compileLoop format fuel index st =
      makeInvalidParser format (index + (ts.flatMap Token.text).length) (complaint c) := by
  induction fuel generalizing index st ts with
  | zero =>
    rw [List.drop_eq_nil_of_le (by exact hfuel)] at h
    exact absurd h not_splitsTo_nil
  | succ fuel ih =>
    rcases hs : format.drop index with _ | ⟨d, ds⟩
    · rw [hs] at h
      exact absurd h not_splitsTo_nil
    have hlt : index < format.length := by
      refine Nat.lt_of_not_le fun hle => ?_
      rw [List.drop_eq_nil_of_le hle] at hs
      cases hs
    rw [compileLoop, if_pos hlt]
    rw [hs] at h
    cases h with
    | nil =>
      have hround := compileToken_complains hs st
      rw [hnone] at hround
      rw [hround]
      rfl
    | @cons _ _ t ts ht hrest =>
      have hround := compileToken_compiles hs st
      rw [ht] at hround
      have hpos : 0 < t.text.length := List.length_pos_iff.mpr (nextToken_text ht).2.1
      have hindex : index + (t.text.length - 1) + 1 = index + t.text.length := by omega
      rw [← hs, List.drop_drop] at hrest
      rw [hround]
      dsimp only
      rw [hindex, ih (st.add t) (by omega) hrest, List.flatMap_cons, List.length_append,
        Nat.add_assoc]

theorem splits_or_stops (cs : List Char) : (∃ ts, Splits cs ts) ∨
    ∃ ts c rest, SplitsTo cs ts (c :: rest) ∧ nextToken (c :: rest) = none := by
  induction hn : cs.length using Nat.strong_induction_on generalizing cs with
  | _ n ih =>
    rcases cs with _ | ⟨c, cs⟩
    · exact Or.inl ⟨[], .nil⟩
    · rcases ht : nextToken (c :: cs) with _ | t
      · exact Or.inr ⟨[], c, cs, .nil _, ht⟩
      · have hpos : 0 < t.text.length := List.length_pos_iff.mpr (nextToken_text ht).2.1
        have hlt : ((c :: cs).drop t.text.length).length < n := by
          rw [List.length_drop, ← hn, List.length_cons]
          omega
        rcases ih _ hlt _ rfl with ⟨ts, hts⟩ | ⟨ts, d, rest, hts, hnone⟩
        · exact Or.inl ⟨t :: ts, .cons ht hts⟩
        · exact Or.inr ⟨t :: ts, d, rest, .cons ht hts, hnone⟩

/-- A format whose length is an `int` is rejected when it is empty, or when some character of it,
behind the tokens in front, begins no token. This character is a reserved letter, and the error names
its place and how it may appear. -/
theorem compileFormat_errors (format : List Char) (hsize : format.length < 2 ^ 31) :
    ((compileFormat format).valid = false ↔ format = [] ∨
        ∃ ts c rest, SplitsTo format ts (c :: rest) ∧ nextToken (c :: rest) = none) ∧
      (format = [] →
        compileFormat format = makeInvalidParser format 0 "format is empty".toList) ∧
      ∀ ts c rest, SplitsTo format ts (c :: rest) → nextToken (c :: rest) = none →
        isSeparator c = false ∧ (ts.flatMap Token.text).length < 2 ^ 31 ∧
          compileFormat format =
            makeInvalidParser format (ts.flatMap Token.text).length (complaint c) := by
  have hempty : format = [] →
      compileFormat format = makeInvalidParser format 0 "format is empty".toList := by
    rintro rfl
    rfl
  have hstops (ts : List Token) (c : Char) (rest : List Char)
      (hts : SplitsTo format ts (c :: rest)) (hnone : nextToken (c :: rest) = none) :
      compileFormat format =
        makeInvalidParser format (ts.flatMap Token.text).length (complaint c) := by
    have hne : ¬ format.isEmpty = true := by
      intro he
      rw [List.isEmpty_iff.mp he] at hts
      exact not_splitsTo_nil hts
    rw [compileFormat, if_neg hne, compileLoop_complains format {} (Nat.le_add_left _ 0) hts hnone,
      Nat.zero_add]
  refine ⟨⟨fun hinvalid => ?_, ?_⟩, hempty, fun ts c rest hts hnone => ⟨?_, ?_, hstops ts c
    rest hts hnone⟩⟩
  · by_cases hnil : format = []
    · exact Or.inl hnil
    · refine Or.inr ((splits_or_stops format).resolve_left ?_)
      rintro ⟨ts, hts⟩
      rw [compileFormat_of_splits hts hnil] at hinvalid
      cases hinvalid
  · rintro (hnil | ⟨ts, c, rest, hts, hnone⟩)
    · rw [hempty hnil]
      rfl
    · rw [hstops ts c rest hts hnone]
      rfl
  · by_contra hseparator
    have htoken := (isSeparator_iff c).mp ((Bool.not_eq_false _).mp hseparator) rest
    rw [hnone] at htoken
    cases htoken
  · have hlength := congrArg List.length hts.flatMap_text
    rw [List.length_append] at hlength
    omega

theorem compileFormat_errors_month : (compileFormat "YYYY-MMMM".toList).error =
    "Invalid timestamp format \"YYYY-MMMM\": 'M' must appear as MM or MMM (position 8)".toList := by
  have hsplits : SplitsTo "YYYY-MMMM".toList [.fourDigitYear, .literal '-', .monthName] ['M'] :=
    .cons rfl (.cons rfl (.cons rfl (.nil _)))
  rw [((compileFormat_errors _ (by decide)).2.2 _ _ _ hsplits rfl).2.2]
  decide

end Eestv
