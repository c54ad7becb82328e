import Eestv.Timestamp.Matchable
import Eestv.Timestamp.WellFormed

/-! What a run makes of old contents of the output: the fields that the tokens name do not
depend on them, but the date check may read a month or a day that no token has written. -/

namespace Eestv
open StringView

/-- Two runs with one verdict and one end index, and, where they accept, with the same values
in the fields that tokens name. -/
structure SameParse (ts : List Token) (r r' : StepResult) : Prop where
  accepted : r.accepted = r'.accepted
  indexJump : r.indexJump = r'.indexJump
  named : r.accepted = true → ∀ f, hasField ts f = true → f.Same r.output r'.output

section Fold

variable {ts : List Token} {us : List Update} {d d' : DateAndTime} {f : Field}

theorem Update.apply_same_of_named {u : Update} (h : f.Same d d' ∨ u.field = some f) :
    f.Same (u.apply d) (u.apply d') := by
  cases u with
  | keep => exact h.resolve_right (Option.some_ne_none f ∘ Eq.symm)
  | second value =>
    cases f with
    | second => exact ⟨rfl, rfl⟩
    | _ => exact h.resolve_right (by rintro ⟨⟩)
  | _ => cases f <;> first | rfl | exact h.resolve_right (by rintro ⟨⟩)

theorem foldl_same_of_named (h : List.Forall₂ Updates ts us)
    (hf : f.Same d d' ∨ hasField ts f = true) :
    f.Same (us.foldl Update.apply d) (us.foldl Update.apply d') := by
  induction h generalizing d d' with
  | nil => exact hf.resolve_right (by simp [hasField])
  | cons hu _ ih =>
    rw [hasField_cons, ← or_assoc, ← hu.field_eq] at hf
    exact ih (hf.imp_left Update.apply_same_of_named)

theorem Update.apply_same_of_unnamed {u : Update} (h : u.field ≠ some f) :
    f.Same (u.apply d) d := by
  cases u <;> cases f <;> first | rfl | exact ⟨rfl, rfl⟩ | exact absurd rfl h

theorem Field.Same.trans {a b c : DateAndTime} (h : f.Same a b) (h' : f.Same b c) :
    f.Same a c := by
  cases f with
  | second => exact ⟨h.1.trans h'.1, h.2.trans h'.2⟩
  | _ => exact Eq.trans h h'

theorem Field.Same.refl (f : Field) (d : DateAndTime) : f.Same d d := by
  cases f with
  | second => exact ⟨rfl, rfl⟩
  | _ => exact Eq.refl _

theorem foldl_same_of_unnamed (h : List.Forall₂ Updates ts us) (hf : hasField ts f ≠ true) :
    f.Same (us.foldl Update.apply d) d := by
  induction h generalizing d with
  | nil => exact Field.Same.refl f d
  | cons hu _ ih =>
    rw [Ne, hasField_cons, not_or, ← hu.field_eq] at hf
    exact (ih hf.2).trans (Update.apply_same_of_unnamed hf.1)

end Fold

section Independence

variable {ts : List Token} {text : StringView} {d d' : DateAndTime}

theorem maxDayInMonth_le (month : ℕ) (leapYear : Bool) : maxDayInMonth month leapYear ≤ 31 := by
  unfold maxDayInMonth
  split <;> cases leapYear <;> decide

theorem dateCheck_accepted_eq {us : List Update} (h : List.Forall₂ Updates ts us)
    (hfields : hasField ts .month = hasField ts .day) (i : ℤ) :
    (runSteps text (dateCheck ts) i (us.foldl Update.apply d)).accepted =
      (runSteps text (dateCheck ts) i (us.foldl Update.apply d')).accepted := by
  rw [Bool.eq_iff_iff, (runSteps_dateCheck text ts i _).2.2, (runSteps_dateCheck text ts i _).2.2]
  refine forall_congr' fun hcheck => ?_
  rw [hfields, Bool.or_self] at hcheck
  have hmonth : (us.foldl Update.apply d).month = (us.foldl Update.apply d').month :=
    foldl_same_of_named (f := .month) h (Or.inr (hfields.trans hcheck))
  have hday : (us.foldl Update.apply d).day = (us.foldl Update.apply d').day :=
    foldl_same_of_named (f := .day) h (Or.inr hcheck)
  rw [DateFits, DateFits, hmonth, hday]
  cases hyear : hasField ts .year with
  | false => exact Iff.rfl
  | true =>
    have hsame : (us.foldl Update.apply d).year = (us.foldl Update.apply d').year :=
      foldl_same_of_named (f := .year) h (Or.inr hyear)
    rw [hsame]

theorem sameParse_of_check (hdoc : ∀ t ∈ ts, t.Documented) (hne : ts ≠ []) (text : StringView)
    (i : ℤ) (d d' : DateAndTime)
    (hcheck : ∀ (cs : List Char) (n : ℕ) (us : List Update), readTokens ts cs = some (n, us) →
      ∀ j : ℤ, (runSteps text (dateCheck ts) j (us.foldl Update.apply d)).accepted =
        (runSteps text (dateCheck ts) j (us.foldl Update.apply d')).accepted) :
    SameParse ts (runSteps text (ts.map Token.step ++ dateCheck ts) i d)
      (runSteps text (ts.map Token.step ++ dateCheck ts) i d') := by
  by_cases hi : i < 0 ∨ text.size ≤ i
  · rw [runSteps_outside hdoc hne hi, runSteps_outside hdoc hne hi]
    exact ⟨rfl, rfl, fun h => absurd h Bool.false_ne_true⟩
  · obtain ⟨k, rfl⟩ := Int.eq_ofNat_of_zero_le (Int.not_lt.mp fun h' => hi (Or.inl h'))
    have hk : k ≤ text.size := by omega
    have hdigits := fraction_le_of_documented hdoc
    rw [runSteps_scan hdigits (dateCheck ts) hk, runSteps_scan hdigits (dateCheck ts) hk,
      Scan.result, Scan.result]
    split
    · rename_i hcomplete
      have hread := readTokens_of_complete hcomplete
      generalize (scanTokens ts (text.suffix k)).updates = us at hread ⊢
      generalize ((k + (scanTokens ts (text.suffix k)).length : ℕ) : ℤ) = j
      obtain ⟨hout, hjump, -⟩ := runSteps_dateCheck text ts j (us.foldl Update.apply d)
      obtain ⟨hout', hjump', -⟩ := runSteps_dateCheck text ts j (us.foldl Update.apply d')
      refine ⟨hcheck _ _ us hread j, hjump.trans hjump'.symm, fun _ f hf => ?_⟩
      rw [hout, hout']
      exact foldl_same_of_named (readTokens_updates hdigits hread) (Or.inr hf)
    · exact ⟨rfl, rfl, fun h => absurd h Bool.false_ne_true⟩

/-- A month or a day left over from an earlier run that no date fits. -/
def stale (ts : List Token) : DateAndTime :=
  if hasField ts .month then { day := 32 } else { month := 13 }

theorem not_dateFits_stale {us : List Update} (h : List.Forall₂ Updates ts us)
    (hfields : hasField ts .month ≠ hasField ts .day) :
    ¬ DateFits ts (us.foldl Update.apply (stale ts)) := by
  intro hfits
  cases hmonth : hasField ts .month with
  | true =>
    have hday : hasField ts .day ≠ true := fun hday => hfields (hmonth.trans hday.symm)
    have hpos : 1 ≤ (us.foldl Update.apply (stale ts)).month := foldl_month_pos h (Or.inr hmonth)
    have hsame : Field.day.Same (us.foldl Update.apply (stale ts)) (stale ts) :=
      foldl_same_of_unnamed h hday
    rw [Field.Same, stale, if_pos hmonth] at hsame
    rw [stale, if_pos hmonth] at hpos hfits
    have hle := hfits (Nat.ne_of_gt hpos) (by rw [hsame]; decide)
    rw [hsame] at hle
    exact absurd (hle.trans (maxDayInMonth_le _ _)) (by decide)
  | false =>
    have hday : hasField ts .day = true := by
      rw [hmonth] at hfields
      exact eq_true_of_ne_false (Ne.symm hfields)
    have hne : ¬ hasField ts .month = true := by rw [hmonth]; exact Bool.false_ne_true
    have hpos : 1 ≤ (us.foldl Update.apply (stale ts)).day := foldl_day_pos h (Or.inr hday)
    have hsame : Field.month.Same (us.foldl Update.apply (stale ts)) (stale ts) :=
      foldl_same_of_unnamed h hne
    rw [Field.Same, stale, if_neg hne] at hsame
    rw [stale, if_neg hne] at hpos hfits
    have hle := hfits (by rw [hsame]; decide) (Nat.ne_of_gt hpos)
    rw [hsame] at hle
    exact absurd (hpos.trans hle) (Nat.not_le.mpr (Nat.succ_pos 0))

/-- Over the texts whose index sums are ints, the old output makes no difference to a format. -/
def Independent (format : List Char) (ts : List Token) : Prop :=
  ∀ text, FitsInt ts text → ∀ i : ℤ, i ≤ text.size → ∀ d d', ∃ run run',
    RunsTo format ts text i d run ∧ RunsTo format ts text i d' run' ∧ SameParse ts run run'

/-- The text of an unblocked format is accepted with one old output and rejected with another. -/
theorem not_sameParse_stale {format : List Char} (hts : Splits format ts) (h : Unblocked ts)
    (hfields : hasField ts .month ≠ hasField ts .day) :
    ¬ SameParse ts
      (runSteps (ofList (ts.flatMap Token.sample)) (ts.map Token.step ++ dateCheck ts) 0 {})
      (runSteps (ofList (ts.flatMap Token.sample)) (ts.map Token.step ++ dateCheck ts) 0
        (stale ts)) := by
  intro hsame
  have haccepted := accepted_samples hts h
  rw [hsame.accepted] at haccepted
  -- the same text with the stale output gets as far as the date check
  have hread := readTokens_samples hts.documented h
  have hsuffix : (ofList (ts.flatMap Token.sample)).suffix 0 = ts.flatMap Token.sample :=
    ofList_suffix _ 0
  rw [← hsuffix] at hread
  obtain ⟨-, hrun⟩ := (runSteps_tokens hts.fraction_le (dateCheck ts) (Nat.zero_le _)
    (stale ts)).1 _ _ hread
  rw [Int.natCast_zero] at hrun
  rw [hrun] at haccepted
  refine not_dateFits_stale (readTokens_updates hts.fraction_le hread) hfields ?_
  refine (runSteps_dateCheck _ ts _ _).2.2.mp haccepted ?_
  by_contra hnone
  obtain ⟨hmonth, hday⟩ := Bool.or_eq_false_iff.mp (eq_false_of_ne_true hnone)
  exact hfields (hmonth.trans hday.symm)

end Independence

/-- A format that names a month and a day or neither runs independently of the old output on every
text, and one that matches nothing does so over the texts whose index sums are ints. Over these
texts no other format does that is not too long for them. -/
theorem sameParse_iff (format : List Char) (hvalid : (compileFormat format).valid = true) :
    ∃ ts, Splits format ts ∧
      (hasField ts .month = hasField ts .day → ∀ (text : StringView) (i : ℤ) (d d' : DateAndTime),
        SameParse ts (runSteps text (compileFormat format).steps i d)
          (runSteps text (compileFormat format).steps i d')) ∧
      (¬ Unblocked ts → Independent format ts) ∧
      (3 * format.length < 2 ^ 31 - 9 → (Independent format ts ↔
        hasField ts .month = hasField ts .day ∨ ¬ Unblocked ts)) := by
  obtain ⟨ts, hts, hsteps⟩ := compileFormat_valid hvalid
  have hne := hts.ne_nil (ne_nil_of_valid hvalid)
  have hnamed (hfields : hasField ts .month = hasField ts .day) (text : StringView) (i : ℤ)
      (d d' : DateAndTime) : SameParse ts (runSteps text (ts.map Token.step ++ dateCheck ts) i d)
        (runSteps text (ts.map Token.step ++ dateCheck ts) i d') := by
    refine sameParse_of_check hts.documented hne text i d d' fun cs n us hread j => ?_
    exact dateCheck_accepted_eq (readTokens_updates hts.fraction_le hread) hfields j
  have hblocked (h : ¬ Unblocked ts) (text : StringView) (i : ℤ) (d d' : DateAndTime) :
      SameParse ts (runSteps text (ts.map Token.step ++ dateCheck ts) i d)
        (runSteps text (ts.map Token.step ++ dateCheck ts) i d') := by
    refine sameParse_of_check hts.documented hne text i d d' fun cs n us hread j => ?_
    exact absurd (unblocked_of_readTokens hts.documented hread) h
  have hindependent (h : ∀ text i d d', SameParse ts
      (runSteps text (ts.map Token.step ++ dateCheck ts) i d)
      (runSteps text (ts.map Token.step ++ dateCheck ts) i d')) : Independent format ts := by
    intro text hfits i hi d d'
    refine ⟨_, _, runsTo hts hne hsteps hfits hi d, runsTo hts hne hsteps hfits hi d', ?_⟩
    rw [hsteps]
    exact h text i d d'
  refine ⟨ts, hts, ?_, fun h => hindependent (hblocked h), fun hlength => ⟨fun h => ?_, ?_⟩⟩
  · rw [hsteps]
    exact hnamed
  · by_contra hnot
    obtain ⟨hfields, hunblocked⟩ := not_or.mp hnot
    obtain ⟨run, run', hrun, hrun', hsame⟩ := h _ (fitsInt_samples hts hlength) 0
      (Int.natCast_nonneg _) {} (stale ts)
    rw [← hrun.steps_eq, ← hrun'.steps_eq, hsteps] at hsame
    exact not_sameParse_stale hts (not_not.mp hunblocked) hfields hsame
  · rintro (hfields | h)
    · exact hindependent (hnamed hfields)
    · exact hindependent (hblocked h)

theorem sameParse_iff_date :
    SameParse [.month, .literal '-', .day]
      (runSteps (ofList "02-29".toList) (compileFormat "MM-DD".toList).steps 0 {})
      (runSteps (ofList "02-29".toList) (compileFormat "MM-DD".toList).steps 0
        { year := 2023, month := 12, day := 31 }) := by
  obtain ⟨ts, hts, hsame, -⟩ := sameParse_iff "MM-DD".toList (by decide)
  have hsplit : Splits "MM-DD".toList [.month, .literal '-', .day] :=
    .cons rfl (.cons rfl (.cons rfl .nil))
  obtain rfl := hts.unique hsplit
  exact hsame rfl _ _ _ _

/-- An output that was left with the 31st of some month makes February invalid. -/
theorem sameParse_fails :
    ¬ ∀ format : List Char, (compileFormat format).valid = true →
      ∀ ts, Splits format ts → ∀ (text : StringView) (i : ℤ) (d d' : DateAndTime),
        SameParse ts (runSteps text (compileFormat format).steps i d)
          (runSteps text (compileFormat format).steps i d') := by
  intro h
  have hsplit : Splits "MMM".toList [.monthName] := .cons rfl .nil
  have hsame := (h "MMM".toList (by decide) _ hsplit (ofList "Feb".toList) 0 {}
    { day := 31 }).accepted
  exact absurd hsame (by decide)

end Eestv
