import Eestv.Timestamp.CheckedRun
import Eestv.Timestamp.Independence

/-! A run of a compiled format stays inside the text and writes a field as a whole or not
at all. The nine-digit fraction looks nine characters ahead before it reads any, which at
the very end of the longest texts is one more than an `int` can hold. -/

namespace Eestv
open StringView

/-- What a step may read and change, whatever `index_jump` was before. -/
structure SafeStep (t : Token) (text : StringView) (index : ℤ) (output : DateAndTime) : Prop where
  reads_text : ∀ j, t.checkedStep text index j output = some (t.step text index j output)
  on_success : ∀ j, (t.step text index j output).accepted = true →
    0 ≤ (t.step text index j output).indexJump ∧
      index + (t.step text index j output).indexJump ≤ text.size ∧
      ∀ f, t.field ≠ some f → f.Same (t.step text index j output).output output
  on_failure : ∀ j, (t.step text index j output).accepted = false →
    t.step text index j output = ⟨false, j, output⟩

structure SafeRun (ts : List Token) (text : StringView) (i : ℤ) (output : DateAndTime) :
    Prop where
  reads_text : checkedRun text (ts.map Token.checkedStep ++ checkedDateCheck ts) i output =
    some (runSteps text (ts.map Token.step ++ dateCheck ts) i output)
  steps : ∀ us t vs, ts = us ++ t :: vs →
    let r := runSteps text (us.map Token.step) i output
    r.accepted = true →
      0 ≤ r.indexJump ∧ r.indexJump ≤ text.size ∧ SafeStep t text r.indexJump r.output
  unnamed : ∀ f, hasField ts f ≠ true →
    f.Same (runSteps text (ts.map Token.step ++ dateCheck ts) i output).output output

variable {text : StringView} {ts : List Token} {i : ℕ}

/-! ### One step -/

theorem safeStep {t : Token}
    (hfits : ∀ n, t = .fraction n → n ≤ 9 ∧ (text.size : ℤ) + n < 2 ^ 31)
    (hi : i ≤ text.size) (hroom : (text.size : ℤ) + 8 < 2 ^ 31) (output : DateAndTime) :
    SafeStep t text i output := by
  have hstart : InText text i := ⟨Int.natCast_nonneg i, Int.ofNat_le.mpr hi, hroom⟩
  have hdigits : ∀ n, t = .fraction n → n ≤ 9 := fun n hn => (hfits n hn).1
  refine ⟨?_, ?_, ?_⟩
  · intro j
    exact Token.checkedStep_eq (fun n hn => (hfits n hn).2) hstart j output
  · intro j haccepted
    rcases step_frame hdigits hi j output with ⟨n, u, hstep, hle, hfield⟩ | hstep
    · rw [hstep]
      refine ⟨Int.natCast_nonneg n, by dsimp only; omega, fun f hf => ?_⟩
      exact Update.apply_same_of_unnamed (hfield ▸ hf)
    · rw [hstep] at haccepted
      exact absurd haccepted Bool.false_ne_true
  · intro j hrefused
    rcases step_frame hdigits hi j output with ⟨n, u, hstep, -, -⟩ | hstep
    · rw [hstep] at hrefused
      exact absurd hrefused.symm Bool.false_ne_true
    · exact hstep

/-! ### The run -/

theorem hasField_take {f : Field} (n : ℕ) (h : hasField ts f ≠ true) :
    hasField (ts.take n) f ≠ true := by
  intro hfield
  obtain ⟨t, ht, heq⟩ := List.any_eq_true.mp hfield
  exact h (List.any_eq_true.mpr ⟨t, List.mem_of_mem_take ht, heq⟩)

theorem runSteps_same_of_unnamed (hdigits : ∀ t ∈ ts, ∀ n, t = .fraction n → n ≤ 9)
    (hi : i ≤ text.size) (output : DateAndTime) {f : Field} (hf : hasField ts f ≠ true) :
    f.Same (runSteps text (ts.map Token.step ++ dateCheck ts) i output).output output := by
  have hupdates := scanTokens_updates hdigits (text.suffix i)
  have hsame := foldl_same_of_unnamed (d := output) hupdates (hasField_take _ hf)
  rw [runSteps_scan hdigits (dateCheck ts) hi, Scan.result]
  split
  · rw [(runSteps_dateCheck text ts _ _).1]
    exact hsame
  · exact hsame

theorem index_of_accepted (hdigits : ∀ t ∈ ts, ∀ n, t = .fraction n → n ≤ 9)
    (hi : i ≤ text.size) {output : DateAndTime}
    (h : (runSteps text (ts.map Token.step) i output).accepted = true) :
    ∃ k : ℕ, (runSteps text (ts.map Token.step) i output).indexJump = k ∧ k ≤ text.size := by
  obtain ⟨hsome, hnone⟩ := runSteps_tokens hdigits [] hi output
  rw [List.append_nil] at hsome hnone
  cases hread : readTokens ts (text.suffix i) with
  | none =>
    rw [hnone hread] at h
    exact absurd h Bool.false_ne_true
  | some r =>
    obtain ⟨hle, hrun⟩ := hsome r.1 r.2 hread
    exact ⟨i + r.1, by rw [hrun]; rfl, hle⟩

theorem safeRun (hfits : LookAheadFits ts text) (hi : i ≤ text.size)
    (hroom : (text.size : ℤ) + 8 < 2 ^ 31) (output : DateAndTime) : SafeRun ts text i output := by
  have hdigits := hfits.fraction_le
  refine ⟨checkedRun_eq ts hfits hi hroom output, ?_, ?_⟩
  · rintro us t vs rfl r haccepted
    have hearlier : ∀ u ∈ us, ∀ n, u = .fraction n → n ≤ 9 := fun u hu =>
      hdigits u (List.mem_append_left _ hu)
    obtain ⟨k, hk, hle⟩ := index_of_accepted hearlier hi haccepted
    change r.indexJump = k at hk
    rw [hk]
    refine ⟨Int.natCast_nonneg k, Int.ofNat_le.mpr hle, ?_⟩
    exact safeStep (hfits t (List.mem_append_right _ List.mem_cons_self)) hle hroom r.output
  · intro f hf
    exact runSteps_same_of_unnamed hdigits hi output hf

/-- Running an accepted format over a text of less than 2^31 - 8 characters, or 2^31 - 9 when
it has a nine-digit fraction, reads only the text, keeps the index inside it, and changes the
fields of the tokens it has passed and no others; the date check changes nothing. -/
theorem run_frame (format : List Char) (hvalid : (compileFormat format).valid = true) :
    ∃ ts, Splits format ts ∧
      (compileFormat format).steps = ts.map Token.step ++ dateCheck ts ∧
      (∀ text : StringView, text.size < 2 ^ 31 - 8 →
        (.fraction 9 ∈ ts → text.size < 2 ^ 31 - 9) →
        ∀ i : ℕ, i ≤ text.size → ∀ output, SafeRun ts text i output) ∧
      ∀ (hasYear : Bool) (text : StringView) (index j : ℤ) (d : DateAndTime),
        VerdictOnly j d (makeDateValidator hasYear text index j d) := by
  obtain ⟨ts, hts, hsteps⟩ := compileFormat_valid hvalid
  refine ⟨ts, hts, hsteps, ?_, dateValidator_verdict⟩
  intro text hsize hnine i hi output
  have hfits : FitsInt ts text := ⟨hsize, hnine⟩
  exact safeRun (hfits.lookAhead hts) hi hfits.room output

theorem run_frame_seconds :
    SafeRun [.second, .fraction 3] (ofList "59123".toList) (0 : ℕ) {} := by
  obtain ⟨ts, hts, -, hsafe, -⟩ := run_frame "ssfff".toList (by decide)
  have hsplit : Splits "ssfff".toList [.second, .fraction 3] := .cons rfl (.cons rfl .nil)
  obtain rfl := hts.unique hsplit
  exact hsafe _ (by decide) (by decide) 0 (by decide) {}

/-- At its end the nine-digit fraction computes the index 2^31, which is no `int`. Where the
sum wraps around instead, the comparison with the size lets the step read the character
behind the text. -/
theorem run_frame_fails :
    longText.size < 2 ^ 31 - 8 ∧ (compileFormat "fffffffff".toList).valid = true ∧
      Splits "fffffffff".toList [.fraction 9] ∧
      (Token.fraction 9).checkedStep longText longText.size 0 {} = none ∧
      ¬ Int.bmod (longText.size + 9) (2 ^ 32) > longText.size ∧
      longText.readAt longText.size = none ∧
      ¬ SafeRun [.fraction 9] longText longText.size {} := by
  have hrefused : (Token.fraction 9).checkedStep longText longText.size 0 {} = none := by decide
  refine ⟨by decide, by decide, .cons rfl .nil, hrefused, by decide, by decide, ?_⟩
  intro h
  have hreads := h.reads_text
  change ((Token.fraction 9).checkedStep longText longText.size 0 {}).bind _ = _ at hreads
  rw [hrefused] at hreads
  exact absurd hreads (Option.some_ne_none _).symm

end Eestv
