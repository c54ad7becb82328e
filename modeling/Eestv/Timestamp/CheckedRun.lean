import Eestv.Timestamp.CheckedSteps
import Eestv.Timestamp.DateCheck

/-! The texts over which all sums of indices are of type `int`. On them the run of a compiled format
is the run of its checked steps. -/

namespace Eestv
open StringView

structure VerdictOnly (indexJump : ℤ) (output : DateAndTime) (r : StepResult) : Prop where
  output_eq : r.output = output
  on_success : r.accepted = true → r.indexJump = 0
  on_failure : r.accepted = false → r.indexJump = indexJump

def LookAheadFits (ts : List Token) (text : StringView) : Prop :=
  ∀ t ∈ ts, ∀ n, t = .fraction n → n ≤ 9 ∧ (text.size : ℤ) + n < 2 ^ 31

/-- Fewer than 2^31 - 8 characters, or 2^31 - 9 for a nine-digit fraction. -/
def FitsInt (ts : List Token) (text : StringView) : Prop :=
  text.size < 2 ^ 31 - 8 ∧ (.fraction 9 ∈ ts → text.size < 2 ^ 31 - 9)

/-- The steps of a format with the tokens `ts` come to `run`, and so do the checked ones: nothing is
read outside of the text, and no sum leaves `int`. -/
structure RunsTo (format : List Char) (ts : List Token) (text : StringView) (i : ℤ)
    (output : DateAndTime) (run : StepResult) : Prop where
  steps_eq : runSteps text (compileFormat format).steps i output = run
  checked_eq :
    checkedRun text (ts.map Token.checkedStep ++ checkedDateCheck ts) i output = some run

variable {text : StringView} {ts : List Token} {format : List Char}

theorem dateValidator_verdict (hasYear : Bool) (text : StringView) (index j : ℤ)
    (d : DateAndTime) : VerdictOnly j d (makeDateValidator hasYear text index j d) := by
  unfold makeDateValidator
  dsimp only
  split
  · exact ⟨rfl, fun _ => rfl, fun h => absurd h.symm Bool.false_ne_true⟩
  · split
    · exact ⟨rfl, fun h => absurd h Bool.false_ne_true, fun _ => rfl⟩
    · exact ⟨rfl, fun _ => rfl, fun h => absurd h.symm Bool.false_ne_true⟩

theorem LookAheadFits.fraction_le (h : LookAheadFits ts text) :
    ∀ t ∈ ts, ∀ n, t = .fraction n → n ≤ 9 := fun t ht n hn => (h t ht n hn).1

theorem FitsInt.lookAhead {cs : List Char} (hts : Splits cs ts) (h : FitsInt ts text) :
    LookAheadFits ts text := by
  rintro t ht n rfl
  have hsize := h.1
  have hle := hts.fraction_le _ ht n rfl
  refine ⟨hle, ?_⟩
  rcases Nat.lt_or_eq_of_le hle with hlt | rfl
  · omega
  · have hnine := h.2 ht
    omega

theorem FitsInt.room (h : FitsInt ts text) : (text.size : ℤ) + 8 < 2 ^ 31 := by
  have hsize := h.1
  omega

section Run

variable {i : ℕ}

theorem step_frame {t : Token} (hdigits : ∀ n, t = .fraction n → n ≤ 9) (hi : i ≤ text.size)
    (j : ℤ) (output : DateAndTime) :
    (∃ n : ℕ, ∃ u : Update, t.step text i j output = ⟨true, n, u.apply output⟩ ∧
        i + n ≤ text.size ∧ u.field = t.field) ∨
      t.step text i j output = ⟨false, j, output⟩ := by
  rw [t.step_reads hdigits hi j output]
  cases hread : t.read (text.suffix i) with
  | none => exact Or.inr rfl
  | some r =>
    obtain ⟨n, u⟩ := r
    have hspec := t.read_spec hdigits hread
    have hle := hspec.le_length
    rw [suffix_length] at hle
    exact Or.inl ⟨n, u, rfl, by omega, hspec.field_eq⟩

theorem checkedDateCheck_eq (ts : List Token) (hi : i ≤ text.size)
    (hroom : (text.size : ℤ) + 8 < 2 ^ 31) (output : DateAndTime) :
    checkedRun text (checkedDateCheck ts) i output =
      some (runSteps text (dateCheck ts) i output) := by
  unfold checkedDateCheck dateCheck
  split
  · have hverdict := dateValidator_verdict (hasField ts .year) text i 0 output
    simp only [checkedRun, runSteps, checkedDateValidator, Option.bind_some]
    split
    · rw [hverdict.on_success ‹_›, addInt_eq (by omega) (by omega), Option.bind_some]
    · rfl
  · rfl

theorem checkedRun_eq (checks : List Token) (hfits : LookAheadFits ts text)
    (hi : i ≤ text.size) (hroom : (text.size : ℤ) + 8 < 2 ^ 31) (output : DateAndTime) :
    checkedRun text (ts.map Token.checkedStep ++ checkedDateCheck checks) i output =
      some (runSteps text (ts.map Token.step ++ dateCheck checks) i output) := by
  induction ts generalizing i output with
  | nil => exact checkedDateCheck_eq checks hi hroom output
  | cons t ts ih =>
    have hstart : InText text i := ⟨Int.natCast_nonneg i, Int.ofNat_le.mpr hi, hroom⟩
    have hfirst := Token.checkedStep_eq (fun n hn => (hfits t List.mem_cons_self n hn).2) hstart 0
      output
    have hrest : LookAheadFits ts text := fun v hv => hfits v (List.mem_cons_of_mem t hv)
    rw [List.map_cons, List.map_cons, List.cons_append, List.cons_append, checkedRun, runSteps,
      hfirst, Option.bind_some]
    rcases step_frame (hfits.fraction_le t List.mem_cons_self) hi 0 output with
      ⟨n, u, hstep, hle, -⟩ | hstep
    · rw [hstep, if_pos rfl, if_pos rfl]
      dsimp only
      rw [addInt_eq (by omega) (by omega), Option.bind_some, ← Int.natCast_add]
      exact ih hrest hle _
    · rw [hstep]
      rfl

end Run

/-- An accepted format runs without a refusal from every index up to the end of the text. -/
theorem runsTo (hts : Splits format ts) (hne : ts ≠ [])
    (hsteps : (compileFormat format).steps = ts.map Token.step ++ dateCheck ts)
    (hfits : FitsInt ts text) {i : ℤ} (hi : i ≤ text.size) (output : DateAndTime) :
    RunsTo format ts text i output (runSteps text (compileFormat format).steps i output) := by
  refine ⟨rfl, ?_⟩
  rw [hsteps]
  by_cases hneg : i < 0
  · obtain ⟨t, ts, rfl⟩ := List.exists_cons_of_ne_nil hne
    obtain ⟨hchecked, hstep⟩ : t.checkedStep text i 0 output = some ⟨false, 0, output⟩ ∧
        t.step text i 0 output = ⟨false, 0, output⟩ := t.step_of_neg hneg 0 output
    rw [List.map_cons, List.map_cons, List.cons_append, List.cons_append, checkedRun, runSteps,
      hchecked, hstep]
    rfl
  · obtain ⟨k, rfl⟩ := Int.eq_ofNat_of_zero_le (Int.not_lt.mp hneg)
    exact checkedRun_eq ts (hfits.lookAhead hts) (Int.ofNat_le.mp hi) hfits.room output

/-! ### A sum that wraps around -/

/-- The fraction step of a machine on which the sum of the look-ahead wraps around. -/
def wrappedFraction (digits : ℕ) : DateAndTimeParserStep :=
  fun toParse index indexJump output =>
    if index < 0 ∨ Int.bmod (index + digits) (2 ^ 32) > toParse.size then
      ⟨false, indexJump, output⟩
    else
      match fractionLoop toParse index digits 0 0 with
      | none => ⟨false, indexJump, output⟩
      | some value => ⟨true, digits, { output with nanosecond := scaleLoop (9 - digits) value }⟩

theorem wrappedFraction_eq {index : ℤ} {digits : ℕ} (h0 : 0 ≤ index)
    (hfits : index + digits < 2 ^ 31) (j : ℤ) (output : DateAndTime) :
    wrappedFraction digits text index j output =
      makeFractionParser digits text index j output := by
  unfold wrappedFraction
  rw [Int.bmod_eq_of_le (by omega) (by omega)]
  rfl

def longText : StringView := ⟨2 ^ 31 - 9, fun _ => '0'⟩

end Eestv
