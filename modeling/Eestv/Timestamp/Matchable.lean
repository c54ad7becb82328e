import Mathlib.Data.List.Chain
import Eestv.Timestamp.CheckedRun
import Eestv.Timestamp.Grammar
import Eestv.Timestamp.RoundTrip

/-! The accepted formats that match some text: a token that reads digits to their end must
not stand in front of a token or a literal that begins with a digit. -/

namespace Eestv
open Decimal StringView

namespace Token

/-- The tokens that read as many digits as there are. -/
def Greedy : Token → Prop
  | variableSecond | variableFraction => True
  | _ => False

def BeginsWithDigit : Token → Prop
  | literal c => c.isDigit = true
  | fourDigitYear | twoDigitYear | month | day | hour _ | minute | second | variableSecond
  | fraction _ | variableFraction => True
  | monthName | paddedDay | utcDesignator | utcOffset _ => False

/-- A text of the token; the one of a padded day begins with a space. -/
def sample : Token → List Char
  | literal c => [c]
  | fourDigitYear => padded 4 2000
  | twoDigitYear => padded 2 0
  | month | day => padded 2 1
  | monthName => "jan".toList
  | paddedDay => ' ' :: padded 1 1
  | hour _ | minute | second => padded 2 0
  | variableSecond | variableFraction => padded 1 0
  | fraction digits => padded digits 0
  | utcDesignator => ['Z']
  | utcOffset withColon => '+' :: (padded 2 0 ++ (if withColon then [':'] else []) ++ padded 2 0)

end Token

/-- No token that reads digits to their end is followed by one that begins with a digit. -/
def Unblocked (ts : List Token) : Prop := ts.IsChain fun t u => t.Greedy → ¬ u.BeginsWithDigit

def sampleDate : DateAndTime := { year := 2000, month := 1, day := 1, utcOffsetMinutes := some 0 }

section Samples

variable {t : Token} {ts : List Token} {cs rest : List Char}

theorem admits_sampleDate (t : Token) : t.Admits sampleDate := by
  cases t with
  | literal c => exact trivial
  | fraction digits => exact ⟨by decide, Nat.dvd_zero _⟩
  | utcOffset withColon => exact ⟨0, rfl, by decide, by decide⟩
  | utcDesignator => rfl
  | _ => simp [Token.Admits, sampleDate]

theorem sample_spelling (t : Token) : t.Spelling sampleDate t.sample := by
  cases t with
  | paddedDay => exact Or.inr ⟨by decide, Or.inl rfl⟩
  | variableSecond => exact ⟨by decide, padded_digits 1 0, rfl⟩
  | variableFraction => exact ⟨by decide, padded_digits 1 0, rfl⟩
  | fraction digits =>
    rw [Token.Spelling, sampleDate, Nat.zero_div]
    rfl
  | utcDesignator => exact Or.inl rfl
  | utcOffset withColon =>
    exact ⟨'+', 0, 0, by decide, by decide, Or.inl ⟨rfl, rfl⟩, rfl⟩
  | _ => rfl

theorem sample_length (t : Token) : t.sample.length ≤ 3 * t.text.length := by
  cases t with
  | fraction digits =>
    rw [Token.sample, padded_length, Token.text, List.length_replicate]
    omega
  | hour capital => cases capital <;> decide
  | utcOffset withColon => cases withColon <;> decide
  | _ => exact Nat.le_of_ble_eq_true rfl

theorem samples_length (ts : List Token) :
    (ts.flatMap Token.sample).length ≤ 3 * (ts.flatMap Token.text).length := by
  induction ts with
  | nil => exact Nat.zero_le _
  | cons t ts ih =>
    have hle := sample_length t
    rw [List.flatMap_cons, List.flatMap_cons, List.length_append, List.length_append]
    omega

theorem sample_head (ht : t.Documented) (h : ¬ t.BeginsWithDigit) (rest : List Char) :
    ∀ c ∈ (t.sample ++ rest).head?, c.isDigit = false := by
  intro c hc
  cases t with
  | literal d =>
    rw [← Option.some.inj hc]
    exact eq_false_of_ne_true h
  | monthName => rw [← Option.some.inj hc]; rfl
  | paddedDay => rw [← Option.some.inj hc]; rfl
  | utcDesignator => rw [← Option.some.inj hc]; rfl
  | utcOffset withColon => rw [← Option.some.inj hc]; rfl
  | _ => exact absurd trivial h

theorem renders_samples (hdoc : ∀ t ∈ ts, t.Documented) (h : Unblocked ts) :
    Renders sampleDate ts (ts.flatMap Token.sample) := by
  induction ts with
  | nil => exact .nil
  | cons t ts ih =>
    rw [List.flatMap_cons]
    refine .cons (sample_spelling t) ?_ (ih (fun u hu => hdoc u (List.mem_cons_of_mem t hu)) ?_)
    · have hnext : t.Greedy → ∀ c ∈ (ts.flatMap Token.sample).head?, c.isDigit = false := by
        intro ht
        cases ts with
        | nil => exact fun c hc => absurd hc (by simp)
        | cons u us =>
          rw [List.flatMap_cons]
          exact sample_head (hdoc u (by simp)) ((List.isChain_cons_cons.mp h).1 ht) _
      cases t with
      | variableSecond => exact hnext trivial
      | variableFraction => exact hnext trivial
      | paddedDay => exact fun hlen => absurd hlen (by decide)
      | _ => exact trivial
    · exact h.tail

end Samples

/-! ### What a reading shows of the tokens -/

section Readings

variable {t : Token} {ts : List Token} {cs : List Char} {n : ℕ} {u : Update}

theorem readDigits_head {v : ℕ} (hn : 0 < n) (h : readDigits n cs = some v) :
    ∃ c ∈ cs.head?, c.isDigit = true := by
  obtain ⟨hle, hdigits, -⟩ := readDigits_eq_some.mp h
  cases cs with
  | nil => exact absurd hn (Nat.not_lt.mpr hle)
  | cons c cs =>
    obtain ⟨n, rfl⟩ := Nat.exists_eq_add_one.mpr hn
    exact ⟨c, rfl, hdigits c List.mem_cons_self⟩

theorem takeWhile_isDigit_head (h : cs.takeWhile Char.isDigit ≠ []) :
    ∃ c ∈ cs.head?, c.isDigit = true := by
  cases cs with
  | nil => exact absurd rfl h
  | cons c cs =>
    rw [Ne, takeWhile_isDigit_eq_nil, not_not] at h
    exact ⟨c, rfl, h⟩

theorem head_of_read (ht : t.Documented) (hdigit : t.BeginsWithDigit)
    (h : t.read cs = some (n, u)) : ∃ c ∈ cs.head?, c.isDigit = true := by
  have hmap {k : ℕ} {β : Type} {f : ℕ → β} {b : β} (hk : 0 < k)
      (h : (readDigits k cs).map f = some b) : ∃ c ∈ cs.head?, c.isDigit = true := by
    obtain ⟨v, hv, -⟩ := Option.map_eq_some_iff.mp h
    exact readDigits_head hk hv
  have hbetween {low high : ℕ} {β : Type} {f : ℕ → β} {b : β}
      (h : (readBetween low high cs).map f = some b) : ∃ c ∈ cs.head?, c.isDigit = true := by
    obtain ⟨v, hv, -⟩ := Option.map_eq_some_iff.mp h
    exact readDigits_head Nat.two_pos (readBetween_eq_some.mp hv).1
  cases t with
  | literal c =>
    rw [Token.read] at h
    split at h
    · exact ⟨c, ‹_›, hdigit⟩
    · cases h
  | fourDigitYear => exact hmap (by decide) h
  | twoDigitYear => exact hmap (by decide) h
  | fraction digits => exact hmap ht.1 h
  | month => exact hbetween h
  | day => exact hbetween h
  | hour capital => exact hbetween h
  | minute => exact hbetween h
  | second => exact hbetween h
  | variableSecond =>
    rw [Token.read] at h
    split at h
    · exact takeWhile_isDigit_head (‹_ ∧ _›).1
    · cases h
  | variableFraction =>
    rw [Token.read] at h
    split at h
    · exact takeWhile_isDigit_head ‹_›
    · cases h
  | monthName => exact hdigit.elim
  | paddedDay => exact hdigit.elim
  | utcDesignator => exact hdigit.elim
  | utcOffset withColon => exact hdigit.elim

/-- Behind a token that reads digits to their end there is none left. -/
theorem head_behind_greedy (ht : t.Greedy) (h : t.read cs = some (n, u)) :
    ∀ c ∈ (cs.drop n).head?, c.isDigit = false := by
  have hrest : ∀ c ∈ (cs.drop (cs.takeWhile Char.isDigit).length).head?, c.isDigit = false := by
    have hdrop : cs.drop (cs.takeWhile Char.isDigit).length = cs.dropWhile Char.isDigit := by
      conv => lhs; arg 2; rw [← List.takeWhile_append_dropWhile (p := Char.isDigit) (l := cs)]
      exact List.drop_left' rfl
    intro c hc
    have hnot := List.head?_dropWhile_not Char.isDigit cs
    rw [← hdrop, Option.mem_def.mp hc] at hnot
    simpa using hnot
  cases t with
  | variableSecond =>
    rw [Token.read] at h
    split at h
    · obtain ⟨rfl, -⟩ := Prod.mk.inj (Option.some.inj h)
      exact hrest
    · cases h
  | variableFraction =>
    rw [Token.read] at h
    split at h
    · obtain ⟨rfl, -⟩ := Prod.mk.inj (Option.some.inj h)
      exact hrest
    · cases h
  | _ => exact ht.elim

theorem unblocked_of_readTokens (hdoc : ∀ t ∈ ts, t.Documented) {us : List Update}
    (h : readTokens ts cs = some (n, us)) : Unblocked ts := by
  induction ts generalizing cs n us with
  | nil => exact .nil
  | cons t ts ih =>
    obtain ⟨k, m, u, vs, hread, hvs, -, -⟩ := readTokens_cons.mp h
    have htail := ih (fun v hv => hdoc v (List.mem_cons_of_mem t hv)) hvs
    cases ts with
    | nil => exact .singleton t
    | cons t' ts =>
      refine .cons_cons (fun hgreedy hdigit => ?_) htail
      obtain ⟨k', m', u', vs', hread', -, -, -⟩ := readTokens_cons.mp hvs
      obtain ⟨c, hc, htrue⟩ := head_of_read (hdoc t' (by simp)) hdigit hread'
      rw [head_behind_greedy hgreedy hread c hc] at htrue
      cases htrue

end Readings

/-! ### Any start index -/

section Start

variable {t : Token} {ts : List Token} {text : StringView} {i : ℤ}

theorem step_outside (ht : t.Documented) (hi : i < 0 ∨ text.size ≤ i) (j : ℤ)
    (output : DateAndTime) : t.step text i j output = ⟨false, j, output⟩ := by
  have hone : i < 0 ∨ i ≥ text.size := hi
  have htwo : tryParseTwoDigits text i = none := if_pos (by omega)
  have hfour : tryParseFourDigits text i = none := if_pos (by omega)
  cases t with
  | literal c => exact if_pos hone
  | fourDigitYear => rw [Token.step, makeFourDigitYearParser, hfour]
  | twoDigitYear => rw [Token.step, makeTwoDigitYearParser, htwo]
  | month => rw [Token.step, makeTwoDigitFieldParser, htwo]
  | monthName => exact if_pos (by omega)
  | day => rw [Token.step, makeTwoDigitFieldParser, htwo]
  | paddedDay => exact if_pos hone
  | hour capital => rw [Token.step, makeTwoDigitFieldParser, htwo]
  | minute => rw [Token.step, makeTwoDigitFieldParser, htwo]
  | second => rw [Token.step, makeSecondParser, htwo]
  | variableSecond => exact if_pos (hone.imp_right Or.inl)
  | fraction digits =>
    have hpos : 1 ≤ digits := ht.1
    exact if_pos (by omega)
  | variableFraction => exact if_pos (hone.imp_right Or.inl)
  | utcDesignator => exact if_pos hone
  | utcOffset withColon => exact if_pos hone

theorem runSteps_outside (hdoc : ∀ t ∈ ts, t.Documented) (hne : ts ≠ [])
    (hi : i < 0 ∨ text.size ≤ i) (rest : List DateAndTimeParserStep) (output : DateAndTime) :
    runSteps text (ts.map Token.step ++ rest) i output = ⟨false, i, output⟩ := by
  obtain ⟨t, ts, rfl⟩ := List.exists_cons_of_ne_nil hne
  rw [List.map_cons, List.cons_append, runSteps,
    step_outside (hdoc t List.mem_cons_self) hi 0 output]
  rfl

theorem Splits.documented {cs : List Char} (h : Splits cs ts) : ∀ t ∈ ts, t.Documented := by
  induction h with
  | nil => exact fun t ht => absurd ht List.not_mem_nil
  | cons ht _ ih =>
    intro u hu
    rcases List.mem_cons.mp hu with rfl | hu
    · exact nextToken_documented ht
    · exact ih u hu

theorem Splits.ne_nil {cs : List Char} (h : Splits cs ts) (hcs : cs ≠ []) : ts ≠ [] := by
  cases h with
  | nil => exact absurd rfl hcs
  | cons _ _ => exact List.cons_ne_nil _ _

theorem ne_nil_of_valid {format : List Char} (h : (compileFormat format).valid = true) :
    format ≠ [] := fun hnil => not_valid_nil (hnil ▸ h)

theorem readTokens_of_accepted (hdoc : ∀ t ∈ ts, t.Documented) (hne : ts ≠ [])
    {rest : List DateAndTimeParserStep} {output : DateAndTime}
    (h : (runSteps text (ts.map Token.step ++ rest) i output).accepted = true) :
    ∃ k : ℕ, i = k ∧ k ≤ text.size ∧ ∃ n us, readTokens ts (text.suffix k) = some (n, us) := by
  by_cases hi : i < 0 ∨ text.size ≤ i
  · rw [runSteps_outside hdoc hne hi] at h
    cases h
  · obtain ⟨k, rfl⟩ := Int.eq_ofNat_of_zero_le (Int.not_lt.mp fun h' => hi (Or.inl h'))
    have hk : k ≤ text.size := by omega
    refine ⟨k, rfl, hk, ?_⟩
    cases hread : readTokens ts (text.suffix k) with
    | none =>
      rw [(runSteps_tokens (fraction_le_of_documented hdoc) rest hk output).2 hread] at h
      cases h
    | some r => exact ⟨r.1, r.2, rfl⟩

end Start

/-! ### The formats that match -/

theorem foldl_sampleDate (ts : List Token) {d : DateAndTime} (hm : d.month ≤ 1) (hd : d.day ≤ 1) :
    ((ts.map (Token.update sampleDate)).foldl Update.apply d).month ≤ 1 ∧
      ((ts.map (Token.update sampleDate)).foldl Update.apply d).day ≤ 1 := by
  induction ts generalizing d with
  | nil => exact ⟨hm, hd⟩
  | cons t ts ih =>
    rw [List.map_cons, List.foldl_cons]
    apply ih
    · cases t <;> first | exact hm | exact Nat.le_refl 1
    · cases t <;> first | exact hd | exact Nat.le_refl 1

theorem dateFits_january {ts : List Token} {d : DateAndTime} (hm : d.month ≤ 1) (hd : d.day ≤ 1) :
    DateFits ts d := by
  intro hmonth _
  rw [show d.month = 1 by omega]
  exact Nat.le_trans hd (show 1 ≤ 31 by decide)

theorem readTokens_samples {ts : List Token} (hdoc : ∀ t ∈ ts, t.Documented)
    (h : Unblocked ts) : readTokens ts (ts.flatMap Token.sample) =
      some ((ts.flatMap Token.sample).length, ts.map (Token.update sampleDate)) :=
  (renders_samples hdoc h).readTokens (fraction_le_of_documented hdoc)
    fun t _ => admits_sampleDate t

theorem fitsInt_samples {format : List Char} {ts : List Token} (hts : Splits format ts)
    (hlength : 3 * format.length < 2 ^ 31 - 9) :
    FitsInt ts (ofList (ts.flatMap Token.sample)) := by
  have hle := samples_length ts
  rw [hts.flatMap_text] at hle
  have hsize : (ofList (ts.flatMap Token.sample)).size < 2 ^ 31 - 9 :=
    Nat.lt_of_le_of_lt hle hlength
  exact ⟨by omega, fun _ => hsize⟩

theorem accepted_samples {format : List Char} {ts : List Token} (hts : Splits format ts)
    (h : Unblocked ts) :
    (runSteps (ofList (ts.flatMap Token.sample)) (ts.map Token.step ++ dateCheck ts) 0
      {}).accepted = true := by
  have hread := readTokens_samples hts.documented h
  have hsuffix : (ofList (ts.flatMap Token.sample)).suffix 0 = ts.flatMap Token.sample :=
    ofList_suffix _ 0
  rw [← hsuffix] at hread
  obtain ⟨-, hrun⟩ := (runSteps_tokens hts.fraction_le (dateCheck ts) (Nat.zero_le _) {}).1 _ _
    hread
  obtain ⟨hm, hd⟩ := foldl_sampleDate ts (d := {}) (Nat.zero_le 1) (Nat.zero_le 1)
  rw [Int.natCast_zero] at hrun
  rw [hrun]
  exact (runSteps_dateCheck _ ts _ _).2.2.mpr fun _ => dateFits_january hm hd

end Eestv
