import Eestv.Timestamp.Matchable
import Eestv.Timestamp.TokenScan

/-! A run looks at the text behind its start index only, and, when every token has a width of
its own, at no character behind the ones it consumes. -/

namespace Eestv
open StringView

namespace Token

def FixedWidth (t : Token) : Prop := t ∉ [paddedDay, variableSecond, variableFraction]

def width : Token → ℕ
  | literal _ => 1
  | fourDigitYear => 4
  | twoDigitYear | month | day | hour _ | minute | second => 2
  | monthName => 3
  | fraction digits => digits
  | utcDesignator => 1
  | utcOffset withColon => if withColon then 6 else 5
  | paddedDay | variableSecond | variableFraction => 0

end Token

section Prefixes

variable {t : Token} {ts : List Token} {cs cs' : List Char} {n m k : ℕ} {u : Update}

theorem readDigits_take (h : n ≤ m) (cs : List Char) :
    readDigits n (cs.take m) = readDigits n cs := by
  have hlen : n ≤ (cs.take m).length ↔ n ≤ cs.length := by
    rw [List.length_take, Nat.le_min]
    exact and_iff_right h
  rw [readDigits, readDigits, List.take_take, Nat.min_eq_left h]
  simp only [hlen]

theorem readBetween_take (low high : ℕ) (h : 2 ≤ m) (cs : List Char) :
    readBetween low high (cs.take m) = readBetween low high cs := by
  rw [readBetween, readBetween, readDigits_take h]

theorem head?_take_pos (h : 0 < m) (cs : List Char) : (cs.take m).head? = cs.head? := by
  rw [List.head?_take, if_neg (Nat.ne_of_gt h)]

theorem readOffset_take (withColon : Bool) (cs : List Char) :
    readOffset withColon (cs.take (if withColon then 6 else 5)) = readOffset withColon cs := by
  cases withColon with
  | false =>
    simp only [readOffset, Bool.false_eq_true, if_false, false_and, List.drop_take]
    rw [head?_take_pos (by decide), readBetween_take 0 23 (by decide),
      readBetween_take 0 59 (by decide)]
  | true =>
    have hcolon : (cs.take 6)[3]? = cs[3]? := by rw [List.getElem?_take, if_pos (by decide)]
    simp only [readOffset, if_true, true_and, List.drop_take, hcolon]
    rw [head?_take_pos (by decide), readBetween_take 0 23 (by decide),
      readBetween_take 0 59 (by decide)]

theorem read_take (ht : t.FixedWidth) (cs : List Char) : t.read (cs.take t.width) = t.read cs := by
  simp only [Token.FixedWidth, List.mem_cons, List.not_mem_nil, or_false, not_or] at ht
  cases t with
  | literal c => rw [Token.read, Token.read, Token.width, head?_take_pos Nat.one_pos]
  | fourDigitYear => rw [Token.read, Token.read, Token.width, readDigits_take (Nat.le_refl 4)]
  | twoDigitYear => rw [Token.read, Token.read, Token.width, readDigits_take (Nat.le_refl 2)]
  | month => rw [Token.read, Token.read, Token.width, readBetween_take 1 12 (Nat.le_refl 2)]
  | monthName =>
    rw [Token.read, Token.read, Token.width, readMonthName, readMonthName, List.take_take,
      Nat.min_self]
  | day => rw [Token.read, Token.read, Token.width, readBetween_take 1 31 (Nat.le_refl 2)]
  | hour capital => rw [Token.read, Token.read, Token.width, readBetween_take 0 23 (Nat.le_refl 2)]
  | minute => rw [Token.read, Token.read, Token.width, readBetween_take 0 59 (Nat.le_refl 2)]
  | second => rw [Token.read, Token.read, Token.width, readBetween_take 0 60 (Nat.le_refl 2)]
  | fraction digits =>
    rw [Token.read, Token.read, Token.width, readDigits_take (Nat.le_refl digits)]
  | utcDesignator => rw [Token.read, Token.read, Token.width, head?_take_pos Nat.one_pos]
  | utcOffset withColon => rw [Token.read, Token.read, Token.width, readOffset_take]
  | paddedDay => exact absurd rfl ht.1
  | variableSecond => exact absurd rfl ht.2.1
  | variableFraction => exact absurd rfl ht.2.2

theorem read_width (ht : t.FixedWidth) (h : t.read cs = some (n, u)) : n = t.width := by
  simp only [Token.FixedWidth, List.mem_cons, List.not_mem_nil, or_false, not_or] at ht
  have hmap {β : Type} {f : β → ℕ × Update} {o : Option β} (hf : ∀ v, (f v).1 = t.width)
      (h : o.map f = some (n, u)) : n = t.width := by
    obtain ⟨v, -, he⟩ := Option.map_eq_some_iff.mp h
    rw [← hf v, he]
  cases t with
  | literal c =>
    rw [Token.read, Option.ite_none_right_eq_some] at h
    exact (congrArg Prod.fst (Option.some.inj h.2)).symm
  | utcDesignator =>
    rw [Token.read, Option.ite_none_right_eq_some] at h
    exact (congrArg Prod.fst (Option.some.inj h.2)).symm
  | paddedDay => exact absurd rfl ht.1
  | variableSecond => exact absurd rfl ht.2.1
  | variableFraction => exact absurd rfl ht.2.2
  | _ => exact hmap (fun _ => rfl) h

/-- The characters that tokens of fixed width consume decide what they read. -/
theorem readTokens_local (hts : ∀ t ∈ ts, t.FixedWidth) {us : List Update}
    (h : readTokens ts cs = some (n, us)) :
    n = (ts.map Token.width).sum ∧
      ∀ cs' : List Char, cs'.take n = cs.take n → readTokens ts cs' = some (n, us) := by
  induction ts generalizing cs n us with
  | nil =>
    obtain ⟨rfl, rfl⟩ := Prod.mk.inj (Option.some.inj h)
    exact ⟨rfl, fun _ _ => rfl⟩
  | cons t ts ih =>
    obtain ⟨k, m, u, vs, hread, hvs, rfl, rfl⟩ := readTokens_cons.mp h
    have hfixed := hts t List.mem_cons_self
    obtain ⟨hm, hlocal⟩ := ih (fun v hv => hts v (List.mem_cons_of_mem t hv)) hvs
    have hk := read_width hfixed hread
    refine ⟨?_, fun cs' hcs => ?_⟩
    · rw [List.map_cons, List.sum_cons, ← hk, ← hm]
    · have htake : cs'.take k = cs.take k := by
        have h := congrArg (List.take k) hcs
        rwa [List.take_take, List.take_take, Nat.min_eq_left (Nat.le_add_right k m)] at h
      have hdrop : (cs'.drop k).take m = (cs.drop k).take m := by
        have h := congrArg (List.drop k) hcs
        rwa [List.drop_take, List.drop_take, Nat.add_sub_cancel_left] at h
      have hread' : t.read cs' = some (k, u) := by
        have hall := read_take hfixed cs
        rw [← hk] at hall
        rw [← read_take hfixed, ← hk, htake, hall, hread]
      exact readTokens_cons.mpr ⟨k, m, u, vs, hread', hlocal _ hdrop, rfl, rfl⟩

end Prefixes

/-- The text has the same characters between the two indices. -/
def Agrees (text text' : StringView) (i j : ℤ) : Prop :=
  ∀ k : ℕ, i ≤ k → (k : ℤ) < j → k < text'.size ∧ text'.data k = text.data k

theorem Agrees.take_suffix {text text' : StringView} {i n : ℕ} (hn : i + n ≤ text.size)
    (h : Agrees text text' i ((i + n : ℕ) : ℤ)) :
    (text'.suffix i).take n = (text.suffix i).take n := by
  apply List.ext_getElem?
  intro k
  rw [List.getElem?_take, List.getElem?_take]
  split
  · rename_i hk
    obtain ⟨hlt, hdata⟩ := h (i + k) (by omega) (by omega)
    rw [suffix_getElem?, suffix_getElem?, if_pos (by omega), if_pos (by omega)]
    rw [Int.natCast_add] at hdata
    rw [hdata]
  · rfl

theorem Scan.result_shift (s : Scan) (text text' : StringView) (ts : List Token) (i : ℕ)
    (output : DateAndTime) {run : StepResult}
    (h : s.result i output (runSteps text (dateCheck ts)) = run) :
    s.result 0 output (runSteps text' (dateCheck ts)) =
      ⟨run.accepted, run.indexJump - i, run.output⟩ := by
  have hindex : ((i + s.length : ℕ) : ℤ) - i = ((0 + s.length : ℕ) : ℤ) := by omega
  subst h
  rw [Scan.result, Scan.result]
  split
  · obtain ⟨hout, hjump, -⟩ := runSteps_dateCheck text ts ((i + s.length : ℕ) : ℤ)
      (s.updates.foldl Update.apply output)
    rw [hout, hjump, hindex]
    exact runSteps_dateCheck_eq text' text ts _ _ _
  · rw [hindex]

theorem sum_width_pos {ts : List Token} (hdoc : ∀ t ∈ ts, t.Documented)
    (hfixed : ∀ t ∈ ts, t.FixedWidth) (hne : ts ≠ []) : 0 < (ts.map Token.width).sum := by
  obtain ⟨t, ts, rfl⟩ := List.exists_cons_of_ne_nil hne
  have ht := hfixed t List.mem_cons_self
  simp only [Token.FixedWidth, List.mem_cons, List.not_mem_nil, or_false, not_or] at ht
  rw [List.map_cons, List.sum_cons]
  refine Nat.add_pos_left ?_ _
  cases t with
  | paddedDay => exact absurd rfl ht.1
  | variableSecond => exact absurd rfl ht.2.1
  | variableFraction => exact absurd rfl ht.2.2
  | fraction digits => exact (hdoc _ List.mem_cons_self).1
  | utcOffset withColon => cases withColon <;> decide
  | _ => exact Nat.succ_pos _

theorem runSteps_local {text : StringView} {ts : List Token} {i : ℕ}
    (hdoc : ∀ t ∈ ts, t.Documented) (hne : ts ≠ []) (hfixed : ∀ t ∈ ts, t.FixedWidth)
    (hi : i ≤ text.size) (output : DateAndTime) {run : StepResult}
    (hrun : runSteps text (ts.map Token.step ++ dateCheck ts) i output = run)
    (haccepted : run.accepted = true) :
    run.indexJump = i + (ts.map Token.width).sum ∧
      ∀ text' : StringView, Agrees text text' i run.indexJump → i ≤ text'.size ∧
        runSteps text' (ts.map Token.step ++ dateCheck ts) i output = run := by
  have hdigits := fraction_le_of_documented hdoc
  subst hrun
  obtain ⟨k, hk, -, n, us, hread⟩ := readTokens_of_accepted hdoc hne haccepted
  obtain rfl : i = k := Int.ofNat_inj.mp hk
  obtain ⟨hroom, hrun⟩ := (runSteps_tokens hdigits (dateCheck ts) hi output).1 n us hread
  obtain ⟨hsum, hlocal⟩ := readTokens_local hfixed hread
  have hjump := (runSteps_dateCheck text ts ((i + n : ℕ) : ℤ) (us.foldl Update.apply output)).2.1
  rw [hrun, hjump, ← hsum]
  refine ⟨Int.natCast_add i n, fun text' hagrees => ?_⟩
  -- the consumed characters are not none, so the start index is in the other text
  have hpos := sum_width_pos hdoc hfixed hne
  have hi' : i < text'.size := (hagrees i (Int.le_refl _) (by omega)).1
  have hread' := hlocal (text'.suffix i) (hagrees.take_suffix hroom)
  have hrun' := ((runSteps_tokens hdigits (dateCheck ts) (Nat.le_of_lt hi') output).1 n us hread').2
  refine ⟨Nat.le_of_lt hi', ?_⟩
  rw [hrun']
  exact (runSteps_dateCheck_eq text' text ts _ 0 _).trans
    (runSteps_dateCheck_eq text text ts _ 0 _).symm

theorem FitsInt.suffix {ts : List Token} {text : StringView} (h : FitsInt ts text) (i : ℕ) :
    FitsInt ts (ofList (text.suffix i)) := by
  have hle : (text.suffix i).length ≤ text.size := by
    rw [suffix_length]
    exact Nat.sub_le _ _
  exact ⟨Nat.lt_of_le_of_lt hle h.1, fun hnine => Nat.lt_of_le_of_lt hle (h.2 hnine)⟩

/-- Over the texts whose index sums are ints, the steps of an accepted format give the same from an
index on as from the front of the text behind it. Without tokens of variable width a successful run
consumes the sum of the widths, and the characters it consumes decide its result. -/
theorem run_local (format : List Char) (hvalid : (compileFormat format).valid = true) :
    ∃ ts, Splits format ts ∧
      ∀ text, FitsInt ts text → ∀ i : ℕ, i ≤ text.size → ∀ output, ∃ run,
        RunsTo format ts text i output run ∧
          RunsTo format ts (ofList (text.suffix i)) 0 output
            ⟨run.accepted, run.indexJump - i, run.output⟩ ∧
          ((∀ t ∈ ts, t.FixedWidth) → run.accepted = true →
            run.indexJump = i + (ts.map Token.width).sum ∧
              ∀ text', FitsInt ts text' → Agrees text text' i run.indexJump →
                RunsTo format ts text' i output run) := by
  obtain ⟨ts, hts, hsteps⟩ := compileFormat_valid hvalid
  have hne := hts.ne_nil (ne_nil_of_valid hvalid)
  refine ⟨ts, hts, fun text hfits i hi output => ?_⟩
  have hrunsTo {text : StringView} (hfits : FitsInt ts text) {i : ℕ} (hi : i ≤ text.size)
      {run : StepResult}
      (hrun : runSteps text (ts.map Token.step ++ dateCheck ts) i output = run) :
      RunsTo format ts text i output run := by
    have h := runsTo hts hne hsteps hfits (Int.ofNat_le.mpr hi) output
    rwa [hsteps, hrun] at h
  refine ⟨_, hrunsTo hfits hi rfl, hrunsTo (i := 0) (hfits.suffix i) (Nat.zero_le _) ?_,
    fun hfixed haccepted => ?_⟩
  · have hsuffix : (ofList (text.suffix i)).suffix 0 = text.suffix i := ofList_suffix _ 0
    rw [runSteps_scan hts.fraction_le (dateCheck ts) (Nat.zero_le _) output, hsuffix,
      runSteps_scan hts.fraction_le (dateCheck ts) hi output]
    exact Scan.result_shift _ text _ ts i output rfl
  · obtain ⟨hsum, hlocal⟩ := runSteps_local hts.documented hne hfixed hi output rfl haccepted
    refine ⟨hsum, fun text' hfits' hagrees => ?_⟩
    obtain ⟨hi', hrun⟩ := hlocal text' hagrees
    exact hrunsTo hfits' hi' hrun

theorem run_local_clock :
    runSteps (ofList "12:34".toList) (compileFormat "hh:mm".toList).steps 0 {} =
      ⟨true, 5, { hour := 12, minute := 34 }⟩ := by
  obtain ⟨ts, -, hlocal⟩ := run_local "hh:mm".toList (by decide)
  obtain ⟨run, hrun, hfront, -⟩ := hlocal (ofList "on 12:34".toList)
    ⟨by decide, fun _ => by decide⟩ 3 (by decide) {}
  obtain rfl : ⟨true, 8, { hour := 12, minute := 34 }⟩ = run := hrun.steps_eq
  exact hfront.steps_eq

/-- At the end of the text the sum of the look-ahead is no `int`, and where it wraps around the digits
behind the text are accepted; the empty text behind this index is rejected. -/
theorem run_local_fails :
    (compileFormat "fffffffff".toList).valid = true ∧ Splits "fffffffff".toList [.fraction 9] ∧
      checkedRun longText ([Token.fraction 9].map Token.checkedStep) longText.size {} = none ∧
      (runSteps longText [wrappedFraction 9] longText.size {}).accepted = true ∧
      (runSteps (ofList (longText.suffix longText.size)) [wrappedFraction 9] 0 {}).accepted =
        false :=
  ⟨by decide, .cons rfl .nil, by decide, by decide, by decide⟩

end Eestv
