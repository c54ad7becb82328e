import Eestv.Timestamp.DigitSteps
import Eestv.Timestamp.FormatSplit

/-! A run of the steps of a format is a reading of its tokens, one after the
other, from the text behind the start index. -/

namespace Eestv
open Decimal StringView

def readTokens : List Token → List Char → Option (ℕ × List Update)
  | [], _ => some (0, [])
  | t :: ts, cs =>
    (t.read cs).bind fun r =>
      (readTokens ts (cs.drop r.1)).map fun rest => (r.1 + rest.1, r.2 :: rest.2)

theorem readDigits_eq_some {n v : ℕ} {cs : List Char} :
    readDigits n cs = some v ↔ n ≤ cs.length ∧ Digits (cs.take n) ∧ value (cs.take n) = v := by
  rw [readDigits]
  by_cases h : n ≤ cs.length ∧ Digits (cs.take n)
  · rw [if_pos h, Option.some.injEq]
    tauto
  · rw [if_neg h]
    refine iff_of_false (by simp) ?_
    tauto

theorem readBetween_eq_some {low high v : ℕ} {cs : List Char} :
    readBetween low high cs = some v ↔ readDigits 2 cs = some v ∧ low ≤ v ∧ v ≤ high := by
  rw [readBetween, Option.filter_eq_some_iff, Bool.and_eq_true, decide_eq_true_eq,
    decide_eq_true_eq]

theorem readBetween_le {low high v : ℕ} {cs : List Char} (h : readBetween low high cs = some v) :
    2 ≤ cs.length := (readDigits_eq_some.mp (readBetween_eq_some.mp h).1).1

theorem readMonthName_eq_some {v : ℕ} {cs : List Char} (h : readMonthName cs = some v) :
    3 ≤ cs.length ∧ 1 ≤ v ∧ v ≤ 12 := by
  obtain ⟨k, hk, rfl⟩ := Option.map_eq_some_iff.mp h
  obtain ⟨hlt, hget, -⟩ := List.findIdx?_eq_some_iff_getElem.mp hk
  have hthree : ∀ name ∈ monthNames, name.length = 3 := by decide
  have hlen := hthree _ (List.getElem_mem hlt)
  have htwelve : monthNames.length = 12 := rfl
  rw [eq_of_beq hget, List.length_map, List.length_take] at hlen
  omega

theorem readPaddedDay_eq_some {n day : ℕ} {cs : List Char}
    (h : readPaddedDay cs = some (n, day)) : n ≤ cs.length ∧ 1 ≤ day ∧ day ≤ 31 := by
  rw [readPaddedDay, Option.filter_eq_some_iff, Bool.and_eq_true, decide_eq_true_eq,
    decide_eq_true_eq] at h
  obtain ⟨h, hrange⟩ := h
  refine ⟨?_, hrange⟩
  split at h
  · obtain ⟨v, hv, he⟩ := Option.map_eq_some_iff.mp h
    have hle := (readDigits_eq_some.mp hv).1
    rw [List.length_tail] at hle
    obtain rfl : 2 = n := congrArg Prod.fst he
    omega
  · rcases Option.or_eq_some_iff.mp h with h | ⟨-, h⟩
    all_goals
      obtain ⟨v, hv, he⟩ := Option.map_eq_some_iff.mp h
      have hle := (readDigits_eq_some.mp hv).1
      have hn := congrArg Prod.fst he
      dsimp only at hn
      omega

theorem readOffset_eq_some {withColon : Bool} {minutes : ℤ} {cs : List Char}
    (h : readOffset withColon cs = some minutes) :
    (if withColon then 6 else 5) ≤ cs.length ∧ -1439 ≤ minutes ∧ minutes ≤ 1439 := by
  unfold readOffset at h
  dsimp only at h
  split at h
  · exact absurd h (by simp)
  · obtain ⟨sign, hsign, h⟩ := Option.bind_eq_some_iff.mp h
    obtain ⟨hours, hhours, h⟩ := Option.bind_eq_some_iff.mp h
    obtain ⟨mins, hmins, rfl⟩ := Option.map_eq_some_iff.mp h
    have hlen := readBetween_le hmins
    have hh := (readBetween_eq_some.mp hhours).2.2
    have hm := (readBetween_eq_some.mp hmins).2.2
    have hone : sign = 1 ∨ sign = -1 := by
      split at hsign
      · exact Or.inl (Option.some.inj hsign).symm
      · split at hsign
        · exact Or.inr (Option.some.inj hsign).symm
        · exact absurd hsign (by simp)
    rw [List.length_drop] at hlen
    refine ⟨?_, ?_⟩
    · cases withColon <;> simp only [if_true, Bool.false_eq_true, if_false] at hlen ⊢ <;> omega
    · rcases hone with rfl | rfl <;> omega

/-! ### What a token can read -/

namespace Update

def field : Update → Option Field
  | keep => none
  | year _ => some .year
  | month _ => some .month
  | day _ => some .day
  | hour _ => some .hour
  | minute _ => some .minute
  | second _ => some .second
  | nanosecond _ => some .nanosecond
  | utcOffset _ => some .utcOffset

/-- The ranges of the token table; a second of a variable-length token has no bound. -/
def InRange : Update → Prop
  | keep => True
  | year value => 0 ≤ value ∧ value ≤ 9999
  | month value => 1 ≤ value ∧ value ≤ 12
  | day value => 1 ≤ value ∧ value ≤ 31
  | hour value => value ≤ 23
  | minute value => value ≤ 59
  | second _ => True
  | nanosecond value => value ≤ 999999999
  | utcOffset minutes => -1439 ≤ minutes ∧ minutes ≤ 1439

end Update

/-- Everything a reading says: it stays in the text, sets the token's field, and
sets it to a value in range. -/
structure ReadSpec (t : Token) (cs : List Char) (n : ℕ) (u : Update) : Prop where
  le_length : n ≤ cs.length
  field_eq : u.field = t.field
  inRange : u.InRange
  second_le : ∀ s, u = .second s → t ≠ .variableSecond → s ≤ 60

theorem ReadSpec.of_field_ne {t : Token} {cs : List Char} {n : ℕ} {u : Update}
    (hle : n ≤ cs.length) (hfield : u.field = t.field) (hrange : u.InRange)
    (hne : t.field ≠ some .second) : ReadSpec t cs n u := by
  refine ⟨hle, hfield, hrange, ?_⟩
  rintro s rfl -
  exact absurd hfield.symm hne

theorem scaled_lt {v n : ℕ} (hv : v < 10 ^ n) (hn : n ≤ 9) : v * 10 ^ (9 - n) ≤ 999999999 := by
  have hlt : v * 10 ^ (9 - n) < 10 ^ 9 :=
    calc v * 10 ^ (9 - n) < 10 ^ n * 10 ^ (9 - n) :=
          Nat.mul_lt_mul_of_pos_right hv (Nat.pow_pos (by decide))
      _ = 10 ^ 9 := by rw [← Nat.pow_add, Nat.add_sub_cancel' hn]
  exact Nat.le_of_lt_succ hlt

theorem readBetween_spec {t : Token} {low high n : ℕ} {cs : List Char} {f : ℕ → Update}
    {u : Update} (h : (readBetween low high cs).map (fun v => (2, f v)) = some (n, u))
    (hfield : ∀ v, (f v).field = t.field)
    (hrange : ∀ v, low ≤ v → v ≤ high → (f v).InRange)
    (hsecond : ∀ v s, low ≤ v → v ≤ high → f v = .second s → s ≤ 60) : ReadSpec t cs n u := by
  obtain ⟨v, hv, he⟩ := Option.map_eq_some_iff.mp h
  obtain ⟨rfl, rfl⟩ := Prod.mk.inj he
  obtain ⟨-, hlow, hhigh⟩ := readBetween_eq_some.mp hv
  exact ⟨readBetween_le hv, hfield v, hrange v hlow hhigh, fun s hs _ =>
    hsecond v s hlow hhigh hs⟩

theorem Token.read_spec {t : Token} {cs : List Char} {n : ℕ} {u : Update}
    (hdigits : ∀ n, t = .fraction n → n ≤ 9) (h : t.read cs = some (n, u)) :
    ReadSpec t cs n u := by
  cases t with
  | literal c =>
    rw [Token.read] at h
    split at h
    · obtain ⟨rfl, rfl⟩ := Prod.mk.inj (Option.some.inj h)
      refine ReadSpec.of_field_ne ?_ rfl trivial (by rintro ⟨⟩)
      cases cs with
      | nil => contradiction
      | cons c cs => exact Nat.succ_pos _
    · exact absurd h (by simp)
  | fourDigitYear =>
    obtain ⟨v, hv, he⟩ := Option.map_eq_some_iff.mp h
    obtain ⟨rfl, rfl⟩ := Prod.mk.inj he
    have hlt := readDigits_lt hv
    exact ReadSpec.of_field_ne (readDigits_eq_some.mp hv).1 rfl ⟨by omega, by omega⟩ (by rintro ⟨⟩)
  | twoDigitYear =>
    obtain ⟨v, hv, he⟩ := Option.map_eq_some_iff.mp h
    obtain ⟨rfl, rfl⟩ := Prod.mk.inj he
    have hlt := readDigits_lt hv
    exact ReadSpec.of_field_ne (readDigits_eq_some.mp hv).1 rfl ⟨by omega, by omega⟩ (by rintro ⟨⟩)
  | month => exact readBetween_spec h (fun _ => rfl) (fun _ => And.intro) (by rintro _ _ _ _ ⟨⟩)
  | monthName =>
    obtain ⟨v, hv, he⟩ := Option.map_eq_some_iff.mp h
    obtain ⟨rfl, rfl⟩ := Prod.mk.inj he
    obtain ⟨hle, hrange⟩ := readMonthName_eq_some hv
    exact ReadSpec.of_field_ne hle rfl hrange (by rintro ⟨⟩)
  | day => exact readBetween_spec h (fun _ => rfl) (fun _ => And.intro) (by rintro _ _ _ _ ⟨⟩)
  | paddedDay =>
    obtain ⟨⟨m, day⟩, hv, he⟩ := Option.map_eq_some_iff.mp h
    obtain ⟨rfl, rfl⟩ := Prod.mk.inj he
    obtain ⟨hle, hrange⟩ := readPaddedDay_eq_some hv
    exact ReadSpec.of_field_ne hle rfl hrange (by rintro ⟨⟩)
  | hour capital =>
    exact readBetween_spec h (fun _ => rfl) (fun _ _ hv => hv) (by rintro _ _ _ _ ⟨⟩)
  | minute => exact readBetween_spec h (fun _ => rfl) (fun _ _ hv => hv) (by rintro _ _ _ _ ⟨⟩)
  | second =>
    refine readBetween_spec h (fun _ => rfl) (fun _ _ _ => trivial) fun v s _ hv he => ?_
    rwa [← Update.second.inj he]
  | variableSecond =>
    rw [Token.read] at h
    split at h
    · obtain ⟨rfl, rfl⟩ := Prod.mk.inj (Option.some.inj h)
      exact ⟨(List.takeWhile_prefix _).length_le, rfl, trivial, fun _ _ hne => absurd rfl hne⟩
    · exact absurd h (by simp)
  | fraction digits =>
    obtain ⟨v, hv, he⟩ := Option.map_eq_some_iff.mp h
    obtain ⟨rfl, rfl⟩ := Prod.mk.inj he
    exact ReadSpec.of_field_ne (readDigits_eq_some.mp hv).1 rfl
      (scaled_lt (readDigits_lt hv) (hdigits _ rfl)) (by rintro ⟨⟩)
  | variableFraction =>
    rw [Token.read] at h
    split at h
    · obtain ⟨rfl, rfl⟩ := Prod.mk.inj (Option.some.inj h)
      refine ReadSpec.of_field_ne (List.takeWhile_prefix _).length_le rfl ?_ (by rintro ⟨⟩)
      have hall : Digits ((cs.takeWhile Char.isDigit).take 9) := fun c hc =>
        List.all_eq_true.mp List.all_takeWhile c (List.mem_of_mem_take hc)
      have hlt := value_lt hall
      rw [List.length_take] at hlt
      rw [show 9 - (cs.takeWhile Char.isDigit).length =
        9 - min 9 (cs.takeWhile Char.isDigit).length by omega]
      exact scaled_lt hlt (Nat.min_le_left _ _)
    · exact absurd h (by simp)
  | utcDesignator =>
    rw [Token.read] at h
    split at h
    · obtain ⟨rfl, rfl⟩ := Prod.mk.inj (Option.some.inj h)
      refine ReadSpec.of_field_ne ?_ rfl ⟨by decide, by decide⟩ (by rintro ⟨⟩)
      cases cs with
      | nil => rcases ‹_› with h | h <;> contradiction
      | cons c cs => exact Nat.succ_pos _
    · exact absurd h (by simp)
  | utcOffset withColon =>
    obtain ⟨v, hv, he⟩ := Option.map_eq_some_iff.mp h
    obtain ⟨rfl, rfl⟩ := Prod.mk.inj he
    obtain ⟨hle, hrange⟩ := readOffset_eq_some hv
    exact ReadSpec.of_field_ne hle rfl hrange (by rintro ⟨⟩)

/-! ### The run -/

theorem readTokens_cons {t : Token} {ts : List Token} {cs : List Char} {n : ℕ}
    {us : List Update} :
    readTokens (t :: ts) cs = some (n, us) ↔ ∃ k m u vs, t.read cs = some (k, u) ∧
      readTokens ts (cs.drop k) = some (m, vs) ∧ n = k + m ∧ us = u :: vs := by
  rw [readTokens, Option.bind_eq_some_iff]
  constructor
  · rintro ⟨⟨k, u⟩, hread, hrest⟩
    obtain ⟨⟨m, vs⟩, hvs, he⟩ := Option.map_eq_some_iff.mp hrest
    obtain ⟨rfl, rfl⟩ := Prod.mk.inj he
    exact ⟨k, m, u, vs, hread, hvs, rfl, rfl⟩
  · rintro ⟨k, m, u, vs, hread, hvs, rfl, rfl⟩
    exact ⟨(k, u), hread, by rw [hvs]; rfl⟩

/-- A run accepts what its tokens read and nothing else. -/
theorem runSteps_tokens {text : StringView} {ts : List Token}
    (hdigits : ∀ t ∈ ts, ∀ n, t = .fraction n → n ≤ 9) (rest : List DateAndTimeParserStep)
    {i : ℕ} (hi : i ≤ text.size) (output : DateAndTime) :
    (∀ n us, readTokens ts (text.suffix i) = some (n, us) →
      i + n ≤ text.size ∧
        runSteps text (ts.map Token.step ++ rest) i output =
          runSteps text rest ((i + n : ℕ) : ℤ) (us.foldl Update.apply output)) ∧
    (readTokens ts (text.suffix i) = none →
      (runSteps text (ts.map Token.step ++ rest) i output).accepted = false) := by
  induction ts generalizing i output with
  | nil =>
    refine ⟨fun n us h => ?_, fun h => absurd h (by simp [readTokens])⟩
    obtain ⟨rfl, rfl⟩ := Prod.mk.inj (Option.some.inj h)
    exact ⟨hi, rfl⟩
  | cons t ts ih =>
    have hstep := t.step_reads (hdigits t List.mem_cons_self) hi 0 output
    rw [List.map_cons, List.cons_append, runSteps, hstep]
    cases hread : t.read (text.suffix i) with
    | none =>
      refine ⟨fun n us h => ?_, fun _ => rfl⟩
      obtain ⟨k, m, u, vs, h, -⟩ := readTokens_cons.mp h
      exact absurd (hread.symm.trans h) (by simp)
    | some r =>
      obtain ⟨k, u⟩ := r
      have hle := (t.read_spec (hdigits t List.mem_cons_self) hread).le_length
      rw [suffix_length] at hle
      have hk : i + k ≤ text.size := by omega
      -- the step leaves the index behind its token, where the other tokens read on
      have hnext : runSteps text (ts.map Token.step ++ rest) ((i : ℤ) + (k : ℤ)) (u.apply output) =
          runSteps text (ts.map Token.step ++ rest) ((i + k : ℕ) : ℤ) (u.apply output) := by
        rw [Int.natCast_add]
      obtain ⟨hsome, hnone⟩ := ih (fun v hv => hdigits v (List.mem_cons_of_mem t hv)) hk
        (u.apply output)
      rw [StepResult.ofRead, if_pos rfl, hnext]
      refine ⟨fun n us h => ?_, fun h => hnone ?_⟩
      · obtain ⟨k', m, u', vs, hread', hvs, rfl, rfl⟩ := readTokens_cons.mp h
        obtain ⟨rfl, rfl⟩ := Prod.mk.inj (Option.some.inj (hread.symm.trans hread'))
        rw [suffix_drop] at hvs
        rw [← Nat.add_assoc]
        exact hsome m vs hvs
      · rw [readTokens, hread, Option.bind_some, Option.map_eq_none_iff, suffix_drop] at h
        exact h

end Eestv
