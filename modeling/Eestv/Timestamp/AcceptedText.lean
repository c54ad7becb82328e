import Eestv.Timestamp.Independence
import Eestv.Timestamp.RoundTrip

/-! What a format accepts is a rendering of the result. No text passes that only looks like one,
as long as the format names no field twice. -/

namespace Eestv
open Decimal Gregorian StringView

section Readings

variable {t : Token} {d : DateAndTime} {cs : List Char} {n v : ℕ} {u : Update}

theorem take_of_readDigits (h : readDigits n cs = some v) : cs.take n = padded n v := by
  obtain ⟨hle, hall, hval⟩ := readDigits_eq_some.mp h
  have hpadded := padded_value hall
  rw [List.length_take_of_le hle, hval] at hpadded
  exact hpadded.symm

theorem take_of_readBetween {low high : ℕ} (h : readBetween low high cs = some v) :
    cs.take 2 = padded 2 v ∧ low ≤ v ∧ v ≤ high := by
  obtain ⟨hread, hrange⟩ := readBetween_eq_some.mp h
  exact ⟨take_of_readDigits hread, hrange⟩

theorem twoDigits_of_read {low high : ℕ} {f : ℕ → Update}
    (h : (readBetween low high cs).map (fun v => (2, f v)) = some (n, u)) :
    ∃ v, u = f v ∧ cs.take n = padded 2 v ∧ low ≤ v ∧ v ≤ high := by
  obtain ⟨v, hv, he⟩ := Option.map_eq_some_iff.mp h
  obtain ⟨rfl, rfl⟩ := Prod.mk.inj he
  exact ⟨v, rfl, take_of_readBetween hv⟩

theorem monthName_of_read (h : readMonthName cs = some v) :
    monthNames[v - 1]? = some ((cs.take 3).map Char.toLower) := by
  obtain ⟨k, hk, rfl⟩ := Option.map_eq_some_iff.mp h
  obtain ⟨hlt, hget, -⟩ := List.findIdx?_eq_some_iff_getElem.mp hk
  rw [Nat.add_sub_cancel, List.getElem?_eq_getElem hlt, eq_of_beq hget]

theorem readDigits_two (h : readDigits 1 cs = some v) (hnot : readDigits 2 cs = none) :
    ∀ c ∈ (cs.drop 1).head?, c.isDigit = false := by
  obtain ⟨hle, hall, -⟩ := readDigits_eq_some.mp h
  rcases cs with _ | ⟨a, _ | ⟨b, cs⟩⟩
  · exact absurd hle (Nat.not_succ_le_zero 0)
  · exact fun c hc => absurd hc (by simp)
  · intro c hc
    obtain rfl : b = c := Option.some.inj hc
    have ha : a.isDigit = true := hall a List.mem_cons_self
    rw [readDigits_cons, readDigits_cons] at hnot
    by_contra hb
    rw [ha, (Bool.not_eq_false _).mp hb] at hnot
    simp at hnot

theorem paddedDay_of_read (h : readPaddedDay cs = some (n, d.day)) :
    Token.paddedDay.Spelling d (cs.take n) ∧ Token.paddedDay.Delimited (cs.take n) (cs.drop n) := by
  obtain ⟨hle, -, -⟩ := readPaddedDay_eq_some h
  rw [readPaddedDay, Option.filter_eq_some_iff] at h
  obtain ⟨h, -⟩ := h
  split at h
  · rename_i hspace
    obtain ⟨day, hday, he⟩ := Option.map_eq_some_iff.mp h
    obtain ⟨rfl, rfl⟩ := Prod.mk.inj he
    obtain ⟨rest, rfl⟩ := List.head?_eq_some_iff.mp hspace
    have hlt := readDigits_lt hday
    refine ⟨Or.inr ⟨hlt, Or.inl ?_⟩, fun hlength => ?_⟩
    · exact congrArg (List.cons ' ') (take_of_readDigits hday)
    · rw [List.length_take_of_le hle] at hlength
      cases hlength
  · rcases Option.or_eq_some_iff.mp h with h | ⟨hnot, h⟩
    · obtain ⟨day, hday, he⟩ := Option.map_eq_some_iff.mp h
      obtain ⟨rfl, rfl⟩ := Prod.mk.inj he
      refine ⟨Or.inl (take_of_readDigits hday), fun hlength => ?_⟩
      rw [List.length_take_of_le hle] at hlength
      cases hlength
    · obtain ⟨day, hday, he⟩ := Option.map_eq_some_iff.mp h
      obtain ⟨rfl, rfl⟩ := Prod.mk.inj he
      have hlt := readDigits_lt hday
      refine ⟨Or.inr ⟨hlt, Or.inr (take_of_readDigits hday)⟩, fun _ => ?_⟩
      exact readDigits_two hday (Option.map_eq_none_iff.mp hnot)

theorem take_succ_of_head? {c : Char} (h : cs.head? = some c) (k : ℕ) :
    cs.take (k + 1) = c :: (cs.drop 1).take k := by
  obtain ⟨rest, rfl⟩ := List.head?_eq_some_iff.mp h
  rfl

theorem take_takeWhile_length (cs : List Char) :
    cs.take (cs.takeWhile Char.isDigit).length = cs.takeWhile Char.isDigit :=
  List.prefix_iff_eq_take.mp (List.takeWhile_prefix Char.isDigit) |>.symm

theorem utcOffset_of_read {withColon : Bool} {minutes : ℤ}
    (h : readOffset withColon cs = some minutes) (hd : d.utcOffsetMinutes = some minutes) :
    (Token.utcOffset withColon).Spelling d (cs.take (if withColon then 6 else 5)) := by
  unfold readOffset at h
  dsimp only at h
  split at h
  · cases h
  rename_i hcolon
  obtain ⟨sign, hsign, h⟩ := Option.bind_eq_some_iff.mp h
  obtain ⟨hours, hhours, h⟩ := Option.bind_eq_some_iff.mp h
  obtain ⟨mins, hmins, rfl⟩ := Option.map_eq_some_iff.mp h
  obtain ⟨htake, -, hhours_le⟩ := take_of_readBetween hhours
  obtain ⟨htake', -, hmins_le⟩ := take_of_readBetween hmins
  have hrest : (cs.drop 1).take (if withColon then 5 else 4) =
      padded 2 hours ++ (if withColon then [':'] else []) ++ padded 2 mins := by
    cases withColon with
    | false =>
      rw [if_neg Bool.false_ne_true, if_neg Bool.false_ne_true, List.append_nil,
        List.take_add (i := 2) (j := 2), htake, List.drop_drop]
      exact congrArg _ htake'
    | true =>
      have hcolon : cs[3]? = some ':' := by simpa using hcolon
      have hone : (cs.drop 3).take 1 = [':'] := by
        rw [List.take_one, List.head?_drop, hcolon]
        rfl
      rw [if_pos rfl, if_pos rfl, List.take_add (i := 3) (j := 2),
        List.take_add (i := 2) (j := 1), htake, List.drop_drop, List.drop_drop, hone]
      exact congrArg _ htake'
  have hpiece {c : Char} (hc : cs.head? = some c) : cs.take (if withColon then 6 else 5) =
      c :: (padded 2 hours ++ (if withColon then [':'] else []) ++ padded 2 mins) := by
    rw [← hrest]
    cases withColon <;> exact take_succ_of_head? hc _
  split at hsign
  · obtain rfl := Option.some.inj hsign
    refine ⟨'+', hours, mins, hhours_le, hmins_le, Or.inl ⟨rfl, ?_⟩, hpiece ‹_›⟩
    rw [hd]
    exact congrArg some (by omega)
  · split at hsign
    · obtain rfl := Option.some.inj hsign
      refine ⟨'-', hours, mins, hhours_le, hmins_le, Or.inr ⟨rfl, ?_⟩, hpiece ‹_›⟩
      rw [hd]
      exact congrArg some (by omega)
    · cases hsign

theorem Token.spelling_of_read (hdigits : ∀ n, t = .fraction n → n ≤ 9)
    (h : t.read cs = some (n, u)) (hu : u.Copies d) :
    t.Admits d ∧ t.Spelling d (cs.take n) ∧ t.Delimited (cs.take n) (cs.drop n) := by
  have hrange := (t.read_spec hdigits h).inRange
  cases t with
  | literal c =>
    rw [read, Option.ite_none_right_eq_some] at h
    obtain ⟨hhead, he⟩ := h
    obtain ⟨rfl, rfl⟩ := Prod.mk.inj (Option.some.inj he)
    exact ⟨trivial, take_succ_of_head? hhead 0, trivial⟩
  | fourDigitYear =>
    obtain ⟨v, hv, he⟩ := Option.map_eq_some_iff.mp h
    obtain ⟨rfl, rfl⟩ := Prod.mk.inj he
    have hyear : (v : ℤ) = d.year := hu
    obtain ⟨hlow, hhigh⟩ : (0 : ℤ) ≤ v ∧ (v : ℤ) ≤ 9999 := hrange
    refine ⟨⟨by omega, by omega⟩, ?_, trivial⟩
    change cs.take 4 = padded 4 d.year.toNat
    rw [← hyear, Int.toNat_natCast]
    exact take_of_readDigits hv
  | twoDigitYear =>
    obtain ⟨v, hv, he⟩ := Option.map_eq_some_iff.mp h
    obtain ⟨rfl, rfl⟩ := Prod.mk.inj he
    have hyear : 2000 + (v : ℤ) = d.year := hu
    have hlt := readDigits_lt hv
    refine ⟨⟨by omega, by omega⟩, ?_, trivial⟩
    have hmod : d.year.toNat % 100 = v := by omega
    change cs.take 2 = padded 2 (d.year.toNat % 100)
    rw [hmod]
    exact take_of_readDigits hv
  | month =>
    obtain ⟨v, rfl, htake, hv⟩ := twoDigits_of_read h
    obtain rfl : v = d.month := hu
    exact ⟨hv, htake, trivial⟩
  | monthName =>
    obtain ⟨v, hv, he⟩ := Option.map_eq_some_iff.mp h
    obtain ⟨rfl, rfl⟩ := Prod.mk.inj he
    obtain rfl : v = d.month := hu
    exact ⟨hrange, monthName_of_read hv, trivial⟩
  | day =>
    obtain ⟨v, rfl, htake, hv⟩ := twoDigits_of_read h
    obtain rfl : v = d.day := hu
    exact ⟨hv, htake, trivial⟩
  | paddedDay =>
    obtain ⟨⟨m, v⟩, hv, he⟩ := Option.map_eq_some_iff.mp h
    obtain ⟨rfl, rfl⟩ := Prod.mk.inj he
    obtain rfl : v = d.day := hu
    exact ⟨hrange, paddedDay_of_read hv⟩
  | hour capital =>
    obtain ⟨v, rfl, htake, -, hv⟩ := twoDigits_of_read h
    obtain rfl : v = d.hour := hu
    exact ⟨hv, htake, trivial⟩
  | minute =>
    obtain ⟨v, rfl, htake, -, hv⟩ := twoDigits_of_read h
    obtain rfl : v = d.minute := hu
    exact ⟨hv, htake, trivial⟩
  | second =>
    obtain ⟨v, rfl, htake, -, hv⟩ := twoDigits_of_read h
    obtain rfl : v = d.second := hu
    exact ⟨hv, htake, trivial⟩
  | variableSecond =>
    have hnext := head_behind_greedy (t := .variableSecond) trivial h
    rw [read, Option.ite_none_right_eq_some] at h
    obtain ⟨⟨hne, hlt⟩, he⟩ := h
    obtain ⟨rfl, rfl⟩ := Prod.mk.inj (Option.some.inj he)
    have hsecond : value (cs.takeWhile Char.isDigit) = d.second := hu
    have htake := take_takeWhile_length cs
    refine ⟨?_, ⟨?_, ?_, ?_⟩, hnext⟩
    · change d.second < 2 ^ 32
      rwa [← hsecond]
    · rwa [htake]
    · rw [htake]
      exact List.all_eq_true.mp List.all_takeWhile
    · rw [htake, hsecond]
  | fraction digits =>
    obtain ⟨v, hv, he⟩ := Option.map_eq_some_iff.mp h
    obtain ⟨rfl, rfl⟩ := Prod.mk.inj he
    have hnano : v * 10 ^ (9 - digits) = d.nanosecond := hu
    refine ⟨⟨hnano ▸ hrange, hnano ▸ Nat.dvd_mul_left _ _⟩, ?_, trivial⟩
    change cs.take digits = padded digits (d.nanosecond / 10 ^ (9 - digits))
    rw [← hnano, Nat.mul_div_cancel _ (Nat.pow_pos (by decide))]
    exact take_of_readDigits hv
  | variableFraction =>
    have hnext := head_behind_greedy (t := .variableFraction) trivial h
    rw [read, Option.ite_none_right_eq_some] at h
    obtain ⟨hne, he⟩ := h
    obtain ⟨rfl, rfl⟩ := Prod.mk.inj (Option.some.inj he)
    have hnano : value ((cs.takeWhile Char.isDigit).take 9) *
      10 ^ (9 - (cs.takeWhile Char.isDigit).length) = d.nanosecond := hu
    have htake := take_takeWhile_length cs
    refine ⟨?_, ⟨?_, ?_, ?_⟩, hnext⟩
    · change d.nanosecond ≤ 999999999
      exact hnano ▸ hrange
    · rwa [htake]
    · rw [htake]
      exact List.all_eq_true.mp List.all_takeWhile
    · rw [htake, hnano]
  | utcDesignator =>
    rw [read, Option.ite_none_right_eq_some] at h
    obtain ⟨hhead, he⟩ := h
    obtain ⟨rfl, rfl⟩ := Prod.mk.inj (Option.some.inj he)
    refine ⟨Eq.symm hu, ?_, trivial⟩
    exact hhead.imp (take_succ_of_head? · 0) (take_succ_of_head? · 0)
  | utcOffset withColon =>
    obtain ⟨minutes, hminutes, he⟩ := Option.map_eq_some_iff.mp h
    obtain ⟨rfl, rfl⟩ := Prod.mk.inj he
    exact ⟨⟨minutes, Eq.symm hu, hrange⟩, utcOffset_of_read hminutes (Eq.symm hu), trivial⟩

end Readings

/-! ### Every token has its own field -/

section Copies

variable {t : Token} {ts : List Token} {d d' : DateAndTime} {cs : List Char} {n : ℕ}
  {u : Update} {us : List Update}

theorem Token.Delimited.take {piece rest : List Char} (h : t.Delimited piece rest) (n : ℕ) :
    t.Delimited piece (rest.take n) := by
  have hhead (c : Char) (hc : c ∈ (rest.take n).head?) : c ∈ rest.head? := by
    rw [List.head?_take] at hc
    split at hc
    · cases hc
    · exact hc
  cases t with
  | paddedDay => exact fun hlength c hc => h hlength c (hhead c hc)
  | variableSecond => exact fun c hc => h c (hhead c hc)
  | variableFraction => exact fun c hc => h c (hhead c hc)
  | _ => trivial

/-- The text in front of the end index is a rendering of whatever has the fields that were set. -/
theorem renders_of_readTokens (hdigits : ∀ t ∈ ts, ∀ n, t = .fraction n → n ≤ 9)
    (h : readTokens ts cs = some (n, us)) (hus : ∀ u ∈ us, u.Copies d) :
    (∀ t ∈ ts, t.Admits d) ∧ Renders d ts (cs.take n) := by
  induction ts generalizing cs n us with
  | nil =>
    obtain ⟨rfl, rfl⟩ := Prod.mk.inj (Option.some.inj h)
    exact ⟨fun _ ht => absurd ht List.not_mem_nil, .nil⟩
  | cons t ts ih =>
    obtain ⟨k, m, u, vs, hread, hvs, rfl, rfl⟩ := readTokens_cons.mp h
    obtain ⟨hadmits, hspelling, hdelimited⟩ := Token.spelling_of_read
      (hdigits t List.mem_cons_self) hread (hus u List.mem_cons_self)
    obtain ⟨hrest, hrenders⟩ := ih (fun v hv => hdigits v (List.mem_cons_of_mem t hv)) hvs
      fun v hv => hus v (List.mem_cons_of_mem u hv)
    refine ⟨List.forall_mem_cons.mpr ⟨hadmits, hrest⟩, ?_⟩
    rw [List.take_add]
    exact .cons hspelling (hdelimited.take m) hrenders

theorem Update.copies_apply (u : Update) (d : DateAndTime) : u.Copies (u.apply d) := by
  cases u <;> trivial

theorem Update.Copies.of_same {f : Field} (hu : u.Copies d) (hf : u.field = some f)
    (h : f.Same d' d) : u.Copies d' := by
  cases u with
  | keep => trivial
  | second value =>
    obtain rfl : Field.second = f := Option.some.inj hf
    exact Eq.trans hu h.1.symm
  | utcOffset minutes =>
    obtain rfl : Field.utcOffset = f := Option.some.inj hf
    exact Eq.trans hu (Eq.symm h)
  | _ =>
    obtain rfl := Option.some.inj hf
    exact Eq.trans hu (Eq.symm h)

theorem hasField_iff_mem {f : Field} : hasField ts f = true ↔ f ∈ ts.filterMap Token.field := by
  simp [hasField]

theorem foldl_copies (h : List.Forall₂ Updates ts us) (hts : (ts.filterMap Token.field).Nodup)
    (d : DateAndTime) : ∀ u ∈ us, u.Copies (us.foldl Update.apply d) := by
  induction h generalizing d with
  | nil => exact fun _ hu => absurd hu List.not_mem_nil
  | @cons t u ts us hu hrest ih =>
    rw [List.filterMap_cons, ← hu.field_eq] at hts
    rw [List.foldl_cons, List.forall_mem_cons]
    rcases hf : u.field with _ | f
    · rw [hf] at hts
      refine ⟨?_, ih hts _⟩
      cases u with
      | keep => trivial
      | _ => cases hf
    · rw [hf] at hts
      obtain ⟨hnot, hts⟩ := List.nodup_cons.mp hts
      refine ⟨(u.copies_apply d).of_same hf ?_, ih hts _⟩
      exact foldl_same_of_unnamed hrest fun hfield => hnot (hasField_iff_mem.mp hfield)

end Copies

/-- When a format names no field twice, every run from an index of a text whose index sums are ints
comes to an end; if it accepts, the text it has read is a rendering of the result, and the result is
one that the format can render. -/
theorem renders_of_accepted (format : List Char) (hvalid : (compileFormat format).valid = true) :
    ∃ ts, Splits format ts ∧ ((ts.filterMap Token.field).Nodup →
      ∀ text, FitsInt ts text → ∀ i : ℕ, i ≤ text.size → ∃ run, RunsTo format ts text i {} run ∧
        (run.accepted = true → ∃ n : ℕ, run.indexJump = ((i + n : ℕ) : ℤ) ∧ i + n ≤ text.size ∧
          Renderable ts run.output ∧ Renders run.output ts ((text.suffix i).take n))) := by
  obtain ⟨ts, hts, hsteps⟩ := compileFormat_valid hvalid
  have hne := hts.ne_nil (ne_nil_of_valid hvalid)
  refine ⟨ts, hts, fun hnodup text hfits i hi => ?_⟩
  have hrunsTo := runsTo hts hne hsteps hfits (Int.ofNat_le.mpr hi) {}
  refine ⟨_, hrunsTo, fun haccepted => ?_⟩
  rw [hsteps] at haccepted ⊢
  obtain ⟨k, hk, -, n, us, hread⟩ := readTokens_of_accepted hts.documented hne haccepted
  obtain rfl : i = k := Int.ofNat_inj.mp hk
  obtain ⟨hroom, hrun⟩ := (runSteps_tokens hts.fraction_le (dateCheck ts) hi {}).1 n us hread
  obtain ⟨hout, hjump, hcheck⟩ := runSteps_dateCheck text ts ((i + n : ℕ) : ℤ)
    (us.foldl Update.apply {})
  rw [hrun] at haccepted ⊢
  rw [hout, hjump]
  have hups := readTokens_updates hts.fraction_le hread
  have hrange := foldl_inRange hups DateAndTime.inRange_default
  obtain ⟨hadmits, hrenders⟩ := renders_of_readTokens hts.fraction_le hread
    (foldl_copies hups hnodup {})
  have hdate (year : ℤ) (hyear : (!hasField ts .year ||
      isLeapYear (us.foldl Update.apply {}).year) = isLeapYear year)
      (hmonth : hasField ts .month = true) (hday : hasField ts .day = true) :=
    isDate_of_dateFits hups DateAndTime.inRange_default
      (hcheck.mp haccepted (by rw [hmonth]; rfl)) hyear hmonth hday
  refine ⟨n, rfl, hroom, ⟨hadmits, hrange.leapSecond_iff, fun f hf => ?_, ?_, ?_⟩,
    hrenders⟩
  · exact foldl_same_of_unnamed hups (ne_true_of_eq_false hf)
  · exact fun hyear => hdate _ (by rw [hyear]; rfl)
  · rcases hyear : hasField ts .year with _ | _
    · exact fun hmonth hday => ⟨2000, hdate 2000 (by rw [hyear]; rfl) hmonth hday⟩
    · exact fun hmonth hday => ⟨_, hdate _ (by rw [hyear]; rfl) hmonth hday⟩

theorem renders_of_accepted_log_line :
    Renders { month := 2, day := 3, hour := 4 }
      [.monthName, .literal ' ', .paddedDay, .literal ' ', .hour false] "feB  3 04".toList := by
  obtain ⟨ts, hts, hall⟩ := renders_of_accepted "MMM D* hh".toList (by decide)
  have hsplit : Splits "MMM D* hh".toList
      [.monthName, .literal ' ', .paddedDay, .literal ' ', .hour false] :=
    .cons rfl (.cons rfl (.cons rfl (.cons rfl (.cons rfl .nil))))
  obtain rfl := hts.unique hsplit
  obtain ⟨run, hrun, hrenders⟩ := hall (by decide) (ofList "> feB  3 04:".toList)
    ⟨by decide, by decide⟩ 2 (by decide)
  obtain rfl : ⟨true, 11, { month := 2, day := 3, hour := 4 }⟩ = run := hrun.steps_eq
  obtain ⟨n, hn, -, -, hrenders⟩ := hrenders rfl
  obtain rfl : n = 9 := Nat.add_left_cancel (Int.ofNat_inj.mp hn).symm
  exact hrenders

end Eestv
