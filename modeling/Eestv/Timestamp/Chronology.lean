import Eestv.Library.TextOrder
import Eestv.Timestamp.AcceptedText
import Eestv.Timestamp.Instant
import Eestv.Timestamp.Locality

/-! Times of a format that goes from the year down, with numerals of fixed width, are in the order
of their texts. -/

namespace Eestv
open Decimal Gregorian StringView TextOrder

/-- The place of a field in a time that is written from the year down. -/
def Field.rank : Field → ℕ
  | .year => 0
  | .month => 1
  | .day => 2
  | .hour => 3
  | .minute => 4
  | .second => 5
  | .nanosecond => 6
  | .utcOffset => 7

def Field.valueOf (d : DateAndTime) : Field → ℤ
  | .year => d.year
  | .month => d.month
  | .day => d.day
  | .hour => d.hour
  | .minute => d.minute
  | .second => d.second
  | .nanosecond => d.nanosecond
  | .utcOffset => d.utcOffsetMinutes.getD 0

def Update.value : Update → ℤ
  | .keep => 0
  | .year value => value
  | .month value => value
  | .day value => value
  | .hour value => value
  | .minute value => value
  | .second value => value
  | .nanosecond value => value
  | .utcOffset minutes => minutes

/-- Every token has one width, no month is written as a name, and the fields go from the year
down to the offset. -/
structure Chronological (ts : List Token) : Prop where
  fixedWidth : ∀ t ∈ ts, t.FixedWidth ∧ t ≠ .monthName
  ordered : (ts.filterMap Token.field).Pairwise fun f g => f.rank < g.rank

def Precedes (d d' : DateAndTime) : Prop :=
  ∃ f : Field, (∀ g : Field, g.rank < f.rank → g.Same d d') ∧
    (f ≠ .utcOffset → f.valueOf d < f.valueOf d')

section Readings

variable {t : Token} {ts : List Token} {cs cs' : List Char} {n n' v v' : ℕ} {u u' : Update}
  {us us' : List Update} {d d' : DateAndTime} {f : Field}

theorem readDigits_lt_of_before (h : readDigits n cs = some v) (h' : readDigits n cs' = some v')
    (hbefore : Before (cs.take n) (cs'.take n)) : v < v' := by
  obtain ⟨hle, hall, rfl⟩ := readDigits_eq_some.mp h
  obtain ⟨hle', hall', rfl⟩ := readDigits_eq_some.mp h'
  refine value_lt_of_before ?_ hall hall' hbefore
  rw [List.length_take_of_le hle, List.length_take_of_le hle']

theorem numeral_lt_of_before {read : List Char → Option ℕ} {g : ℕ → Update} {w : ℕ}
    (hread : ∀ {cs v}, read cs = some v → readDigits w cs = some v)
    (hmono : ∀ v v', v < v' → (g v).value < (g v').value)
    (h : (read cs).map (fun v => (w, g v)) = some (n, u))
    (h' : (read cs').map (fun v => (w, g v)) = some (n', u'))
    (hbefore : Before (cs.take n) (cs'.take n)) : u.value < u'.value := by
  obtain ⟨v, hv, he⟩ := Option.map_eq_some_iff.mp h
  obtain ⟨v', hv', he'⟩ := Option.map_eq_some_iff.mp h'
  obtain ⟨rfl, rfl⟩ := Prod.mk.inj he
  obtain ⟨-, rfl⟩ := Prod.mk.inj he'
  exact hmono v v' (readDigits_lt_of_before (hread hv) (hread hv') hbefore)

theorem Token.value_lt_of_before (ht : t.FixedWidth) (hname : t ≠ .monthName)
    (hzone : t.field ≠ some .utcOffset) (h : t.read cs = some (n, u))
    (h' : t.read cs' = some (n', u')) (hbefore : Before (cs.take n) (cs'.take n)) :
    ∃ f, t.field = some f ∧ u.value < u'.value := by
  simp only [FixedWidth, List.mem_cons, List.not_mem_nil, or_false, not_or] at ht
  have hbetween {low high : ℕ} {cs : List Char} {v : ℕ}
      (h : readBetween low high cs = some v) : readDigits 2 cs = some v :=
    (readBetween_eq_some.mp h).1
  cases t with
  | literal c =>
    rw [read, Option.ite_none_right_eq_some] at h h'
    obtain ⟨rfl, -⟩ := Prod.mk.inj (Option.some.inj h.2)
    rw [take_succ_of_head? h.1 0, take_succ_of_head? h'.1 0] at hbefore
    exact absurd hbefore (before_irrefl [c])
  | fourDigitYear =>
    exact ⟨_, rfl, numeral_lt_of_before id (fun _ _ => Int.ofNat_lt.mpr) h h' hbefore⟩
  | twoDigitYear =>
    refine ⟨_, rfl, numeral_lt_of_before id (fun v v' hlt => ?_) h h' hbefore⟩
    exact Int.add_lt_add_left (Int.ofNat_lt.mpr hlt) 2000
  | month =>
    exact ⟨_, rfl, numeral_lt_of_before hbetween (fun _ _ => Int.ofNat_lt.mpr) h h' hbefore⟩
  | monthName => exact absurd rfl hname
  | day =>
    exact ⟨_, rfl, numeral_lt_of_before hbetween (fun _ _ => Int.ofNat_lt.mpr) h h' hbefore⟩
  | paddedDay => exact absurd rfl ht.1
  | hour capital =>
    exact ⟨_, rfl, numeral_lt_of_before hbetween (fun _ _ => Int.ofNat_lt.mpr) h h' hbefore⟩
  | minute =>
    exact ⟨_, rfl, numeral_lt_of_before hbetween (fun _ _ => Int.ofNat_lt.mpr) h h' hbefore⟩
  | second =>
    exact ⟨_, rfl, numeral_lt_of_before hbetween (fun _ _ => Int.ofNat_lt.mpr) h h' hbefore⟩
  | variableSecond => exact absurd rfl ht.2.1
  | fraction digits =>
    refine ⟨_, rfl, numeral_lt_of_before id (fun v v' hlt => ?_) h h' hbefore⟩
    exact Int.ofNat_lt.mpr (Nat.mul_lt_mul_of_pos_right hlt (Nat.pow_pos (by decide)))
  | variableFraction => exact absurd rfl ht.2.2
  | utcDesignator => exact absurd rfl hzone
  | utcOffset withColon => exact absurd rfl hzone

theorem Token.read_of_before (hdigits : ∀ n, t = .fraction n → n ≤ 9) (ht : t.FixedWidth)
    (hname : t ≠ .monthName) (h : t.read cs = some (n, u)) (h' : t.read cs' = some (n', u'))
    (hbefore : Before cs cs') :
    u = u' ∧ Before (cs.drop n) (cs'.drop n') ∨
      ∃ f, t.field = some f ∧ (f ≠ .utcOffset → u.value < u'.value) := by
  have hle := (t.read_spec hdigits h).le_length
  have hle' := (t.read_spec hdigits h').le_length
  obtain rfl := read_width ht h
  obtain rfl := read_width ht h'
  have hlength : (cs.take t.width).length = (cs'.take t.width).length := by
    rw [List.length_take_of_le hle, List.length_take_of_le hle']
  rw [← List.take_append_drop t.width cs, ← List.take_append_drop t.width cs',
    before_append_iff hlength] at hbefore
  rcases hbefore with hpiece | ⟨hsame, hrest⟩
  · right
    by_cases hzone : t.field = some .utcOffset
    · exact ⟨_, hzone, fun hne => absurd rfl hne⟩
    · obtain ⟨f, hf, hlt⟩ := t.value_lt_of_before ht hname hzone h h' hpiece
      exact ⟨f, hf, fun _ => hlt⟩
  · left
    rw [← read_take ht, hsame, read_take ht, h'] at h
    exact ⟨(congrArg Prod.snd (Option.some.inj h)).symm, hrest⟩

theorem Field.Same.symm (h : f.Same d d') : f.Same d' d := by
  cases f with
  | second => exact ⟨h.1.symm, h.2.symm⟩
  | _ => exact Eq.symm h

theorem Field.Same.valueOf_eq (h : f.Same d d') : f.valueOf d = f.valueOf d' := by
  cases f with
  | year => exact h
  | second => exact congrArg Nat.cast h.1
  | utcOffset => exact congrArg (Option.getD · 0) h
  | _ => exact congrArg Nat.cast h

theorem Update.valueOf_apply (hf : u.field = some f) (d : DateAndTime) :
    f.valueOf (u.apply d) = u.value := by
  cases u <;> first | cases hf; rfl | cases hf

theorem Chronological.tail (h : Chronological (t :: ts)) : Chronological ts := by
  refine ⟨fun t' ht' => h.fixedWidth t' (List.mem_cons_of_mem t ht'), ?_⟩
  exact h.ordered.sublist ((List.sublist_cons_self t ts).filterMap Token.field)

theorem Chronological.unnamed {g : Field} (h : Chronological (t :: ts)) (hf : t.field = some f)
    (hg : g.rank ≤ f.rank) : hasField ts g ≠ true := by
  have hordered := h.ordered
  rw [List.filterMap_cons, hf] at hordered
  intro hfield
  have hlt := List.rel_of_pairwise_cons hordered (hasField_iff_mem.mp hfield)
  omega

/-- The first token with another text has the first field with another value. -/
theorem precedes_of_before (hts : Chronological ts)
    (hdigits : ∀ t ∈ ts, ∀ n, t = .fraction n → n ≤ 9) (h : readTokens ts cs = some (n, us))
    (h' : readTokens ts cs' = some (n', us')) (hbefore : Before cs cs') (d : DateAndTime) :
    us.foldl Update.apply d = us'.foldl Update.apply d ∨
      Precedes (us.foldl Update.apply d) (us'.foldl Update.apply d) := by
  induction ts generalizing cs cs' n n' us us' d with
  | nil =>
    obtain ⟨-, rfl⟩ := Prod.mk.inj (Option.some.inj h)
    obtain ⟨-, rfl⟩ := Prod.mk.inj (Option.some.inj h')
    exact Or.inl rfl
  | cons t ts ih =>
    obtain ⟨k, m, u, vs, hread, hvs, -, rfl⟩ := readTokens_cons.mp h
    obtain ⟨k', m', u', vs', hread', hvs', -, rfl⟩ := readTokens_cons.mp h'
    have hhead := hdigits t List.mem_cons_self
    have htail := fun v hv => hdigits v (List.mem_cons_of_mem t hv)
    obtain ⟨ht, hname⟩ := hts.fixedWidth t List.mem_cons_self
    rcases t.read_of_before hhead ht hname hread hread' hbefore with
      ⟨rfl, hrest⟩ | ⟨f, hf, hlt⟩
    · exact ih hts.tail htail hvs hvs' hrest (u.apply d)
    · right
      have hu : u.field = some f := (t.read_spec hhead hread).field_eq.trans hf
      have hu' : u'.field = some f := (t.read_spec hhead hread').field_eq.trans hf
      have hups := readTokens_updates htail hvs
      have hups' := readTokens_updates htail hvs'
      refine ⟨f, fun g hg => ?_, fun hne => ?_⟩
      · have hlater := hts.unnamed hf (Nat.le_of_lt hg)
        have hother : some f ≠ some g := by
          rintro ⟨⟩
          exact Nat.lt_irrefl _ hg
        have hsame : g.Same (vs.foldl Update.apply (u.apply d)) d :=
          (foldl_same_of_unnamed hups hlater).trans (Update.apply_same_of_unnamed (hu ▸ hother))
        have hsame' : g.Same (vs'.foldl Update.apply (u'.apply d)) d :=
          (foldl_same_of_unnamed hups' hlater).trans (Update.apply_same_of_unnamed (hu' ▸ hother))
        exact hsame.trans hsame'.symm
      · have hlater := hts.unnamed hf (Nat.le_refl f.rank)
        rw [List.foldl_cons, List.foldl_cons, (foldl_same_of_unnamed hups hlater).valueOf_eq,
          (foldl_same_of_unnamed hups' hlater).valueOf_eq, Update.valueOf_apply hu,
          Update.valueOf_apply hu']
        exact hlt hne

end Readings

/-! ### The instants -/

namespace DateAndTime

variable {d d' : DateAndTime} {offset : ℤ}

theorem Civil.civilAt_lt (h : d.Civil offset) (hs : d.second ≤ 59)
    (hlt : dayNumber d.year d.month d.day < dayNumber d'.year d'.month d'.day) :
    d.civilAt d.second < d'.civilAt d'.second := by
  have hhour := h.hour_le
  have hminute := h.minute_le
  unfold civilAt civilSeconds
  omega

theorem dayNumber_eq_of_same (h : ∀ g : Field, g.rank < 3 → g.Same d d') :
    dayNumber d.year d.month d.day = dayNumber d'.year d'.month d'.day := by
  have hyear : d.year = d'.year := h .year (by decide)
  have hmonth : d.month = d'.month := h .month (by decide)
  have hday : d.day = d'.day := h .day (by decide)
  rw [hyear, hmonth, hday]

theorem civilAt_eq_of_same (h : ∀ g : Field, g.rank < 6 → g.Same d d') :
    d.civilAt d.second = d'.civilAt d'.second := by
  have hdate := dayNumber_eq_of_same fun g hg => h g (Nat.lt_trans hg (by decide))
  have hhour : d.hour = d'.hour := h .hour (by decide)
  have hminute : d.minute = d'.minute := h .minute (by decide)
  have hsecond : d.second = d'.second := (h .second (by decide)).1
  unfold civilAt civilSeconds
  rw [hdate, hhour, hminute, hsecond]

theorem Civil.civilAt_of_precedes (h : d.Civil offset) (h' : d'.Civil offset)
    (hs : d.second ≤ 59) (hp : Precedes d d') :
    d.civilAt d.second < d'.civilAt d'.second ∨
      d.civilAt d.second = d'.civilAt d'.second ∧ d.nanosecond ≤ d'.nanosecond := by
  obtain ⟨f, hsame, hlt⟩ := hp
  cases f with
  | year =>
    left
    exact h.civilAt_lt hs (h.isDate.dayNumber_lt_of_year_lt h'.isDate (hlt nofun))
  | month =>
    left
    have hyear : d.year = d'.year := hsame .year (by decide)
    have hdate := h.isDate
    rw [hyear] at hdate
    refine h.civilAt_lt hs ?_
    rw [hyear]
    exact hdate.dayNumber_lt_of_month_lt h'.isDate (Int.ofNat_lt.mp (hlt nofun))
  | day =>
    left
    have hyear : d.year = d'.year := hsame .year (by decide)
    have hmonth : d.month = d'.month := hsame .month (by decide)
    have hday : (d.day : ℤ) < d'.day := hlt nofun
    refine h.civilAt_lt hs ?_
    rw [hyear, hmonth]
    unfold dayNumber
    omega
  | hour =>
    left
    have hdate := dayNumber_eq_of_same hsame
    have hhour : (d.hour : ℤ) < d'.hour := hlt nofun
    have hminute := h.minute_le
    unfold civilAt civilSeconds
    omega
  | minute =>
    left
    have hdate := dayNumber_eq_of_same fun g hg => hsame g (Nat.lt_trans hg (by decide))
    have hhour : d.hour = d'.hour := hsame .hour (by decide)
    have hminute : (d.minute : ℤ) < d'.minute := hlt nofun
    unfold civilAt civilSeconds
    omega
  | second =>
    left
    have hdate := dayNumber_eq_of_same fun g hg => hsame g (Nat.lt_trans hg (by decide))
    have hhour : d.hour = d'.hour := hsame .hour (by decide)
    have hminute : d.minute = d'.minute := hsame .minute (by decide)
    have hsecond : (d.second : ℤ) < d'.second := hlt nofun
    unfold civilAt civilSeconds
    omega
  | nanosecond =>
    right
    have hnano : (d.nanosecond : ℤ) < d'.nanosecond := hlt nofun
    exact ⟨civilAt_eq_of_same fun g hg => hsame g hg, by omega⟩
  | utcOffset =>
    right
    have hnano : d.nanosecond = d'.nanosecond := hsame .nanosecond (by decide)
    exact ⟨civilAt_eq_of_same fun g hg => hsame g (Nat.lt_trans hg (by decide)), by omega⟩

theorem Civil.timePoint_eq (h : d.Civil offset) (hs : d.second ≤ 59) {mktime : Tm → ℤ}
    (hfits : d.Representable offset) {p : ℤ} (hp : d.toTimePoint mktime = some p) :
    p = (d.civilAt d.second - offset * 60) * 10 ^ 9 + d.nanosecond := by
  have hmin : min d.second 59 = d.second := Nat.min_eq_left hs
  have hno := (h.noOverflow_iff_representable mktime).mpr hfits
  unfold NoOverflow at hno
  rw [h.timegm_eq, hmin] at hno
  have hsentinel : d.civilAt d.second ≠ -1 := by
    intro hminus
    rw [h.toTimePoint_eq, hmin, if_pos hminus] at hp
    cases hp
  exact Option.some.inj (hp.symm.trans (hno hsentinel).2.2.2)

theorem Civil.timePoint_le (h : d.Civil offset)
    (hlt : d.civilAt d.second < d'.civilAt d'.second ∨
      d.civilAt d.second = d'.civilAt d'.second ∧ d.nanosecond ≤ d'.nanosecond) :
    (d.civilAt d.second - offset * 60) * 10 ^ 9 + d.nanosecond ≤
      (d'.civilAt d'.second - offset * 60) * 10 ^ 9 + d'.nanosecond := by
  have hnano := h.nanosecond_le
  omega

end DateAndTime

structure Leaves (mktime : Tm → ℤ) (offset : ℤ) (run : StepResult) (p : ℤ) : Prop where
  accepted : run.accepted = true
  leapSecond_eq : run.output.leapSecond = false
  offset_eq : run.output.utcOffsetMinutes = some offset
  representable : run.output.Representable offset
  timePoint_eq : run.output.toTimePoint mktime = some p

section Runs

variable {format : List Char} {ts : List Token} {text text' : StringView} {i i' : ℕ} {offset : ℤ}
  {mktime : Tm → ℤ} {p p' : ℤ}

theorem Leaves.reading (hts : Splits format ts) (hnames : NamesInstant ts)
    (hvar : .variableSecond ∉ ts)
    (h : Leaves mktime offset (runSteps text (ts.map Token.step ++ dateCheck ts) i {}) p) :
    ∃ n us, readTokens ts (text.suffix i) = some (n, us) ∧
      (us.foldl Update.apply {}).Civil offset ∧ (us.foldl Update.apply {}).second ≤ 59 ∧
      p = ((us.foldl Update.apply {}).civilAt (us.foldl Update.apply {}).second - offset * 60) *
        10 ^ 9 + (us.foldl Update.apply {}).nanosecond := by
  have hne : ts ≠ [] := by
    rintro rfl
    exact absurd hnames.year Bool.false_ne_true
  obtain ⟨k, hk, hroom, n, us, hread⟩ := readTokens_of_accepted hts.documented hne h.accepted
  obtain rfl : i = k := Int.ofNat_inj.mp hk
  obtain ⟨-, hrun⟩ := (runSteps_tokens hts.fraction_le (dateCheck ts) hroom {}).1 n us hread
  have hout : (runSteps text (ts.map Token.step ++ dateCheck ts) i {}).output =
      us.foldl Update.apply {} := by
    rw [hrun]
    exact (runSteps_dateCheck text ts _ _).1
  obtain ⟨offset', hcivil⟩ := civil_of_accepted hts hnames DateAndTime.inRange_default h.accepted
  obtain ⟨-, hleap, hoffset, hfits, hp⟩ := h
  obtain rfl := Option.some.inj (hcivil.offset_eq.symm.trans hoffset)
  rw [hout] at hcivil hleap hfits hp
  have hups := readTokens_updates hts.fraction_le hread
  have hle := foldl_second_le hups hvar (d := {}) (Nat.zero_le 60)
  have hsixty := (foldl_inRange hups DateAndTime.inRange_default).leapSecond_iff
  rw [hleap] at hsixty
  have hsecond : (us.foldl Update.apply {}).second ≤ 59 := by
    have hne : (us.foldl Update.apply {}).second ≠ 60 := fun he => by simpa using hsixty.mpr he
    omega
  exact ⟨n, us, hread, hcivil, hsecond, hcivil.timePoint_eq hsecond hfits hp⟩

theorem Leaves.le_of_before (hts : Splits format ts) (hchron : Chronological ts)
    (hnames : NamesInstant ts)
    (h : Leaves mktime offset (runSteps text (ts.map Token.step ++ dateCheck ts) i {}) p)
    (h' : Leaves mktime offset (runSteps text' (ts.map Token.step ++ dateCheck ts) i' {}) p')
    (hbefore : Before (text.suffix i) (text'.suffix i')) : p ≤ p' := by
  have hvar : .variableSecond ∉ ts := fun hmem =>
    (hchron.fixedWidth _ hmem).1 (List.mem_cons_of_mem _ List.mem_cons_self)
  obtain ⟨n, us, hread, hcivil, hsecond, rfl⟩ := h.reading hts hnames hvar
  obtain ⟨n', us', hread', hcivil', hsecond', rfl⟩ := h'.reading hts hnames hvar
  rcases precedes_of_before hchron hts.fraction_le hread hread' hbefore {} with heq | hprecedes
  · exact Int.le_of_eq (by rw [heq])
  · exact hcivil.timePoint_le (hcivil.civilAt_of_precedes hcivil' hsecond hprecedes)

end Runs

/-- Lines that begin with a time, written from the year down, are in the order of their instants
when they are in the order of texts; leap seconds aside, which have no instant of their own. -/
theorem text_order_is_time_order (mktime : Tm → ℤ) (format : List Char)
    (hvalid : (compileFormat format).valid = true) :
    ∃ ts, Splits format ts ∧ (Chronological ts → NamesInstant ts →
      ∀ (text text' : StringView) (i i' : ℕ) (offset p p' : ℤ),
        Leaves mktime offset (runSteps text (compileFormat format).steps i {}) p →
        Leaves mktime offset (runSteps text' (compileFormat format).steps i' {}) p' →
          (Before (text.suffix i) (text'.suffix i') → p ≤ p') ∧
          (p < p' → Before (text.suffix i) (text'.suffix i'))) := by
  obtain ⟨ts, hts, hsteps⟩ := compileFormat_valid hvalid
  refine ⟨ts, hts, fun hchron hnames text text' i i' offset p p' h h' => ?_⟩
  rw [hsteps] at h h'
  refine ⟨h.le_of_before hts hchron hnames h', fun hlt => ?_⟩
  rcases before_or_eq_or_before (text.suffix i) (text'.suffix i') with hbefore | heq | hbefore
  · exact hbefore
  · have hvar : .variableSecond ∉ ts := fun hmem =>
      (hchron.fixedWidth _ hmem).1 (List.mem_cons_of_mem _ List.mem_cons_self)
    obtain ⟨n, us, hread, -, -, rfl⟩ := h.reading hts hnames hvar
    obtain ⟨n', us', hread', -, -, rfl⟩ := h'.reading hts hnames hvar
    rw [heq, hread'] at hread
    obtain ⟨-, rfl⟩ := Prod.mk.inj (Option.some.inj hread)
    exact absurd hlt (Int.lt_irrefl _)
  · exact absurd (h'.le_of_before hts hchron hnames h hbefore) (Int.not_le.mpr hlt)

theorem text_order_is_time_order_leap_day :
    Before "2024-02-29 23Z up".toList "2024-03-01 00Z down".toList := by
  obtain ⟨ts, hts, h⟩ := text_order_is_time_order (fun _ => 0) "YYYY-MM-DD hhZ".toList (by decide)
  have hsplit : Splits "YYYY-MM-DD hhZ".toList [.fourDigitYear, .literal '-', .month, .literal '-',
      .day, .literal ' ', .hour false, .utcDesignator] :=
    .cons rfl (.cons rfl (.cons rfl (.cons rfl (.cons rfl (.cons rfl (.cons rfl (.cons rfl
      .nil)))))))
  obtain rfl := hts.unique hsplit
  have horder := h ⟨by simp [Token.FixedWidth], by decide⟩ ⟨rfl, rfl, rfl, rfl⟩
    (ofList "2024-02-29 23Z up".toList)
    (ofList "2024-03-01 00Z down".toList) 0 0 0 1709247600000000000 1709251200000000000
    ⟨by decide, by decide, by decide, ⟨by decide, Or.inl (by decide)⟩, by decide⟩
    ⟨by decide, by decide, by decide, ⟨by decide, Or.inl (by decide)⟩, by decide⟩
  exact horder.2 (by decide)

end Eestv
