import Eestv.Timestamp.DateCheck
import Eestv.Timestamp.Spelling

/-! Rendering a result by the tokens of a format and parsing the text with the
steps of the format gives the result back. -/

namespace Eestv
open Decimal Gregorian StringView

/-- A text in which every token of a format is replaced by one of its spellings and
every literal is kept, such that no digit follows where it would be read along. -/
inductive Renders (d : DateAndTime) : List Token → List Char → Prop
  | nil : Renders d [] []
  | cons {t : Token} {ts : List Token} {piece rest : List Char} :
      t.Spelling d piece → t.Delimited piece rest → Renders d ts rest →
      Renders d (t :: ts) (piece ++ rest)

def Field.Same (a b : DateAndTime) : Field → Prop
  | .year => a.year = b.year
  | .month => a.month = b.month
  | .day => a.day = b.day
  | .hour => a.hour = b.hour
  | .minute => a.minute = b.minute
  | .second => a.second = b.second ∧ a.leapSecond = b.leapSecond
  | .nanosecond => a.nanosecond = b.nanosecond
  | .utcOffset => a.utcOffsetMinutes = b.utcOffsetMinutes

/-- The results that a format can render: the fields of its tokens are in their
ranges, the other fields have their defaults, and the date exists. -/
structure Renderable (ts : List Token) (d : DateAndTime) : Prop where
  admits : ∀ t ∈ ts, t.Admits d
  leapSecond_iff : d.leapSecond = true ↔ d.second = 60
  default_of_unnamed : ∀ f, hasField ts f = false → f.Same d {}
  isDate : hasField ts .year = true → hasField ts .month = true → hasField ts .day = true →
    IsDate d.year d.month d.day
  isDate_some : hasField ts .month = true → hasField ts .day = true →
    ∃ year, IsDate year d.month d.day

theorem DateAndTime.ext_of_same {a b : DateAndTime} (h : ∀ f : Field, f.Same a b) : a = b := by
  obtain ⟨hsecond, hleap⟩ := h .second
  cases a
  cases b
  rw [DateAndTime.mk.injEq]
  exact ⟨h .year, h .month, h .day, h .hour, h .minute, hsecond, h .nanosecond, h .utcOffset, hleap⟩

def Update.Copies (d : DateAndTime) : Update → Prop
  | keep => True
  | year value => value = d.year
  | month value => value = d.month
  | day value => value = d.day
  | hour value => value = d.hour
  | minute value => value = d.minute
  | second value => value = d.second
  | nanosecond value => value = d.nanosecond
  | utcOffset minutes => some minutes = d.utcOffsetMinutes

theorem Token.update_copies {t : Token} {d : DateAndTime} (hd : t.Admits d) :
    (t.update d).Copies d ∧ (t.update d).field = t.field := by
  cases t with
  | literal c => exact ⟨trivial, rfl⟩
  | utcDesignator => exact ⟨hd.symm, rfl⟩
  | utcOffset withColon =>
    obtain ⟨minutes, hminutes, -⟩ := hd
    refine ⟨?_, rfl⟩
    rw [update, hminutes]
    exact hminutes.symm
  | _ => exact ⟨rfl, rfl⟩

theorem Update.apply_same {d out : DateAndTime} {u : Update} (hu : u.Copies d)
    (hleap : d.leapSecond = true ↔ d.second = 60) {f : Field}
    (h : f.Same out d ∨ u.field = some f) : f.Same (u.apply out) d := by
  cases u with
  | keep => exact h.resolve_right nofun
  | second value =>
    cases f with
    | second =>
      obtain rfl : value = d.second := hu
      refine ⟨rfl, Bool.eq_iff_iff.mpr ?_⟩
      rw [hleap]
      exact decide_eq_true_iff
    | _ => exact h.resolve_right nofun
  | _ => cases f <;> first | exact hu | exact h.resolve_right nofun

theorem foldl_same {d : DateAndTime} (hleap : d.leapSecond = true ↔ d.second = 60)
    {ts : List Token} (hts : ∀ t ∈ ts, t.Admits d) {out : DateAndTime} {f : Field}
    (h : f.Same out d ∨ hasField ts f = true) :
    f.Same ((ts.map (Token.update d)).foldl Update.apply out) d := by
  induction ts generalizing out with
  | nil => exact h.resolve_right (by simp [hasField])
  | cons t ts ih =>
    obtain ⟨hcopies, hfield⟩ := Token.update_copies (hts t List.mem_cons_self)
    rw [hasField_cons, ← or_assoc, ← hfield] at h
    rw [List.map_cons, List.foldl_cons]
    exact ih (fun u hu => hts u (List.mem_cons_of_mem t hu))
      (h.imp_left fun h => Update.apply_same hcopies hleap h)

theorem Renders.readTokens {d : DateAndTime} {ts : List Token} {cs : List Char}
    (h : Renders d ts cs) (hdigits : ∀ t ∈ ts, ∀ n, t = .fraction n → n ≤ 9)
    (hts : ∀ t ∈ ts, t.Admits d) :
    readTokens ts cs = some (cs.length, ts.map (Token.update d)) := by
  induction h with
  | nil => rfl
  | @cons t ts piece rest hsp hnext _ ih =>
    have hread := Token.read_spelling (hdigits t List.mem_cons_self) (hts t List.mem_cons_self) hsp
      hnext
    refine readTokens_cons.mpr ⟨_, _, _, _, hread, ?_, List.length_append, rfl⟩
    rw [List.drop_left' rfl]
    exact ih (fun u hu => hdigits u (List.mem_cons_of_mem t hu))
      (fun u hu => hts u (List.mem_cons_of_mem t hu))

theorem Renderable.dateFits {ts : List Token} {d : DateAndTime} (h : Renderable ts d) :
    DateFits ts d := by
  intro hmonth hday
  have hm : hasField ts .month = true :=
    eq_true_of_ne_false fun hf => hmonth (h.default_of_unnamed .month hf)
  have hd : hasField ts .day = true :=
    eq_true_of_ne_false fun hf => hday (h.default_of_unnamed .day hf)
  cases hyear : hasField ts .year with
  | true =>
    have hdate := h.isDate hyear hm hd
    rw [Bool.not_true, Bool.false_or, maxDayInMonth_eq hdate.month_pos hdate.month_le]
    exact hdate.day_le
  | false =>
    obtain ⟨year, hdate⟩ := h.isDate_some hm hd
    have htwo : isLeapYear 2000 = true := rfl
    rw [Bool.not_false, Bool.true_or, ← htwo, maxDayInMonth_eq hdate.month_pos hdate.month_le]
    exact Nat.le_trans hdate.day_le (monthLength_le_leap year (by decide) d.month)

/-- Parsing gives back what was rendered, for every accepted format and every text whose length is
an `int`. -/
theorem parse_of_renders (format : List Char) (hvalid : (compileFormat format).valid = true) :
    ∃ ts, Splits format ts ∧ ∀ (d : DateAndTime) (cs : List Char), cs.length < 2 ^ 31 →
      Renderable ts d → Renders d ts cs →
      runSteps (ofList cs) (compileFormat format).steps 0 {} = ⟨true, cs.length, d⟩ := by
  obtain ⟨ts, hts, hsteps⟩ := compileFormat_valid hvalid
  refine ⟨ts, hts, fun d cs _ hd hcs => ?_⟩
  have hread := hcs.readTokens hts.fraction_le hd.admits
  have hsuffix : (ofList cs).suffix 0 = cs := ofList_suffix cs 0
  obtain ⟨-, hrun⟩ := (runSteps_tokens hts.fraction_le (dateCheck ts)
    (Nat.zero_le (ofList cs).size) {}).1 cs.length _ (by rw [hsuffix]; exact hread)
  have hsame : (ts.map (Token.update d)).foldl Update.apply {} = d := by
    refine DateAndTime.ext_of_same fun f => foldl_same hd.leapSecond_iff hd.admits ?_
    cases hf : hasField ts f with
    | true => exact Or.inr rfl
    | false =>
      have hdefault := hd.default_of_unnamed f hf
      refine Or.inl ?_
      cases f <;> first | exact hdefault.symm | exact ⟨hdefault.1.symm, hdefault.2.symm⟩
  rw [hsteps]
  rw [Int.natCast_zero, hsame, Nat.zero_add] at hrun
  rw [hrun]
  obtain ⟨hout, hjump, haccepted⟩ := runSteps_dateCheck (ofList cs) ts cs.length d
  generalize runSteps (ofList cs) (dateCheck ts) cs.length d = r at hout hjump haccepted
  obtain ⟨accepted, jump, output⟩ := r
  obtain rfl : output = d := hout
  obtain rfl : jump = cs.length := hjump
  rw [show accepted = true from haccepted.mpr fun _ => hd.dateFits]

theorem parse_of_renders_new_year :
    runSteps (ofList " 1 jAn z".toList) (compileFormat "D* MMM Z".toList).steps 0 {} =
      ⟨true, 8, { month := 1, day := 1, utcOffsetMinutes := some 0 }⟩ := by
  obtain ⟨ts, hts, hparse⟩ := parse_of_renders "D* MMM Z".toList (by decide)
  have hsplit : Splits "D* MMM Z".toList
      [.paddedDay, .literal ' ', .monthName, .literal ' ', .utcDesignator] :=
    .cons rfl (.cons rfl (.cons rfl (.cons rfl (.cons rfl .nil))))
  obtain rfl := hts.unique hsplit
  refine hparse _ _ (by decide) ⟨?_, by decide, fun f hf => ?_, fun hy => absurd hy (by decide),
    fun _ _ => ⟨2000, by decide, by decide, by decide, by decide⟩⟩ ?_
  · simp [Token.Admits]
  · cases f <;> first | rfl | exact ⟨rfl, rfl⟩ | exact absurd hf (by decide)
  · change Renders _ _ ([' ', '1'] ++ ([' '] ++ (['j', 'A', 'n'] ++ ([' '] ++ (['z'] ++ [])))))
    exact .cons (Or.inr ⟨by decide, Or.inl rfl⟩) nofun
      (.cons rfl trivial (.cons rfl trivial (.cons rfl trivial (.cons (Or.inr rfl) trivial .nil))))

end Eestv
