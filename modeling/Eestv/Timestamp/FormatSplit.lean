import Eestv.Timestamp.Token

/-! A format is read as the longest documented token or the literal at its front,
again and again. The compiler produces one step for each of them, and a date
check when a month or a day is among them. -/

namespace Eestv

/-- The token at the front of a format; `none` when a reserved letter begins none. -/
def nextToken : List Char → Option Token
  | [] => none
  | c :: cs =>
    if c = 'Y' then
      if ['Y', 'Y', 'Y'] <+: cs then some .fourDigitYear
      else if ['Y'] <+: cs then some .twoDigitYear else none
    else if c = 'M' then
      if ['M', 'M'] <+: cs then some .monthName
      else if ['M'] <+: cs then some .month else none
    else if c = 'D' then
      if ['*'] <+: cs then some .paddedDay
      else if ['D'] <+: cs then some .day else none
    else if c = 'h' ∨ c = 'H' then
      if [c] <+: cs then some (.hour (c = 'H')) else none
    else if c = 'm' then
      if ['m'] <+: cs then some .minute else none
    else if c = 's' then
      if ['*'] <+: cs then some .variableSecond
      else if ['s'] <+: cs then some .second else none
    else if c = 'f' then
      if ['*'] <+: cs then some .variableFraction
      else
        let digits := (cs.takeWhile fun d => d = 'f').length + 1
        if digits > 9 then none else some (.fraction digits)
    else if c = 'Z' then
      if ['Z', 'Z'] <+: cs then some (.utcOffset true)
      else if ['Z'] <+: cs then some (.utcOffset false) else some .utcDesignator
    else some (.literal c)

inductive Splits : List Char → List Token → Prop
  | nil : Splits [] []
  | cons {cs : List Char} {t : Token} {ts : List Token} :
      nextToken cs = some t → Splits (cs.drop t.text.length) ts → Splits cs (t :: ts)

def hasField (ts : List Token) (f : Field) : Bool := ts.any fun t => t.field = some f

theorem hasField_cons (t : Token) (ts : List Token) (f : Field) :
    hasField (t :: ts) f = true ↔ t.field = some f ∨ hasField ts f = true := by
  rw [hasField, List.any_cons, Bool.or_eq_true, decide_eq_true_eq]
  rfl

def dateCheck (ts : List Token) : List DateAndTimeParserStep :=
  if hasField ts .month || hasField ts .day then [makeDateValidator (hasField ts .year)] else []

def CompileState.add (st : CompileState) (t : Token) : CompileState where
  steps := st.steps ++ [t.step]
  hasYear := if t.field = some .year then true else st.hasYear
  hasMonth := if t.field = some .month then true else st.hasMonth
  hasDay := if t.field = some .day then true else st.hasDay

section OneToken

variable {format cs : List Char} {index : ℕ} {c : Char}

theorem charAt_of_drop (h : format.drop index = c :: cs) : charAt format index = c := by
  rw [charAt, List.getD_eq_getElem?_getD, ← List.head?_drop, h]
  rfl

theorem charAt_add (h : format.drop index = c :: cs) (k : ℕ) :
    charAt format (index + (k + 1)) = cs.getD k default := by
  rw [charAt, List.getD_eq_getElem?_getD, List.getD_eq_getElem?_getD, ← List.getElem?_drop, h,
    List.getElem?_cons_succ]

theorem add_lt_length (h : format.drop index = c :: cs) (k : ℕ) :
    index + (k + 1) < format.length ↔ k < cs.length := by
  have hlen := congrArg List.length h
  rw [List.length_drop, List.length_cons] at hlen
  omega

theorem one_ahead (h : format.drop index = c :: cs) (x : Char) :
    (index + 1 < format.length ∧ charAt format (index + 1) = x) ↔ [x] <+: cs := by
  rw [add_lt_length h 0, charAt_add h 0]
  cases cs with
  | nil => simp
  | cons d cs => simp [List.cons_prefix_cons, eq_comm]

theorem two_ahead (h : format.drop index = c :: cs) (x y : Char) :
    (index + 2 < format.length ∧ charAt format (index + 1) = x ∧
      charAt format (index + 2) = y) ↔ [x, y] <+: cs := by
  rw [add_lt_length h 1, charAt_add h 0, charAt_add h 1]
  rcases cs with _ | ⟨d, _ | ⟨e, cs⟩⟩
  · simp
  · simp
  · simp [List.cons_prefix_cons, eq_comm]

theorem three_ahead (h : format.drop index = c :: cs) (x y z : Char) :
    ([x] <+: cs ∧ index + 3 < format.length ∧ charAt format (index + 2) = y ∧
      charAt format (index + 3) = z) ↔ [x, y, z] <+: cs := by
  rw [add_lt_length h 2, charAt_add h 1, charAt_add h 2]
  rcases cs with _ | ⟨d, _ | ⟨e, _ | ⟨f, cs⟩⟩⟩
  · simp
  · simp
  · simp
  · simp [List.cons_prefix_cons, eq_comm]

theorem fractionDigits_eq (format : List Char) (index : ℕ) {fuel digits : ℕ}
    (h : format.length ≤ index + digits + fuel) :
    fractionDigits format index fuel digits =
      digits + ((format.drop (index + digits)).takeWhile fun d => d = 'f').length := by
  induction fuel generalizing digits with
  | zero =>
    rw [fractionDigits, List.drop_eq_nil_of_le (by exact h)]
    rfl
  | succ fuel ih =>
    rw [fractionDigits]
    rcases hs : format.drop (index + digits) with _ | ⟨d, ds⟩
    · rw [if_neg (fun h' => absurd (List.drop_eq_nil_iff.mp hs) (Nat.not_le.mpr h'.1))]
      rfl
    · have hlt : index + digits < format.length := by
        refine Nat.lt_of_not_le fun hle => ?_
        rw [List.drop_eq_nil_of_le hle] at hs
        exact absurd hs.symm (List.cons_ne_nil d ds)
      have hnext : format.drop (index + (digits + 1)) = ds := by
        rw [← Nat.add_assoc, ← List.drop_drop, hs]
        rfl
      rw [charAt_of_drop hs]
      by_cases hf : d = 'f'
      · rw [if_pos ⟨hlt, hf⟩, ih (by omega), hnext, List.takeWhile_cons_of_pos (by simpa using hf),
          List.length_cons]
        omega
      · rw [if_neg (fun h' => hf h'.2), List.takeWhile_cons_of_neg (by simpa using hf)]
        rfl

def Compiles (index : ℕ) (st : CompileState) (r : Except (List Char) (ℕ × CompileState)) :
    Option Token → Prop
  | some t => r = .ok (index + (t.text.length - 1), st.add t)
  | none => ∃ message, r = .error message

theorem Compiles.ite {st : CompileState} {r r' : Except (List Char) (ℕ × CompileState)}
    {o o' : Option Token} {p : Prop} [Decidable p] (h : p → Compiles index st r o)
    (h' : ¬ p → Compiles index st r' o') :
    Compiles index st (if p then r else r') (if p then o else o') := by
  split
  · exact h ‹_›
  · exact h' ‹_›

theorem compileToken_compiles (h : format.drop index = c :: cs) (st : CompileState) :
    Compiles index st (compileToken format index st) (nextToken (c :: cs)) := by
  have hdigits : fractionDigits format index format.length 1 =
      (cs.takeWhile fun d => d = 'f').length + 1 := by
    rw [fractionDigits_eq format index (by omega), ← List.drop_drop, h, Nat.add_comm]
    rfl
  unfold compileToken nextToken
  dsimp only
  simp only [charAt_of_drop h, one_ahead h, two_ahead h, three_ahead h, hdigits]
  -- the compiler and the table make the same case distinctions in the same order
  repeat' first | exact rfl | exact ⟨_, rfl⟩ | refine Compiles.ite (fun _ => ?_) (fun _ => ?_)
  · cases hcapital : decide (c = 'H') <;> exact rfl
  · rw [Compiles, Token.text, List.length_replicate]
    rfl

end OneToken

/-! ### Tokens at the front of a format -/

def FoundAt (cs : List Char) : Option Token → Prop
  | some t => t.text <+: cs ∧ t.text ≠ [] ∧ ∀ n, t = .fraction n → n ≤ 9
  | none => True

theorem FoundAt.ite {cs : List Char} {o o' : Option Token} {p : Prop} [Decidable p]
    (h : p → FoundAt cs o) (h' : ¬ p → FoundAt cs o') : FoundAt cs (if p then o else o') := by
  split
  · exact h ‹_›
  · exact h' ‹_›

theorem FoundAt.some {c d : Char} {cs ds : List Char} {t : Token} (ht : t.text = d :: ds)
    (hc : c = d) (hds : ds <+: cs) (hn : ∀ n, t = .fraction n → n ≤ 9) :
    FoundAt (c :: cs) (some t) := by
  refine ⟨?_, ?_, hn⟩ <;> rw [ht]
  · exact List.cons_prefix_cons.mpr ⟨hc.symm, hds⟩
  · exact List.cons_ne_nil d ds

theorem takeWhile_eq_replicate (cs : List Char) :
    cs.takeWhile (fun d => d = 'f') =
      List.replicate (cs.takeWhile fun d => d = 'f').length 'f' := by
  refine List.eq_replicate_of_mem fun d hd => ?_
  simpa using List.all_eq_true.mp List.all_takeWhile d hd

theorem nextToken_foundAt (c : Char) (cs : List Char) :
    FoundAt (c :: cs) (nextToken (c :: cs)) := by
  unfold nextToken
  refine .ite (fun hc => ?_) fun _ => .ite (fun hc => ?_) fun _ => .ite (fun hc => ?_) fun _ =>
    .ite (fun hc => ?_) fun _ => .ite (fun hc => ?_) fun _ => .ite (fun hc => ?_) fun _ =>
    .ite (fun hc => ?_) fun _ => .ite (fun hc => ?_) fun _ => ?_
  · exact .ite (fun hp => .some rfl hc hp nofun) fun _ =>
      .ite (fun hp => .some rfl hc hp nofun) fun _ => trivial
  · exact .ite (fun hp => .some rfl hc hp nofun) fun _ =>
      .ite (fun hp => .some rfl hc hp nofun) fun _ => trivial
  · exact .ite (fun hp => .some rfl hc hp nofun) fun _ =>
      .ite (fun hp => .some rfl hc hp nofun) fun _ => trivial
  · refine .ite (fun hp => ?_) fun _ => trivial
    rcases hc with rfl | rfl
    · exact .some rfl rfl hp nofun
    · exact .some rfl rfl hp nofun
  · exact .ite (fun hp => .some rfl hc hp nofun) fun _ => trivial
  · exact .ite (fun hp => .some rfl hc hp nofun) fun _ =>
      .ite (fun hp => .some rfl hc hp nofun) fun _ => trivial
  · refine .ite (fun hp => .some rfl hc hp nofun) fun _ => .ite (fun _ => trivial) fun hn => ?_
    refine .some (List.replicate_succ) hc ?_ fun n h => ?_
    · rw [← takeWhile_eq_replicate]
      exact List.takeWhile_prefix _
    · rw [← Token.fraction.inj h]
      exact Nat.le_of_not_lt hn
  · exact .ite (fun hp => .some rfl hc hp nofun) fun _ =>
      .ite (fun hp => .some rfl hc hp nofun) fun _ => .some rfl hc List.nil_prefix nofun
  · exact .some rfl rfl List.nil_prefix nofun

theorem nextToken_text {cs : List Char} {t : Token} (h : nextToken cs = some t) :
    t.text <+: cs ∧ t.text ≠ [] ∧ ∀ n, t = .fraction n → n ≤ 9 := by
  cases cs with
  | nil => exact absurd h (by simp [nextToken])
  | cons c cs =>
    have hfound := nextToken_foundAt c cs
    rwa [h] at hfound

theorem Splits.flatMap_text {cs : List Char} {ts : List Token} (h : Splits cs ts) :
    ts.flatMap Token.text = cs := by
  induction h with
  | nil => rfl
  | cons ht _ ih =>
    rw [List.flatMap_cons, ih]
    exact List.prefix_iff_eq_append.mp (nextToken_text ht).1

theorem Splits.unique {cs : List Char} {ts us : List Token} (h : Splits cs ts)
    (h' : Splits cs us) : ts = us := by
  induction h generalizing us with
  | nil =>
    cases h' with
    | nil => rfl
    | cons hu _ => exact absurd hu (by simp [nextToken])
  | cons ht _ ih =>
    cases h' with
    | nil => exact absurd ht (by simp [nextToken])
    | cons hu hus =>
      obtain rfl := Option.some.inj (ht.symm.trans hu)
      rw [ih hus]

theorem Splits.fraction_le {cs : List Char} {ts : List Token} (h : Splits cs ts) :
    ∀ t ∈ ts, ∀ n, t = .fraction n → n ≤ 9 := by
  induction h with
  | nil => exact fun _ ht => absurd ht List.not_mem_nil
  | cons ht _ ih =>
    intro u hu
    rcases List.mem_cons.mp hu with rfl | hu
    · exact (nextToken_text ht).2.2
    · exact ih u hu

/-! ### The whole format -/

theorem compileLoop_spec (format : List Char) {fuel index : ℕ} (st : CompileState)
    (hfuel : format.length ≤ index + fuel) :
    (∃ ts, Splits (format.drop index) ts ∧
        compileLoop format fuel index st = (ts.foldl CompileState.add st).finish) ∨
      (∀ ts, ¬ Splits (format.drop index) ts) ∧
        ∃ i message, compileLoop format fuel index st = makeInvalidParser format i message := by
  induction fuel generalizing index st with
  | zero =>
    rw [List.drop_eq_nil_of_le (by exact hfuel)]
    exact Or.inl ⟨[], .nil, rfl⟩
  | succ fuel ih =>
    rw [compileLoop]
    rcases hs : format.drop index with _ | ⟨c, cs⟩
    · rw [if_neg (Nat.not_lt.mpr (List.drop_eq_nil_iff.mp hs))]
      exact Or.inl ⟨[], .nil, rfl⟩
    · have hlt : index < format.length := by
        refine Nat.lt_of_not_le fun hle => ?_
        rw [List.drop_eq_nil_of_le hle] at hs
        exact absurd hs.symm (List.cons_ne_nil c cs)
      rw [if_pos hlt]
      have hround := compileToken_compiles hs st
      cases ht : nextToken (c :: cs) with
      | none =>
        -- a reserved letter begins no token, and the compiler gives up at it
        rw [ht] at hround
        obtain ⟨message, hmessage⟩ := hround
        rw [hmessage]
        refine Or.inr ⟨fun ts hts => ?_, index, message, rfl⟩
        cases hts with
        | cons ht' _ => exact absurd (ht.symm.trans ht') (Option.some_ne_none _ ∘ Eq.symm)
      | some t =>
        rw [ht] at hround
        obtain ⟨-, hne, -⟩ := nextToken_text ht
        have hpos : 0 < t.text.length := List.length_pos_iff.mpr hne
        rw [hround]
        dsimp only
        -- a round moves the index to the last character of the token, the loop header past it
        have hindex : index + (t.text.length - 1) + 1 = index + t.text.length := by omega
        rw [hindex]
        have hfuel' : format.length ≤ index + t.text.length + fuel := by omega
        rcases ih (st.add t) hfuel' with hrest | ⟨hnone, hrest⟩
        · obtain ⟨ts, hts, hloop⟩ := hrest
          rw [← List.drop_drop, hs] at hts
          exact Or.inl ⟨t :: ts, .cons ht hts, hloop⟩
        · refine Or.inr ⟨fun us hus => ?_, hrest⟩
          cases hus with
          | cons ht' hus =>
            obtain rfl := Option.some.inj (ht.symm.trans ht')
            rw [← hs, List.drop_drop] at hus
            exact hnone _ hus

theorem foldl_add (ts : List Token) (st : CompileState) :
    ts.foldl CompileState.add st =
      ⟨st.steps ++ ts.map Token.step, st.hasYear || hasField ts .year,
        st.hasMonth || hasField ts .month, st.hasDay || hasField ts .day⟩ := by
  have hflag (b : Bool) (t : Token) (f : Field) (rest : List Token) :
      ((if t.field = some f then true else b) || hasField rest f) =
        (b || hasField (t :: rest) f) := by
    rw [hasField, hasField, List.any_cons]
    by_cases h : t.field = some f
    · rw [if_pos h, decide_eq_true h, Bool.true_or, Bool.or_true]
    · rw [if_neg h, decide_eq_false h, Bool.false_or]
  induction ts generalizing st with
  | nil =>
    simp only [List.foldl_nil, List.map_nil, List.append_nil, hasField, List.any_nil, Bool.or_false]
  | cons t ts ih =>
    rw [List.foldl_cons, ih, List.map_cons]
    simp only [CompileState.add, hflag, List.append_assoc, List.singleton_append]

/-- An accepted format splits into tokens, and its steps are theirs with the date
check at the end. -/
theorem compileFormat_valid {format : List Char} (h : (compileFormat format).valid = true) :
    ∃ ts, Splits format ts ∧
      (compileFormat format).steps = ts.map Token.step ++ dateCheck ts := by
  have hinvalid (i : ℕ) (message : List Char) :
      (makeInvalidParser format i message).valid = false := rfl
  unfold compileFormat at h ⊢
  split at h
  · exact absurd h (by rw [hinvalid]; decide)
  · rw [if_neg ‹_›]
    rcases compileLoop_spec format {} (Nat.le_add_left _ 0) with hsplit | ⟨-, herror⟩
    · obtain ⟨ts, hts, hloop⟩ := hsplit
      refine ⟨ts, hts, ?_⟩
      rw [hloop, foldl_add, CompileState.finish, dateCheck]
      dsimp only
      rw [Bool.false_or, Bool.false_or, Bool.false_or, List.nil_append]
      split
      · rfl
      · exact (List.append_nil _).symm
    · obtain ⟨i, message, hloop⟩ := herror
      rw [hloop, hinvalid] at h
      exact absurd h Bool.false_ne_true

end Eestv
