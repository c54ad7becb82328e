import Eestv.Library.RunLength
import Eestv.Timestamp.FormatSplit

/-! The formats that the compiler accepts: the runs of each reserved letter decide, and an
accepted format is split from the left into the longest tokens. -/

namespace Eestv
open RunLength

/-- The documented tokens and the literals; a reserved letter is no literal. -/
def Token.Documented : Token → Prop
  | literal c => c ∉ ['Y', 'M', 'D', 'h', 'H', 'm', 's', 'f', 'Z']
  | fraction digits => 1 ≤ digits ∧ digits ≤ 9
  | _ => True

theorem nextToken_unreserved {c : Char}
    (hc : c ∉ ['Y', 'M', 'D', 'h', 'H', 'm', 's', 'f', 'Z']) (cs : List Char) :
    nextToken (c :: cs) = some (.literal c) := by
  simp only [List.mem_cons, List.not_mem_nil, or_false, not_or] at hc
  simp [nextToken, hc]

theorem fraction_le_of_documented {ts : List Token} (hdoc : ∀ t ∈ ts, t.Documented) :
    ∀ t ∈ ts, ∀ n, t = .fraction n → n ≤ 9 := by
  intro t ht n hn
  have h := hdoc t ht
  rw [hn] at h
  exact h.2

def isSeparator (tested : Char) : Bool :=
  match tested with
  | 'Y' | 'M' | 'D' | 'h' | 'H' | 'm' | 's' | 'f' | 'Z' => false
  | _ => true

/-- A token that no other one at the front of the text is longer than. -/
structure Longest (cs : List Char) (t : Token) : Prop where
  documented : t.Documented
  isPrefix : t.text <+: cs
  length_le : ∀ u : Token, u.Documented → u.text <+: cs → u.text.length ≤ t.text.length

inductive LongestSplit : List Char → List Token → Prop
  | nil : LongestSplit [] []
  | cons {cs : List Char} {t : Token} {ts : List Token} :
      Longest cs t → LongestSplit (cs.drop t.text.length) ts → LongestSplit cs (t :: ts)

/-- The runs of a letter that a format may have, in front of `after`. -/
def RunAllowed (c : Char) (n : ℕ) (after : List Char) : Prop :=
  if c = 'Y' ∨ c = 'h' ∨ c = 'H' ∨ c = 'm' then n % 2 = 0
  else if c = 'M' then n % 3 ≠ 1
  else if c = 'D' ∨ c = 's' then n % 2 = 0 ∨ after.head? = some '*'
  else if c = 'f' then n ≤ 9
  else True

def Splittable (cs : List Char) : Prop := ∃ ts, Splits cs ts

section Runs

variable {c : Char} {cs post : List Char} {n k : ℕ} {t : Token}

theorem splittable_nil : Splittable [] := ⟨[], .nil⟩

theorem splittable_of_some (h : nextToken cs = some t) :
    Splittable cs ↔ Splittable (cs.drop t.text.length) := by
  constructor
  · rintro ⟨ts, hts⟩
    cases hts with
    | nil => exact absurd h (by simp [nextToken])
    | cons ht hts =>
      obtain rfl := Option.some.inj (h.symm.trans ht)
      exact ⟨_, hts⟩
  · rintro ⟨ts, hts⟩
    exact ⟨t :: ts, .cons h hts⟩

theorem not_splittable (h : nextToken cs = none) (hne : cs ≠ []) : ¬ Splittable cs := by
  rintro ⟨ts, hts⟩
  cases hts with
  | nil => exact hne rfl
  | cons ht _ => exact absurd (h.symm.trans ht) (by simp)

theorem cons_prefix_of_head {d : Char} {ds : List Char} (h : post.head? ≠ some d) :
    ¬ d :: ds <+: post := by
  rintro ⟨rest, rfl⟩
  exact h rfl

theorem splittable_star (h : post.head? = some '*') :
    Splittable post ↔ Splittable (post.drop 1) := by
  obtain ⟨rest, rfl⟩ := List.head?_eq_some_iff.mp h
  exact splittable_of_some (t := .literal '*') rfl

theorem splittable_run {p : ℕ → Prop} (hzero : p 0)
    (hstep : ∀ n, 0 < n →
      nextToken (List.replicate n c ++ post) = none ∧ ¬ p n ∨
      (∃ t, nextToken (List.replicate n c ++ post) = some t ∧
        (t.text.length ≤ n ∧ (p n ↔ p (n - t.text.length)) ∨
          t.text.length = n + 1 ∧ post.head? = some '*' ∧ p n))) :
    Splittable (List.replicate n c ++ post) ↔ p n ∧ Splittable post := by
  induction n using Nat.strongRecOn with
  | _ n ih =>
    rcases Nat.eq_zero_or_pos n with rfl | hn
    · rw [List.replicate_zero, List.nil_append, and_iff_right hzero]
    · rcases hstep n hn with ⟨hnone, hp⟩ | ⟨t, ht, ⟨hlen, hp⟩ | ⟨hlen, hstar, hp⟩⟩
      · refine iff_of_false (not_splittable hnone fun h => ?_) fun h => hp h.1
        have hzero := congrArg List.length h
        rw [List.length_append, List.length_replicate, List.length_nil] at hzero
        omega
      · have hpos := List.length_pos_iff.mpr (nextToken_text ht).2.1
        rw [splittable_of_some ht, List.drop_append_of_le_length (by rwa [List.length_replicate]),
          List.drop_replicate, ih _ (by omega), hp]
      · rw [splittable_of_some ht, hlen, ← List.drop_drop, List.drop_left' (List.length_replicate),
          ← splittable_star hstar, and_iff_right hp]

theorem splittable_year (hpost : post.head? ≠ some 'Y') :
    Splittable (List.replicate n 'Y' ++ post) ↔ n % 2 = 0 ∧ Splittable post := by
  have hone (ds : List Char) : ¬ 'Y' :: ds <+: post := cons_prefix_of_head hpost
  refine splittable_run (p := fun n => n % 2 = 0) rfl fun n hn => ?_
  match n with
  | 1 => exact Or.inl ⟨by simp [nextToken, hone], by decide⟩
  | 2 => exact Or.inr ⟨.twoDigitYear, by simp [nextToken, List.replicate_succ, hone],
      Or.inl ⟨by decide, by decide⟩⟩
  | 3 => exact Or.inr ⟨.twoDigitYear, by simp [nextToken, List.replicate_succ, hone],
      Or.inl ⟨by decide, by decide⟩⟩
  | n + 4 =>
    have htext : Token.fourDigitYear.text.length = 4 := rfl
    refine Or.inr ⟨.fourDigitYear, by simp [nextToken, List.replicate_succ], Or.inl ⟨?_, ?_⟩⟩
    · exact Nat.le_add_left 4 n
    · rw [htext]
      omega

theorem splittable_month (hpost : post.head? ≠ some 'M') :
    Splittable (List.replicate n 'M' ++ post) ↔ n % 3 ≠ 1 ∧ Splittable post := by
  have hone (ds : List Char) : ¬ 'M' :: ds <+: post := cons_prefix_of_head hpost
  refine splittable_run (p := fun n => n % 3 ≠ 1) (by decide) fun n hn => ?_
  match n with
  | 1 => exact Or.inl ⟨by simp [nextToken, hone], by decide⟩
  | 2 => exact Or.inr ⟨.month, by simp [nextToken, List.replicate_succ, hone],
      Or.inl ⟨by decide, by decide⟩⟩
  | n + 3 =>
    exact Or.inr ⟨.monthName, by simp [nextToken, List.replicate_succ],
      Or.inl ⟨Nat.le_add_left 3 n, by simp [Token.text]⟩⟩

theorem splittable_pair {t : Token} (hlen : t.text.length = 2)
    (hnext : ∀ cs, nextToken (c :: cs) = if [c] <+: cs then some t else none)
    (hpost : post.head? ≠ some c) :
    Splittable (List.replicate n c ++ post) ↔ n % 2 = 0 ∧ Splittable post := by
  refine splittable_run (p := fun n => n % 2 = 0) rfl fun n hn => ?_
  match n with
  | 1 => exact Or.inl ⟨(hnext post).trans (if_neg (cons_prefix_of_head hpost)), by decide⟩
  | n + 2 =>
    refine Or.inr ⟨t, ?_, Or.inl ⟨?_, ?_⟩⟩
    · exact (hnext _).trans (if_pos ⟨List.replicate n c ++ post, rfl⟩)
    · rw [hlen]
      exact Nat.le_add_left 2 n
    · rw [hlen, Nat.add_sub_cancel, Nat.add_mod_right]

theorem splittable_star_pair {t u : Token} (hlen : t.text.length = 2) (hlen' : u.text.length = 2)
    (hnext : ∀ cs, nextToken (c :: cs) =
      if ['*'] <+: cs then some u else if [c] <+: cs then some t else none)
    (hc : c ≠ '*') (hpost : post.head? ≠ some c) :
    Splittable (List.replicate n c ++ post) ↔
      (n % 2 = 0 ∨ post.head? = some '*') ∧ Splittable post := by
  refine splittable_run (p := fun n => n % 2 = 0 ∨ post.head? = some '*') (Or.inl rfl)
    fun n hn => ?_
  match n with
  | 1 =>
    by_cases hstar : post.head? = some '*'
    · obtain ⟨rest, rfl⟩ := List.head?_eq_some_iff.mp hstar
      exact Or.inr ⟨u, (hnext _).trans (if_pos ⟨rest, rfl⟩), Or.inr ⟨hlen', rfl, Or.inr rfl⟩⟩
    · refine Or.inl ⟨(hnext post).trans ?_, fun h => h.elim (by decide) hstar⟩
      rw [if_neg (cons_prefix_of_head hstar), if_neg (cons_prefix_of_head hpost)]
  | n + 2 =>
    refine Or.inr ⟨t, ?_, Or.inl ⟨?_, ?_⟩⟩
    · have hstar : (List.replicate (n + 1) c ++ post).head? ≠ some '*' := fun h =>
        hc (Option.some.inj h)
      have hpair : [c] <+: List.replicate (n + 1) c ++ post := ⟨List.replicate n c ++ post, rfl⟩
      have h := hnext (List.replicate (n + 1) c ++ post)
      rwa [if_neg (cons_prefix_of_head hstar), if_pos hpair] at h
    · rw [hlen]
      exact Nat.le_add_left 2 n
    · rw [hlen, Nat.add_sub_cancel, Nat.add_mod_right]

theorem takeWhile_run (hpost : post.head? ≠ some 'f') (n : ℕ) :
    ((List.replicate n 'f' ++ post).takeWhile fun d => d = 'f').length = n := by
  rw [List.takeWhile_append_of_pos fun d hd => decide_eq_true (List.eq_of_mem_replicate hd),
    List.length_append, List.length_replicate]
  cases post with
  | nil => rfl
  | cons d ds =>
    have hd : ¬ decide (d = 'f') = true := fun h => hpost (congrArg some (of_decide_eq_true h))
    rw [List.takeWhile_cons_of_neg (p := fun d => decide (d = 'f')) hd]
    rfl

theorem nextToken_letters (hpost : post.head? ≠ some 'f') (n : ℕ) :
    nextToken (List.replicate (n + 1) 'f' ++ post) =
      if ['*'] <+: List.replicate n 'f' ++ post then some .variableFraction
      else if n + 1 > 9 then none else some (.fraction (n + 1)) := by
  have h : nextToken ('f' :: (List.replicate n 'f' ++ post)) =
      if ['*'] <+: List.replicate n 'f' ++ post then some .variableFraction
      else if ((List.replicate n 'f' ++ post).takeWhile fun d => d = 'f').length + 1 > 9 then none
      else some (.fraction
        (((List.replicate n 'f' ++ post).takeWhile fun d => d = 'f').length + 1)) := rfl
  rwa [takeWhile_run hpost] at h

theorem splittable_fraction (hpost : post.head? ≠ some 'f') :
    Splittable (List.replicate n 'f' ++ post) ↔ n ≤ 9 ∧ Splittable post := by
  refine splittable_run (p := fun n => n ≤ 9) (by decide) fun n hn => ?_
  obtain ⟨n, rfl⟩ := Nat.exists_eq_add_one.mpr hn
  rw [nextToken_letters hpost]
  by_cases hstar : ['*'] <+: List.replicate n 'f' ++ post
  · obtain rfl : n = 0 := by
      cases n with
      | zero => rfl
      | succ n => exact absurd hstar (cons_prefix_of_head (by simp [List.replicate_succ]))
    obtain ⟨rest, rfl⟩ := hstar
    exact Or.inr ⟨.variableFraction, rfl, Or.inr ⟨rfl, rfl, by decide⟩⟩
  · rw [if_neg hstar]
    by_cases hbig : n + 1 > 9
    · exact Or.inl ⟨if_pos hbig, by omega⟩
    · refine Or.inr ⟨.fraction (n + 1), if_neg hbig, Or.inl ?_⟩
      rw [Token.text, List.length_replicate, Nat.sub_self]
      exact ⟨Nat.le_refl _, iff_of_true (by omega) (by decide)⟩

theorem splittable_zone (hpost : post.head? ≠ some 'Z') :
    Splittable (List.replicate n 'Z' ++ post) ↔ Splittable post := by
  have hone (ds : List Char) : ¬ 'Z' :: ds <+: post := cons_prefix_of_head hpost
  refine (splittable_run (p := fun _ => True) trivial fun n hn => ?_).trans (and_iff_right trivial)
  match n with
  | 1 =>
    exact Or.inr ⟨.utcDesignator, by simp [nextToken, hone], Or.inl ⟨by decide, Iff.rfl⟩⟩
  | 2 =>
    exact Or.inr ⟨.utcOffset false, by simp [nextToken, List.replicate_succ, hone],
      Or.inl ⟨by decide, Iff.rfl⟩⟩
  | n + 3 =>
    exact Or.inr ⟨.utcOffset true, by simp [nextToken, List.replicate_succ],
      Or.inl ⟨Nat.le_add_left 3 n, Iff.rfl⟩⟩

theorem splittable_literal (hc : c ∉ ['Y', 'M', 'D', 'h', 'H', 'm', 's', 'f', 'Z']) :
    Splittable (List.replicate n c ++ post) ↔ Splittable post := by
  refine (splittable_run (p := fun _ => True) trivial fun n hn => ?_).trans (and_iff_right trivial)
  obtain ⟨n, rfl⟩ := Nat.exists_eq_add_one.mpr hn
  refine Or.inr ⟨.literal c, ?_, Or.inl ⟨hn, Iff.rfl⟩⟩
  rw [List.replicate_succ, List.cons_append]
  exact nextToken_unreserved hc _

/-- The first run of a format decides by itself whether the format can begin with it. -/
theorem splittable_run_iff (hpost : post.head? ≠ some c) :
    Splittable (List.replicate n c ++ post) ↔ RunAllowed c n post ∧ Splittable post := by
  by_cases hc : c ∈ ['Y', 'M', 'D', 'h', 'H', 'm', 's', 'f', 'Z']
  · simp only [List.mem_cons, List.not_mem_nil, or_false] at hc
    rcases hc with rfl | rfl | rfl | rfl | rfl | rfl | rfl | rfl | rfl
    · exact splittable_year hpost
    · exact splittable_month hpost
    · exact splittable_star_pair (t := .day) (u := .paddedDay) rfl rfl (fun _ => rfl) (by decide)
        hpost
    · exact splittable_pair (t := .hour false) rfl (fun _ => rfl) hpost
    · exact splittable_pair (t := .hour true) rfl (fun _ => rfl) hpost
    · exact splittable_pair (t := .minute) rfl (fun _ => rfl) hpost
    · exact splittable_star_pair (t := .second) (u := .variableSecond) rfl rfl (fun _ => rfl)
        (by decide) hpost
    · exact splittable_fraction hpost
    · exact (splittable_zone hpost).trans (and_iff_right trivial).symm
  · rw [splittable_literal hc, RunAllowed]
    simp only [List.mem_cons, List.not_mem_nil, or_false, not_or] at hc
    simp [hc]

theorem splittable_iff_allRuns (format : List Char) :
    Splittable format ↔ AllRuns RunAllowed format :=
  iff_allRuns splittable_nil (fun _ _ _ _ hrest => splittable_run_iff hrest) format

end Runs

/-! ### The longest token -/

section Longest

variable {cs : List Char} {t u : Token}

theorem nextToken_documented (h : nextToken cs = some t) : t.Documented := by
  obtain ⟨hstart, hne, hnine⟩ := nextToken_text h
  cases t with
  | literal c =>
    obtain ⟨rest, rfl⟩ := hstart
    intro hc
    simp only [List.mem_cons, List.not_mem_nil, or_false] at hc
    rw [Token.text, List.singleton_append] at h
    -- each reserved letter has a branch of its own, with other tokens
    rcases hc with rfl | rfl | rfl | rfl | rfl | rfl | rfl | rfl | rfl
    all_goals
      simp only [nextToken, Char.reduceEq, if_true, if_false, or_true, true_or] at h
      split_ifs at h <;> cases h
  | fraction n =>
    refine ⟨Nat.pos_of_ne_zero fun hn => hne ?_, hnine n rfl⟩
    rw [hn]
    rfl
  | _ => exact trivial

theorem isSeparator_iff (c : Char) :
    isSeparator c = true ↔ ∀ cs, nextToken (c :: cs) = some (.literal c) := by
  have hmem : isSeparator c = true ↔ c ∉ ['Y', 'M', 'D', 'h', 'H', 'm', 's', 'f', 'Z'] := by
    unfold isSeparator
    split
    all_goals simp_all
  rw [hmem]
  constructor
  · exact nextToken_unreserved
  · exact fun h => nextToken_documented (h [])

theorem nextToken_text_self (h : t.Documented) : nextToken t.text = some t := by
  cases t with
  | literal c => exact nextToken_unreserved h []
  | hour capital => cases capital <;> rfl
  | utcOffset withColon => cases withColon <;> rfl
  | fraction n =>
    obtain ⟨n, rfl⟩ := Nat.exists_eq_add_one.mpr h.1
    have hend : ([] : List Char).head? ≠ some 'f' := Option.some_ne_none 'f' ∘ Eq.symm
    have hnext := nextToken_letters hend n
    have hstar : ¬ ['*'] <+: List.replicate n 'f' ++ [] := by
      refine cons_prefix_of_head fun hhead => ?_
      have hmem := List.mem_of_head? hhead
      rw [List.append_nil] at hmem
      exact absurd (List.eq_of_mem_replicate hmem) (by decide)
    rwa [if_neg hstar, if_neg (Nat.not_lt.mpr h.2), List.append_nil] at hnext
  | _ => rfl

theorem Longest.unique (h : Longest cs t) (h' : Longest cs u) : t = u := by
  have hle := h.length_le u h'.documented h'.isPrefix
  have hle' := h'.length_le t h.documented h.isPrefix
  have htext : t.text = u.text :=
    (List.prefix_of_prefix_length_le h.isPrefix h'.isPrefix hle').eq_of_length
      (Nat.le_antisymm hle' hle)
  have ht := nextToken_text_self h.documented
  rw [htext, nextToken_text_self h'.documented] at ht
  exact (Option.some.inj ht).symm

theorem letters_length_le {n : ℕ} {rest : List Char}
    (h : nextToken (List.replicate n 'f' ++ rest) = some t) : n ≤ t.text.length := by
  have hpos := List.length_pos_iff.mpr (nextToken_text h).2.1
  match n with
  | 0 => exact Nat.zero_le _
  | 1 => exact hpos
  | n + 2 =>
    have hletters : ((List.replicate (n + 1) 'f' ++ rest).takeWhile fun d => d = 'f').length =
        n + 1 + (rest.takeWhile fun d => d = 'f').length := by
      rw [List.takeWhile_append_of_pos fun d hd => decide_eq_true (List.eq_of_mem_replicate hd),
        List.length_append, List.length_replicate]
    have hstar : ¬ ['*'] <+: List.replicate (n + 1) 'f' ++ rest :=
      cons_prefix_of_head (fun hhead => absurd (Option.some.inj hhead) (by decide))
    have hnext : nextToken (List.replicate (n + 2) 'f' ++ rest) =
        if ['*'] <+: List.replicate (n + 1) 'f' ++ rest then some .variableFraction
        else
          let digits := ((List.replicate (n + 1) 'f' ++ rest).takeWhile fun d => d = 'f').length + 1
          if digits > 9 then none else some (.fraction digits) := rfl
    rw [h, if_neg hstar, hletters] at hnext
    dsimp only at hnext
    split at hnext
    · cases hnext
    · rw [Option.some.inj hnext, Token.text, List.length_replicate]
      omega

theorem nextToken_length_le (h : nextToken cs = some t) (hstart : u.text <+: cs) :
    u.text.length ≤ t.text.length := by
  have hpos := List.length_pos_iff.mpr (nextToken_text h).2.1
  obtain ⟨rest, rfl⟩ := hstart
  cases u with
  | literal c => exact hpos
  | utcDesignator => exact hpos
  | fraction n =>
    rw [Token.text, List.length_replicate]
    exact letters_length_le h
  | hour capital =>
    cases capital
    all_goals
      simp only [Token.text, List.cons_append, List.nil_append, nextToken, Char.reduceEq,
        Bool.false_eq_true, if_true, if_false, List.cons_prefix_cons, true_and, or_true, or_false,
        List.nil_prefix] at h
      cases h
      decide
  | utcOffset withColon =>
    cases withColon
    all_goals
      simp only [Token.text, List.cons_append, List.nil_append, nextToken, Char.reduceEq,
        Bool.false_eq_true, if_true, if_false, List.cons_prefix_cons, true_and, or_false,
        List.nil_prefix] at h
      (try split_ifs at h) <;> cases h <;> decide
  | _ =>
    simp only [Token.text, List.cons_append, List.nil_append, nextToken, Char.reduceEq, if_true,
      if_false, List.cons_prefix_cons, true_and, or_false, List.nil_prefix] at h
    (try split_ifs at h) <;> cases h <;> decide

theorem Splits.longestSplit {ts : List Token} (h : Splits cs ts) : LongestSplit cs ts := by
  induction h with
  | nil => exact .nil
  | cons ht _ ih =>
    refine .cons ⟨nextToken_documented ht, (nextToken_text ht).1, ?_⟩ ih
    exact fun u _ hu => nextToken_length_le ht hu

theorem LongestSplit.unique {ts us : List Token} (h : LongestSplit cs ts)
    (h' : LongestSplit cs us) : ts = us := by
  have hnil (v : Token) : ¬ Longest [] v := fun hv => by
    have hnext := nextToken_text_self hv.documented
    rw [List.prefix_nil.mp hv.isPrefix] at hnext
    cases hnext
  induction h generalizing us with
  | nil =>
    cases h' with
    | nil => rfl
    | cons hu _ => exact absurd hu (hnil _)
  | cons ht _ ih =>
    cases h' with
    | nil => exact absurd ht (hnil _)
    | cons hu hus =>
      obtain rfl := ht.unique hu
      rw [ih hus]

end Longest

/-! ### The compiler -/

theorem compileFormat_of_splits {format : List Char} {ts : List Token} (h : Splits format ts)
    (hne : format ≠ []) : (compileFormat format).valid = true := by
  have hempty : ¬ format.isEmpty = true := fun he => hne (List.isEmpty_iff.mp he)
  rw [compileFormat, if_neg hempty]
  rcases compileLoop_spec format {} (Nat.le_add_left _ 0) with ⟨us, -, hloop⟩ | ⟨hnone, -⟩
  · rw [hloop]
    rfl
  · exact absurd h (hnone ts)

theorem steps_of_invalid {format : List Char} (h : (compileFormat format).valid = false) :
    (compileFormat format).steps = [] := by
  unfold compileFormat at h ⊢
  split
  · rfl
  · rename_i hne
    rw [if_neg hne] at h
    rcases compileLoop_spec format {} (Nat.le_add_left _ 0) with ⟨us, -, hloop⟩ | ⟨-, herror⟩
    · rw [hloop] at h
      cases h
    · obtain ⟨i, message, hloop⟩ := herror
      rw [hloop]
      rfl

theorem not_valid_nil : ¬ (compileFormat []).valid = true := Bool.false_ne_true

theorem valid_iff_allRuns (format : List Char) :
    (compileFormat format).valid = true ↔ format ≠ [] ∧ AllRuns RunAllowed format := by
  rw [← splittable_iff_allRuns]
  constructor
  · intro h
    obtain ⟨ts, hts, -⟩ := compileFormat_valid h
    refine ⟨fun hnil => ?_, ts, hts⟩
    rw [hnil] at h
    exact not_valid_nil h
  · rintro ⟨hne, ts, hts⟩
    exact compileFormat_of_splits hts hne

/-- The formats that are accepted, and the parser of an accepted and of a rejected format. -/
theorem compileFormat_grammar (format : List Char) :
    ((compileFormat format).valid = true ↔ format ≠ [] ∧ AllRuns RunAllowed format) ∧
      ((compileFormat format).valid = true →
        ∃ ts, LongestSplit format ts ∧ (∀ us, LongestSplit format us → us = ts) ∧
          ts.flatMap Token.text = format ∧
          (compileFormat format).steps = ts.map Token.step ++ dateCheck ts) ∧
      ((compileFormat format).valid = false →
        (compileFormat format).steps = [] ∧ (compileFormat format).error ≠ []) := by
  refine ⟨valid_iff_allRuns format, fun h => ?_, fun h => ⟨steps_of_invalid h, fun herror => ?_⟩⟩
  · obtain ⟨ts, hts, hsteps⟩ := compileFormat_valid h
    refine ⟨ts, hts.longestSplit, ?_, hts.flatMap_text, hsteps⟩
    exact fun us hus => hus.unique hts.longestSplit
  · rw [CompiledDateAndTimeParser.valid, herror] at h
    cases h

end Eestv
