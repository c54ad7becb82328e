import Eestv.Timestamp.StringView

/-! The candidate start offsets of a timestamp in a line. Both scanning loops of the source
carry whether the last character was a blank; what they find are the positions of the
characters behind a blank that are none themselves, in order. -/

namespace Eestv

def isBlank (c : Char) : Bool := c == ' ' || c == '\t'

def maxInt : ℤ := 2 ^ 31 - 1

def startIndicesLoop (toParse : StringView) (maxIndices : ℤ) :
    ℕ → ℕ → Bool → ℤ → List ℕ → List ℕ
  | 0, _, _, _, indices => indices
  | fuel + 1, index, inWhitespace, nrOfIndices, indices =>
    if index < toParse.size then
      let isWhitespace := isBlank (toParse.data index)
      if !inWhitespace && isWhitespace then
        startIndicesLoop toParse maxIndices fuel (index + 1) true nrOfIndices indices
      else if inWhitespace && !isWhitespace then
        if nrOfIndices + 1 = maxIndices then indices ++ [index]
        else
          startIndicesLoop toParse maxIndices fuel (index + 1) false (nrOfIndices + 1)
            (indices ++ [index])
      else startIndicesLoop toParse maxIndices fuel (index + 1) inWhitespace nrOfIndices indices
    else indices

/-- `possible_parse_start_indices` with a cap. -/
def possibleParseStartIndicesUpTo (toParse : StringView) (maxIndices : ℤ) : List ℕ :=
  if maxIndices ≤ 1 then [0]
  else startIndicesLoop toParse maxIndices toParse.size 0 false 1 [0]

def possibleParseStartIndices (toParse : StringView) : List ℕ :=
  possibleParseStartIndicesUpTo toParse maxInt

def nthStartLoop (toParse : StringView) (n : ℤ) : ℕ → ℕ → Bool → ℤ → ℤ
  | 0, _, _, _ => -1
  | fuel + 1, index, inWhitespace, foundIndices =>
    if index < toParse.size then
      let isWhitespace := isBlank (toParse.data index)
      if !inWhitespace && isWhitespace then
        nthStartLoop toParse n fuel (index + 1) true foundIndices
      else if inWhitespace && !isWhitespace then
        if foundIndices + 1 = n then index
        else nthStartLoop toParse n fuel (index + 1) false (foundIndices + 1)
      else nthStartLoop toParse n fuel (index + 1) inWhitespace foundIndices
    else -1

def nthParseStartIndex (toParse : StringView) (n : ℤ) : ℤ :=
  if n < 0 then -1
  else if n = 0 then 0
  else nthStartLoop toParse n toParse.size 0 false 0

/-! ### The positions behind blanks -/

variable {text : StringView} {index fuel : ℕ}

def afterBlank (text : StringView) (i : ℕ) : Bool :=
  0 < i && isBlank (text.data ((i : ℤ) - 1))

def wordStarts (text : StringView) (i : ℕ) : List ℕ :=
  (List.range' i (text.size - i)).filter fun k => afterBlank text k && !isBlank (text.data k)

theorem afterBlank_succ (text : StringView) (i : ℕ) :
    afterBlank text (i + 1) = isBlank (text.data i) := by
  have hprev : ((i + 1 : ℕ) : ℤ) - 1 = i := by omega
  rw [afterBlank, hprev, decide_eq_true (Nat.succ_pos i), Bool.true_and]

theorem wordStarts_of_lt (h : index < text.size) :
    wordStarts text index =
      if afterBlank text index && !isBlank (text.data index) then
        index :: wordStarts text (index + 1)
      else wordStarts text (index + 1) := by
  have hrange : List.range' index (text.size - index) =
      index :: List.range' (index + 1) (text.size - (index + 1)) := by
    rw [show text.size - index = text.size - (index + 1) + 1 by omega, List.range'_succ]
  rw [wordStarts, hrange, List.filter_cons]
  rfl

theorem wordStarts_of_le (h : text.size ≤ index) : wordStarts text index = [] := by
  rw [wordStarts, Nat.sub_eq_zero_of_le h]
  rfl

theorem mem_wordStarts_zero {i : ℕ} :
    i ∈ wordStarts text 0 ↔ 0 < i ∧ i < text.size ∧ isBlank (text.data i) = false ∧
      isBlank (text.data ((i : ℤ) - 1)) = true := by
  rw [wordStarts, List.mem_filter, List.mem_range'_1, afterBlank]
  simp only [Bool.and_eq_true, decide_eq_true_eq, Bool.not_eq_true']
  constructor
  · rintro ⟨⟨-, hlt⟩, ⟨hpos, hblank⟩, hword⟩
    exact ⟨hpos, by omega, hword, hblank⟩
  · rintro ⟨hpos, hlt, hword, hblank⟩
    exact ⟨⟨Nat.zero_le i, by omega⟩, ⟨hpos, hblank⟩, hword⟩

theorem pairwise_wordStarts (text : StringView) :
    (0 :: wordStarts text 0).Pairwise (· < ·) := by
  refine List.pairwise_cons.mpr ⟨fun i hi => (mem_wordStarts_zero.mp hi).1, ?_⟩
  exact List.Pairwise.filter _ List.pairwise_lt_range'

theorem length_wordStarts_le (text : StringView) : (wordStarts text 0).length ≤ text.size - 1 := by
  rcases Nat.eq_zero_or_pos text.size with hzero | hpos
  · rw [wordStarts_of_le (Nat.le_of_eq hzero)]
    exact Nat.zero_le _
  · rw [wordStarts_of_lt hpos, if_neg (by simp [afterBlank])]
    refine Nat.le_trans (List.length_filter_le _ _) ?_
    rw [List.length_range', Nat.zero_add]

/-! ### The loops -/

theorem blank_cases (hws : Bool) (c : Char) :
    (!hws && isBlank c) = true ∧ (hws && !isBlank c) = false ∧ isBlank c = true ∨
      (!hws && isBlank c) = false ∧ (hws && !isBlank c) = true ∧ isBlank c = false ∨
      (!hws && isBlank c) = false ∧ (hws && !isBlank c) = false ∧ isBlank c = hws := by
  cases hws <;> cases isBlank c <;> simp

theorem startIndicesLoop_eq (text : StringView) {maxIndices : ℤ} {nr : ℤ} {indices : List ℕ}
    (hfuel : text.size ≤ index + fuel) (hnr : nr < maxIndices) :
    startIndicesLoop text maxIndices fuel index (afterBlank text index) nr indices =
      indices ++ (wordStarts text index).take (maxIndices - nr).toNat := by
  induction fuel generalizing index nr indices with
  | zero =>
    rw [wordStarts_of_le (by exact hfuel), List.take_nil, List.append_nil]
    rfl
  | succ fuel ih =>
    rw [startIndicesLoop]
    rcases Nat.lt_or_ge index text.size with hlt | hge
    · have hfuel' : text.size ≤ index + 1 + fuel := by omega
      rw [if_pos hlt, wordStarts_of_lt hlt]
      dsimp only
      rcases blank_cases (afterBlank text index) (text.data index) with
        ⟨hblank, hword, hstate⟩ | ⟨hblank, hword, hstate⟩ | ⟨hblank, hword, hstate⟩
      · rw [if_pos hblank, if_neg (by rw [hword]; decide), ← hstate, ← afterBlank_succ]
        exact ih hfuel' hnr
      · have htake : (maxIndices - nr).toNat = (maxIndices - (nr + 1)).toNat + 1 := by omega
        rw [if_neg (by rw [hblank]; decide), if_pos hword, if_pos hword, htake, List.take_succ_cons]
        by_cases hlast : nr + 1 = maxIndices
        · rw [if_pos hlast, hlast, Int.sub_self]
          rfl
        · rw [if_neg hlast, ← hstate, ← afterBlank_succ, ih hfuel' (by omega), List.append_assoc]
          rfl
      · rw [if_neg (by rw [hblank]; decide), if_neg (by rw [hword]; decide),
          if_neg (by rw [hword]; decide), ← hstate, ← afterBlank_succ]
        exact ih hfuel' hnr
    · rw [if_neg (Nat.not_lt.mpr hge), wordStarts_of_le hge, List.take_nil, List.append_nil]

theorem nthStartLoop_eq (text : StringView) {n found : ℤ} (hfuel : text.size ≤ index + fuel)
    (hfound : found < n) :
    nthStartLoop text n fuel index (afterBlank text index) found =
      ((wordStarts text index)[(n - found - 1).toNat]?.map fun i : ℕ => (i : ℤ)).getD (-1) := by
  induction fuel generalizing index found with
  | zero =>
    rw [wordStarts_of_le (by exact hfuel)]
    rfl
  | succ fuel ih =>
    rw [nthStartLoop]
    rcases Nat.lt_or_ge index text.size with hlt | hge
    · have hfuel' : text.size ≤ index + 1 + fuel := by omega
      rw [if_pos hlt, wordStarts_of_lt hlt]
      dsimp only
      rcases blank_cases (afterBlank text index) (text.data index) with
        ⟨hblank, hword, hstate⟩ | ⟨hblank, hword, hstate⟩ | ⟨hblank, hword, hstate⟩
      · rw [if_pos hblank, if_neg (by rw [hword]; decide), ← hstate, ← afterBlank_succ]
        exact ih hfuel' hfound
      · rw [if_neg (by rw [hblank]; decide), if_pos hword, if_pos hword]
        by_cases hlast : found + 1 = n
        · rw [if_pos hlast, show (n - found - 1).toNat = 0 by omega]
          rfl
        · have hindex : (n - found - 1).toNat = (n - (found + 1) - 1).toNat + 1 := by omega
          rw [if_neg hlast, ← hstate, ← afterBlank_succ, ih hfuel' (by omega), hindex,
            List.getElem?_cons_succ]
      · rw [if_neg (by rw [hblank]; decide), if_neg (by rw [hword]; decide),
          if_neg (by rw [hword]; decide), ← hstate, ← afterBlank_succ]
        exact ih hfuel' hfound
    · rw [if_neg (Nat.not_lt.mpr hge), wordStarts_of_le hge]
      rfl

theorem possibleParseStartIndicesUpTo_eq (text : StringView) (maxIndices : ℤ) :
    possibleParseStartIndicesUpTo text maxIndices =
      (0 :: wordStarts text 0).take (max maxIndices 1).toNat := by
  unfold possibleParseStartIndicesUpTo
  split
  · rename_i hle
    rw [show (max maxIndices 1).toNat = 0 + 1 by omega, List.take_succ_cons, List.take_zero]
  · rename_i hgt
    have hcount : (max maxIndices 1).toNat = (maxIndices - 1).toNat + 1 := by omega
    rw [hcount, List.take_succ_cons]
    exact startIndicesLoop_eq text (Nat.le_of_eq (Nat.zero_add _).symm) (Int.not_le.mp hgt)

theorem possibleParseStartIndices_eq (hsize : text.size < 2 ^ 31) :
    possibleParseStartIndices text = 0 :: wordStarts text 0 := by
  have hlen := length_wordStarts_le text
  have hmax : (max maxInt 1).toNat = 2 ^ 31 - 1 := by decide
  rw [possibleParseStartIndices, possibleParseStartIndicesUpTo_eq, hmax]
  refine List.take_of_length_le ?_
  rw [List.length_cons]
  omega

theorem nthParseStartIndex_eq (text : StringView) {n : ℤ} (hn : 0 ≤ n) :
    nthParseStartIndex text n =
      ((0 :: wordStarts text 0)[n.toNat]?.map fun i : ℕ => (i : ℤ)).getD (-1) := by
  rw [nthParseStartIndex, if_neg (Int.not_lt.mpr hn)]
  by_cases hzero : n = 0
  · rw [if_pos hzero, hzero]
    rfl
  · have hindex : n.toNat = (n - 0 - 1).toNat + 1 := by omega
    rw [if_neg hzero, hindex, List.getElem?_cons_succ]
    exact nthStartLoop_eq text (Nat.le_of_eq (Nat.zero_add _).symm) (by omega)

/-- The candidates are the front of the line and the words behind blanks, in order; with a cap
they are the first of them, and each is found by its number. -/
theorem startIndices_agree (text : StringView) (hsize : text.size < 2 ^ 31) :
    (∀ maxIndices : ℤ, possibleParseStartIndicesUpTo text maxIndices =
      (possibleParseStartIndices text).take
        (min (max maxIndices 1) (possibleParseStartIndices text).length).toNat) ∧
    (∀ n : ℤ, nthParseStartIndex text n =
      if 0 ≤ n ∧ n < (possibleParseStartIndices text).length then
        ((possibleParseStartIndices text).getD n.toNat 0 : ℤ) else -1) ∧
    (possibleParseStartIndices text).Pairwise (· < ·) ∧
    ∀ i, i ∈ possibleParseStartIndices text ↔
      i = 0 ∨ 0 < i ∧ i < text.size ∧ isBlank (text.data i) = false ∧
        isBlank (text.data ((i : ℤ) - 1)) = true := by
  rw [possibleParseStartIndices_eq hsize]
  refine ⟨fun maxIndices => ?_, fun n => ?_, pairwise_wordStarts text, fun i => ?_⟩
  · rw [possibleParseStartIndicesUpTo_eq, List.take_eq_take_iff]
    omega
  · by_cases hn : 0 ≤ n
    · rw [nthParseStartIndex_eq text hn]
      by_cases hlt : n.toNat < (0 :: wordStarts text 0).length
      · rw [if_pos ⟨hn, by omega⟩, List.getD_eq_getElem?_getD, List.getElem?_eq_getElem hlt]
        rfl
      · rw [if_neg (fun h => hlt (by omega)), List.getElem?_eq_none (Nat.not_lt.mp hlt)]
        rfl
    · rw [if_neg (fun h => hn h.1), nthParseStartIndex, if_pos (Int.not_le.mp hn)]
  · rw [List.mem_cons, mem_wordStarts_zero]

theorem startIndices_agree_line :
    nthParseStartIndex (StringView.ofList " a\t b".toList) 2 = 4 :=
  ((startIndices_agree (StringView.ofList " a\t b".toList) (by decide)).2.1 2).trans (by decide)

end Eestv
