import Eestv.Library.Decimal
import Mathlib.Algebra.Ring.Int.Defs

/-! Searching and cutting a `std::string`, and the conversions between numbers and
decimal text of the standard library. -/

namespace StdString
open Decimal

def find (cs : List Char) (c : Char) (pos : ℕ) : Option ℕ :=
  ((cs.drop pos).findIdx? (· == c)).map fun i : ℕ => pos + i

def substr (cs : List Char) (pos count : ℕ) : List Char := (cs.drop pos).take count

def toStdString (n : ℕ) : List Char := Nat.toDigits 10 n

def toStdStringInt (n : ℤ) : List Char :=
  if n < 0 then '-' :: toStdString n.natAbs else toStdString n.natAbs

def isSpace (c : Char) : Bool := c == ' ' || (9 ≤ c.toNat && c.toNat ≤ 13)

def readSign : List Char → Bool × List Char
  | '-' :: cs => (true, cs)
  | '+' :: cs => (false, cs)
  | cs => (false, cs)

/-- What `strtol` and `strtoull` read in base ten: blanks, a sign, and the longest
run of digits, which must not be empty. What follows the digits is not looked at. -/
def scanNumber (cs : List Char) : Option (Bool × ℕ) :=
  let signed := readSign (cs.dropWhile isSpace)
  let digits := signed.2.takeWhile Char.isDigit
  if digits = [] then none else some (signed.1, value digits)

def signed (r : Bool × ℕ) : ℤ := if r.1 then -(r.2 : ℤ) else r.2

/-- `std::stoi`, nothing where it throws. -/
def stoi (cs : List Char) : Option ℤ :=
  ((scanNumber cs).map signed).filter fun n : ℤ => -2 ^ 31 ≤ n ∧ n < 2 ^ 31

/-- `std::stoull`, nothing where it throws. The value of a negative number is taken
modulo `2 ^ 64`, as `strtoull` does. -/
def stoull (cs : List Char) : Option UInt64 :=
  ((scanNumber cs).filter fun r : Bool × ℕ => r.2 < 2 ^ 64).map fun r : Bool × ℕ =>
    if r.1 then -UInt64.ofNat r.2 else UInt64.ofNat r.2

variable {c : Char} {cs before field rest : List Char} {pos count : ℕ}

theorem findIdx?_of_notMem (h : c ∉ field) :
    (field ++ c :: rest).findIdx? (· == c) = some field.length := by
  induction field with
  | nil => rw [List.nil_append, List.findIdx?_cons, beq_self_eq_true, if_pos rfl]; rfl
  | cons d field ih =>
    have hd : (d == c) = false := beq_false_of_ne fun hdc => h (hdc ▸ List.mem_cons_self)
    rw [List.cons_append, List.findIdx?_cons, hd, if_neg Bool.false_ne_true,
      ih fun hc => h (List.mem_cons_of_mem _ hc)]
    rfl

theorem find_of_notMem (hcs : cs = before ++ (field ++ c :: rest)) (hpos : pos = before.length)
    (h : c ∉ field) : find cs c pos = some (pos + field.length) := by
  subst hcs hpos
  rw [find, List.drop_left, findIdx?_of_notMem h, Option.map_some]

theorem notMem_substr_of_find {stop : ℕ} (h : find cs c pos = some stop) :
    c ∉ substr cs pos (stop - pos) := by
  obtain ⟨i, hfind, rfl⟩ := Option.map_eq_some_iff.mp h
  obtain ⟨hi, -, hbefore⟩ := List.findIdx?_eq_some_iff_getElem.mp hfind
  rw [Nat.add_sub_cancel_left, substr]
  intro hmem
  obtain ⟨j, hj, hc⟩ := List.mem_iff_getElem.mp hmem
  rw [List.getElem_take] at hc
  apply hbefore j (Nat.lt_min.mp (List.length_take ▸ hj)).1
  rw [hc, beq_self_eq_true]

theorem drop_of_find {stop : ℕ} (h : find cs c pos = some stop) :
    ∃ field, c ∉ field ∧ cs.drop pos = field ++ c :: cs.drop (stop + 1) := by
  have hfield := notMem_substr_of_find h
  obtain ⟨i, hfind, rfl⟩ := Option.map_eq_some_iff.mp h
  obtain ⟨hi, hc, -⟩ := List.findIdx?_eq_some_iff_getElem.mp hfind
  rw [Nat.add_sub_cancel_left] at hfield
  refine ⟨substr cs pos i, hfield, ?_⟩
  have hdrop : (cs.drop pos).drop i = c :: cs.drop (pos + i + 1) := by
    rw [List.drop_eq_getElem_cons hi, eq_of_beq hc, List.drop_drop, ← Nat.add_assoc]
  rw [substr, ← hdrop, List.take_append_drop]

theorem substr_eq_field (hcs : cs = before ++ (field ++ rest)) (hpos : pos = before.length)
    (hcount : count = field.length) : substr cs pos count = field := by
  subst hcs hpos hcount
  rw [substr, List.drop_left, List.take_left]

theorem toStdString_digits (n : ℕ) : Digits (toStdString n) := fun _ hc =>
  Nat.isDigit_of_mem_toDigits (by decide) (by decide) hc

theorem toStdString_ne_nil (n : ℕ) : toStdString n ≠ [] := Nat.toDigits_ne_nil

theorem value_toStdString (n : ℕ) : value (toStdString n) = n := Nat.ofDigitChars_ten_toDigits

theorem toStdString_injective : Function.Injective toStdString := fun m n h => by
  rw [← value_toStdString m, h, value_toStdString]

theorem ne_of_isDigit {d : Char} (hd : d.isDigit = true) (hc : c.isDigit = false) : d ≠ c :=
  fun h => absurd (h ▸ hd) (by rw [hc]; decide)

theorem notMem_toStdString (n : ℕ) (hc : c.isDigit = false) : c ∉ toStdString n := fun h =>
  ne_of_isDigit (toStdString_digits n c h) hc rfl

theorem isSpace_of_isDigit {d : Char} (hd : d.isDigit = true) : isSpace d = false := by
  obtain ⟨hle, -⟩ := Char.isDigit_iff_toNat.mp hd
  have hzero : '0'.toNat = 48 := rfl
  have hspace : (d == ' ') = false := beq_false_of_ne (ne_of_isDigit hd rfl)
  have hcontrol : decide (d.toNat ≤ 13) = false := decide_eq_false (by omega)
  rw [isSpace, hspace, hcontrol, Bool.and_false, Bool.or_false]

theorem readSign_of_isDigit {d : Char} {ds : List Char} (hd : d.isDigit = true) :
    readSign (d :: ds) = (false, d :: ds) := by
  unfold readSign
  split
  · next h => exact absurd (List.cons.inj h).1 (ne_of_isDigit hd rfl)
  · next h => exact absurd (List.cons.inj h).1 (ne_of_isDigit hd rfl)
  · rfl

theorem scanNumber_digits {ds : List Char} (hds : Digits ds) (hne : ds ≠ []) :
    scanNumber ds = some (false, value ds) := by
  obtain ⟨d, ds, rfl⟩ := List.exists_cons_of_ne_nil hne
  have hd := hds d List.mem_cons_self
  have htake : (d :: ds).takeWhile Char.isDigit = d :: ds := by
    simpa only [List.append_nil] using @takeWhile_isDigit _ [] hds nofun
  have hdrop : (d :: ds).dropWhile isSpace = d :: ds :=
    List.dropWhile_cons_of_neg (by rw [isSpace_of_isDigit hd]; decide)
  rw [scanNumber, hdrop, readSign_of_isDigit hd, htake, if_neg hne]

theorem scanNumber_toStdString (n : ℕ) : scanNumber (toStdString n) = some (false, n) := by
  rw [scanNumber_digits (toStdString_digits n) (toStdString_ne_nil n), value_toStdString]

theorem stoi_toStdString {n : ℕ} (h : n < 2 ^ 31) : stoi (toStdString n) = some (n : ℤ) := by
  have hlow : -2 ^ 31 ≤ (n : ℤ) := Int.le_trans (by decide) (Int.natCast_nonneg n)
  rw [stoi, scanNumber_toStdString]
  exact Option.filter_some_pos (decide_eq_true ⟨hlow, Int.ofNat_lt.mpr h⟩)

theorem stoull_toStdString {n : ℕ} (h : n < 2 ^ 64) :
    stoull (toStdString n) = some (UInt64.ofNat n) := by
  have hfits : (some (false, n)).filter (fun r : Bool × ℕ => r.2 < 2 ^ 64) = some (false, n) :=
    Option.filter_some_pos (decide_eq_true h)
  rw [stoull, scanNumber_toStdString, hfits]
  rfl

theorem append_cons_inj {field' rest' : List Char} (h : c ∉ field) (h' : c ∉ field')
    (heq : field ++ c :: rest = field' ++ c :: rest') : field = field' ∧ rest = rest' := by
  have hlen : field.length = field'.length := by
    have hfind := @findIdx?_of_notMem c field rest h
    rw [heq, findIdx?_of_notMem h'] at hfind
    exact (Option.some.inj hfind).symm
  obtain ⟨hfield, hrest⟩ := List.append_inj heq hlen
  exact ⟨hfield, (List.cons.inj hrest).2⟩

/-! ### What the conversions take for a number -/

/-- A text as `strtol` divides it: blanks, a sign or none, digits, and the rest. -/
structure Numeral where
  blanks : List Char
  sign : List Char
  digits : List Char
  rest : List Char
  isSpace_blanks : ∀ d ∈ blanks, isSpace d = true
  sign_mem : sign ∈ [[], ['+'], ['-']]
  digits_ne_nil : digits ≠ []
  digits_digits : Digits digits
  rest_head : ∀ d ∈ rest.head?, d.isDigit = false

namespace Numeral

def text (m : Numeral) : List Char := m.blanks ++ (m.sign ++ (m.digits ++ m.rest))

def number (m : Numeral) : ℤ := signed (m.sign = ['-'], value m.digits)

def Plain (m : Numeral) : Prop := m.blanks = [] ∧ m.sign = [] ∧ m.rest = []

end Numeral

theorem readSign_append {sign ds : List Char} (hsign : sign ∈ [[], ['+'], ['-']])
    (hds : ∀ d ∈ ds.head?, d.isDigit = true) :
    readSign (sign ++ ds) = (decide (sign = ['-']), ds) := by
  simp only [List.mem_cons, List.not_mem_nil, or_false] at hsign
  rcases hsign with rfl | rfl | rfl
  · cases ds with
    | nil => rfl
    | cons d ds => exact readSign_of_isDigit (hds d rfl)
  · rfl
  · rfl

theorem scanNumber_text (m : Numeral) :
    scanNumber m.text = some (decide (m.sign = ['-']), value m.digits) := by
  have hhead : ∀ d ∈ (m.digits ++ m.rest).head?, d.isDigit = true := by
    obtain ⟨d, ds, hds⟩ := List.exists_cons_of_ne_nil m.digits_ne_nil
    intro e he
    rw [hds, List.cons_append, List.head?_cons, Option.mem_some_iff] at he
    exact m.digits_digits e (by rw [hds, ← he]; exact List.mem_cons_self)
  have hblanks : m.text.dropWhile isSpace = m.sign ++ (m.digits ++ m.rest) := by
    rw [Numeral.text, List.dropWhile_append_of_pos m.isSpace_blanks]
    -- neither a sign nor a digit is a blank
    have hsign := m.sign_mem
    simp only [List.mem_cons, List.not_mem_nil, or_false] at hsign
    rcases hsign with hs | hs | hs
    · rw [hs, List.nil_append]
      cases hds : m.digits ++ m.rest with
      | nil => rfl
      | cons d ds =>
        rw [hds] at hhead
        refine List.dropWhile_cons_of_neg ?_
        rw [isSpace_of_isDigit (hhead d rfl)]
        exact Bool.false_ne_true
    · rw [hs]
      exact List.dropWhile_cons_of_neg (by decide)
    · rw [hs]
      exact List.dropWhile_cons_of_neg (by decide)
  rw [scanNumber, hblanks, readSign_append m.sign_mem hhead,
    takeWhile_isDigit m.digits_digits m.rest_head, if_neg m.digits_ne_nil]

theorem exists_numeral {r : Bool × ℕ} (h : scanNumber cs = some r) :
    ∃ m : Numeral, m.text = cs := by
  unfold scanNumber at h
  dsimp only at h
  split at h
  · cases h
  · rename_i hne
    obtain ⟨sign, hmem, happend⟩ : ∃ sign ∈ [[], ['+'], ['-']],
        sign ++ (readSign (cs.dropWhile isSpace)).2 = cs.dropWhile isSpace := by
      unfold readSign
      split
      · next hcs => exact ⟨['-'], by decide, hcs.symm⟩
      · next hcs => exact ⟨['+'], by decide, hcs.symm⟩
      · exact ⟨[], by decide, rfl⟩
    generalize (readSign (cs.dropWhile isSpace)).2 = tail at hne happend
    refine ⟨⟨cs.takeWhile isSpace, sign, tail.takeWhile Char.isDigit,
      tail.dropWhile Char.isDigit, List.all_eq_true.mp List.all_takeWhile, hmem, hne,
      List.all_eq_true.mp List.all_takeWhile, ?_⟩, ?_⟩
    · intro d hd
      have hnot := List.head?_dropWhile_not Char.isDigit tail
      rw [Option.mem_def.mp hd] at hnot
      simpa using hnot
    · rw [Numeral.text, List.takeWhile_append_dropWhile, happend,
        List.takeWhile_append_dropWhile]

theorem stoi_text {m : Numeral} (hlow : -2 ^ 31 ≤ m.number) (hhigh : m.number < 2 ^ 31) :
    stoi m.text = some m.number := by
  rw [stoi, scanNumber_text]
  exact Option.filter_some_pos (decide_eq_true ⟨hlow, hhigh⟩)

theorem stoull_text {m : Numeral} (h : value m.digits < 2 ^ 64) :
    stoull m.text = some (if m.sign = ['-'] then -UInt64.ofNat (value m.digits)
      else UInt64.ofNat (value m.digits)) := by
  have hfits : (some (decide (m.sign = ['-']), value m.digits)).filter
      (fun r : Bool × ℕ => r.2 < 2 ^ 64) = some (decide (m.sign = ['-']), value m.digits) :=
    Option.filter_some_pos (decide_eq_true h)
  rw [stoull, scanNumber_text, hfits, Option.map_some]
  simp only [decide_eq_true_eq]

theorem numeral_of_stoi {n : ℤ} (h : stoi cs = some n) :
    ∃ m : Numeral, m.text = cs ∧ m.number = n ∧ -2 ^ 31 ≤ n ∧ n < 2 ^ 31 := by
  obtain ⟨hmap, hrange⟩ := Option.filter_eq_some_iff.mp h
  obtain ⟨r, hr, hn⟩ := Option.map_eq_some_iff.mp hmap
  obtain ⟨m, rfl⟩ := exists_numeral hr
  rw [scanNumber_text] at hr
  refine ⟨m, rfl, ?_, of_decide_eq_true hrange⟩
  rw [← hn, ← Option.some.inj hr]
  rfl

theorem numeral_of_stoull {v : UInt64} (h : stoull cs = some v) :
    ∃ m : Numeral, m.text = cs ∧ value m.digits < 2 ^ 64 ∧
      v = if m.sign = ['-'] then -UInt64.ofNat (value m.digits)
        else UInt64.ofNat (value m.digits) := by
  obtain ⟨r, hr, -⟩ := Option.map_eq_some_iff.mp h
  obtain ⟨hscan, hrange⟩ := Option.filter_eq_some_iff.mp hr
  obtain ⟨m, rfl⟩ := exists_numeral hscan
  rw [scanNumber_text] at hscan
  have hlt : value m.digits < 2 ^ 64 := by
    rw [← Option.some.inj hscan] at hrange
    exact of_decide_eq_true hrange
  rw [stoull_text hlt] at h
  exact ⟨m, rfl, hlt, (Option.some.inj h).symm⟩

namespace Numeral

theorem plain_of_digits {m : Numeral} (h : Digits m.text) : m.Plain := by
  have hmem (d : Char) (hd : d ∈ m.blanks ∨ d ∈ m.sign ∨ d ∈ m.digits ∨ d ∈ m.rest) :
      d.isDigit = true := h d (by simpa only [text, List.mem_append] using hd)
  refine ⟨?_, ?_, ?_⟩
  · refine List.eq_nil_iff_forall_not_mem.mpr fun d hd => ?_
    have hspace := isSpace_of_isDigit (hmem d (Or.inl hd))
    rw [m.isSpace_blanks d hd] at hspace
    cases hspace
  · have hsign := m.sign_mem
    simp only [List.mem_cons, List.not_mem_nil, or_false] at hsign
    rcases hsign with hs | hs | hs
    · exact hs
    · exact absurd (hmem '+' (by rw [hs]; exact Or.inr (Or.inl List.mem_cons_self))) (by decide)
    · exact absurd (hmem '-' (by rw [hs]; exact Or.inr (Or.inl List.mem_cons_self))) (by decide)
  · cases hrest : m.rest with
    | nil => rfl
    | cons d ds =>
      have hfalse := m.rest_head d (by rw [hrest]; rfl)
      rw [hmem d (by rw [hrest]; exact Or.inr (Or.inr (Or.inr List.mem_cons_self)))] at hfalse
      cases hfalse

theorem Plain.text_eq {m : Numeral} (h : m.Plain) : m.text = m.digits := by
  obtain ⟨hblanks, hsign, hrest⟩ := h
  rw [text, hblanks, hsign, hrest, List.nil_append, List.nil_append, List.append_nil]

theorem Plain.number_eq {m : Numeral} (h : m.Plain) : m.number = value m.digits := by
  rw [number, h.2.1]
  rfl

end Numeral

end StdString
