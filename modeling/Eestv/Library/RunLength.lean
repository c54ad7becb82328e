import Mathlib.Data.List.Basic

/-! The maximal runs of equal elements in a list: what holds of a list that is made up of its
runs, and of every run of it, by induction on the first run. -/

namespace RunLength

variable {α : Type*} {a b : α} {m n : ℕ} {xs before after rest : List α}

structure MaximalRun (xs before : List α) (a : α) (n : ℕ) (after : List α) : Prop where
  eq_append : xs = before ++ (List.replicate n a ++ after)
  pos : 0 < n
  last_ne : before.getLast? ≠ some a
  head_ne : after.head? ≠ some a

theorem exists_head_run (a : α) (xs : List α) :
    ∃ n after, a :: xs = List.replicate (n + 1) a ++ after ∧ after.head? ≠ some a := by
  induction xs with
  | nil => exact ⟨0, [], rfl, Option.some_ne_none a ∘ Eq.symm⟩
  | cons b xs ih =>
    by_cases hb : b = a
    · obtain ⟨n, after, heq, hhead⟩ := ih
      refine ⟨n + 1, after, ?_, hhead⟩
      rw [hb, heq, List.replicate_succ (n := n + 1), List.cons_append]
    · exact ⟨0, b :: xs, rfl, fun h => hb (Option.some.inj h)⟩

theorem replicate_append_inj (hm : after.head? ≠ some a) (hn : rest.head? ≠ some a)
    (h : List.replicate m a ++ after = List.replicate n a ++ rest) : m = n ∧ after = rest := by
  induction m generalizing n with
  | zero =>
    cases n with
    | zero => exact ⟨rfl, h⟩
    | succ n =>
      rw [List.replicate_zero, List.nil_append] at h
      exact absurd (congrArg List.head? h) hm
  | succ m ih =>
    cases n with
    | zero =>
      rw [List.replicate_zero, List.nil_append] at h
      exact absurd (congrArg List.head? h).symm hn
    | succ n =>
      obtain ⟨hmn, hafter⟩ := ih (List.cons.inj h).2
      exact ⟨congrArg (· + 1) hmn, hafter⟩

theorem getLast?_append_of_some (h : rest.getLast? = some b) :
    (xs ++ rest).getLast? = some b := by
  rw [List.getLast?_append, h, Option.some_or]

theorem MaximalRun.append_left (hn : 0 < n) (hrest : rest.head? ≠ some a)
    (hrun : MaximalRun rest before b m after) :
    MaximalRun (List.replicate n a ++ rest) (List.replicate n a ++ before) b m after := by
  refine ⟨by rw [List.append_assoc, ← hrun.eq_append], hrun.pos, ?_, hrun.head_ne⟩
  cases hlast : before.getLast? with
  | none =>
    -- the run begins where the first one ends, with another element
    obtain rfl : before = [] := List.getLast?_eq_none_iff.mp hlast
    obtain ⟨k, hk⟩ := Nat.exists_eq_add_one.mpr hn
    have hba : b ≠ a := by
      intro hba
      refine hrest ?_
      obtain ⟨j, hj⟩ := Nat.exists_eq_add_one.mpr hrun.pos
      rw [hrun.eq_append, hj, hba]
      rfl
    rw [List.append_nil, hk, List.getLast?_replicate, if_neg k.succ_ne_zero]
    exact fun h => hba (Option.some.inj h).symm
  | some c =>
    rw [getLast?_append_of_some hlast, ← hlast]
    exact hrun.last_ne

theorem MaximalRun.eq_first {c : α} {cs : List α} (hrest : rest.head? ≠ some a)
    (h : MaximalRun (List.replicate n a ++ rest) before b m after)
    (hcs : List.replicate n a = before ++ c :: cs)
    (hrun : List.replicate m b ++ after = c :: cs ++ rest) :
    before = [] ∧ b = a ∧ m = n ∧ after = rest := by
  have hall : ∀ d ∈ before ++ c :: cs, d = a := by
    rw [← hcs]
    exact fun d hd => List.eq_of_mem_replicate hd
  have hca : c = a := hall c (List.mem_append_right _ List.mem_cons_self)
  have hcb : c = b := by
    obtain ⟨k, rfl⟩ := Nat.exists_eq_add_one.mpr h.pos
    exact (List.cons.inj hrun).1.symm
  subst hca hcb
  have hnil : before = [] := by
    refine List.getLast?_eq_none_iff.mp (Option.eq_none_iff_forall_ne_some.mpr ?_)
    intro d hd
    refine h.last_ne (hd.trans (congrArg some ?_))
    exact hall d (List.mem_append_left _ (List.mem_of_getLast? hd))
  have heq := h.eq_append
  rw [hnil, List.nil_append] at heq
  obtain ⟨hnm, hafter⟩ := replicate_append_inj hrest h.head_ne heq
  exact ⟨hnil, rfl, hnm.symm, hafter.symm⟩

theorem maximalRun_append_iff (hn : 0 < n) (hrest : rest.head? ≠ some a) :
    MaximalRun (List.replicate n a ++ rest) before b m after ↔
      before = [] ∧ b = a ∧ m = n ∧ after = rest ∨
        ∃ before', before = List.replicate n a ++ before' ∧ MaximalRun rest before' b m after := by
  constructor
  · intro h
    rcases List.append_eq_append_iff.mp h.eq_append with ⟨cs, rfl, hcs⟩ | ⟨cs, hcs, hrun⟩
    · exact Or.inr ⟨cs, rfl, hcs, h.pos, fun hlast => h.last_ne (getLast?_append_of_some hlast),
        h.head_ne⟩
    · cases cs with
      | nil =>
        rw [List.append_nil] at hcs
        exact Or.inr ⟨[], by rw [hcs, List.append_nil], hrun.symm, h.pos,
          Option.some_ne_none b ∘ Eq.symm, h.head_ne⟩
      | cons c cs => exact Or.inl (h.eq_first hrest hcs hrun)
  · rintro (⟨rfl, rfl, rfl, rfl⟩ | ⟨before', rfl, hrun⟩)
    · exact ⟨rfl, hn, Option.some_ne_none _ ∘ Eq.symm, hrest⟩
    · exact hrun.append_left hn hrest

/-- Every list is made up of its runs. -/
theorem runInduction {motive : List α → Prop} (nil : motive [])
    (run : ∀ (n : ℕ) (a : α) (rest : List α), 0 < n → rest.head? ≠ some a → motive rest →
      motive (List.replicate n a ++ rest)) (xs : List α) : motive xs := by
  induction hlen : xs.length using Nat.strongRecOn generalizing xs with
  | _ k ih =>
    cases xs with
    | nil => exact nil
    | cons a xs =>
      obtain ⟨n, rest, heq, hrest⟩ := exists_head_run a xs
      rw [heq] at hlen ⊢
      refine run (n + 1) a rest n.succ_pos hrest (ih rest.length ?_ rest rfl)
      rw [← hlen, List.length_append, List.length_replicate]
      omega

/-- The property holds of every maximal run, given the element, the length, and what follows. -/
def AllRuns (p : α → ℕ → List α → Prop) (xs : List α) : Prop :=
  ∀ before a n after, MaximalRun xs before a n after → p a n after

variable {p : α → ℕ → List α → Prop}

theorem allRuns_nil : AllRuns p ([] : List α) := by
  intro before a n after h
  have hlen := congrArg List.length h.eq_append
  have hpos := h.pos
  rw [List.length_append, List.length_append, List.length_replicate, List.length_nil] at hlen
  omega

theorem allRuns_append_iff (hn : 0 < n) (hrest : rest.head? ≠ some a) :
    AllRuns p (List.replicate n a ++ rest) ↔ p a n rest ∧ AllRuns p rest := by
  constructor
  · intro h
    refine ⟨h [] a n rest ((maximalRun_append_iff hn hrest).mpr (Or.inl ⟨rfl, rfl, rfl, rfl⟩)), ?_⟩
    intro before b m after hrun
    exact h _ b m after ((maximalRun_append_iff hn hrest).mpr (Or.inr ⟨before, rfl, hrun⟩))
  · rintro ⟨hhead, htail⟩ before b m after hrun
    rcases (maximalRun_append_iff hn hrest).mp hrun with ⟨-, rfl, rfl, rfl⟩ | ⟨before', -, hrun'⟩
    · exact hhead
    · exact htail before' b m after hrun'

/-- A property of lists that asks `p` of the first run and itself of the rest asks `p` of
every run. -/
theorem iff_allRuns {q : List α → Prop} (hnil : q [])
    (hrun : ∀ n a rest, 0 < n → rest.head? ≠ some a →
      (q (List.replicate n a ++ rest) ↔ p a n rest ∧ q rest)) (xs : List α) :
    q xs ↔ AllRuns p xs := by
  induction xs using runInduction with
  | nil => exact iff_of_true hnil allRuns_nil
  | run n a rest hn hrest ih => rw [hrun n a rest hn hrest, allRuns_append_iff hn hrest, ih]

end RunLength
