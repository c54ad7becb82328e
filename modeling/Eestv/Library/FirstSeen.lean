import Mathlib.Data.List.Induction

/-! The elements of a list that are the first to carry their key: what a table
remembers that ignores an element whose key it holds already. -/

namespace FirstSeen

variable {α κ : Type*} (key : α → κ)

def Fresh (l : List α) (a : α) : Prop := ∀ b ∈ l, key b ≠ key a

def First (l : List α) (a : α) : Prop := ∃ xs ys, l = xs ++ a :: ys ∧ Fresh key xs a

instance [DecidableEq κ] (l : List α) (a : α) : Decidable (Fresh key l a) :=
  inferInstanceAs (Decidable (∀ b ∈ l, key b ≠ key a))

variable {key} {l : List α} {a b : α}

theorem First.mem (h : First key l a) : a ∈ l := by
  obtain ⟨xs, ys, rfl, -⟩ := h
  exact List.mem_append_right _ List.mem_cons_self

theorem not_first_nil : ¬First key [] a := fun h => List.not_mem_nil h.mem

theorem first_snoc : First key (l ++ [b]) a ↔ First key l a ∨ a = b ∧ Fresh key l b := by
  constructor
  · rintro ⟨xs, ys, hl, hfresh⟩
    rcases List.eq_nil_or_concat ys with rfl | ⟨ys, c, rfl⟩
    · obtain ⟨rfl, hb⟩ := List.append_inj' hl rfl
      obtain rfl : b = a := List.cons.inj hb |>.1
      exact Or.inr ⟨rfl, hfresh⟩
    · have hsplit : l ++ [b] = (xs ++ a :: ys) ++ [c] := by
        rw [hl, List.concat_eq_append, ← List.cons_append, List.append_assoc]
      exact Or.inl ⟨xs, ys, (List.append_inj' hsplit rfl).1, hfresh⟩
  · rintro (⟨xs, ys, rfl, hfresh⟩ | ⟨rfl, hfresh⟩)
    · exact ⟨xs, ys ++ [b], by rw [List.append_assoc]; rfl, hfresh⟩
    · exact ⟨l, [], rfl, hfresh⟩

theorem first_snoc_of_not_fresh (h : ¬Fresh key l b) :
    First key (l ++ [b]) a ↔ First key l a := by
  rw [first_snoc]
  exact or_iff_left fun hb => h hb.2

theorem not_fresh_iff_exists_mem : ¬Fresh key l a ↔ ∃ b ∈ l, key b = key a := by
  simp only [Fresh, ne_eq, not_forall, not_not, exists_prop]

theorem exists_first (h : a ∈ l) : ∃ b, First key l b ∧ key b = key a := by
  induction l using List.reverseRecOn generalizing a with
  | nil => exact absurd h List.not_mem_nil
  | append_singleton l c ih =>
    have hold : ∀ d ∈ l, ∃ b, First key (l ++ [c]) b ∧ key b = key d := fun d hd => by
      obtain ⟨b, hb, hkey⟩ := ih hd
      exact ⟨b, first_snoc.mpr (Or.inl hb), hkey⟩
    rcases List.mem_append.mp h with ha | ha
    · exact hold a ha
    · obtain rfl := List.mem_singleton.mp ha
      by_cases hfresh : Fresh key l a
      · exact ⟨a, first_snoc.mpr (Or.inr ⟨rfl, hfresh⟩), rfl⟩
      · obtain ⟨d, hd, hkey⟩ := not_fresh_iff_exists_mem.mp hfresh
        obtain ⟨b, hb, hbd⟩ := hold d hd
        exact ⟨b, hb, hbd.trans hkey⟩

theorem not_fresh_iff : ¬Fresh key l a ↔ ∃ b, First key l b ∧ key b = key a := by
  rw [not_fresh_iff_exists_mem]
  constructor
  · rintro ⟨d, hd, hkey⟩
    obtain ⟨b, hb, hbd⟩ := exists_first hd
    exact ⟨b, hb, hbd.trans hkey⟩
  · rintro ⟨b, hb, hkey⟩
    exact ⟨b, hb.mem, hkey⟩

end FirstSeen
