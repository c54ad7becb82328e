import Mathlib.Data.List.Basic
import Mathlib.Algebra.BigOperators.Group.List.Basic
import Mathlib.Algebra.Ring.Nat

/-! First-fit filling: weighted entries are offered in a fixed order and each
one that still fits into the room left is taken. A full room does not end the
filling, since a later, lighter entry may still fit. -/

namespace FirstFit

variable {α β : Type*} (w : α → ℕ)

def total (xs : List α) : ℕ := (xs.map w).sum

def fill : ℕ → List α → List α
  | _, [] => []
  | room, x :: xs => if w x ≤ room then x :: fill (room - w x) xs else fill room xs

/-- Whatever fits into `room` fits into the first `limit` of it. -/
def Within : ℕ → ℕ → List α → Prop
  | _, _, [] => True
  | limit, room, x :: xs =>
    if w x ≤ limit then Within (limit - w x) (room - w x) xs
    else room < w x ∧ Within limit room xs

/-- Behind the first entry that does not fit nothing fits any more. -/
def Stops : ℕ → List α → Prop
  | _, [] => True
  | room, x :: xs => if w x ≤ room then Stops (room - w x) xs else ∀ y ∈ xs, room < w y

@[simp] theorem total_cons (x : α) (xs : List α) : total w (x :: xs) = w x + total w xs := by
  simp only [total, List.map_cons, List.sum_cons]

@[simp] theorem total_append (xs ys : List α) : total w (xs ++ ys) = total w xs + total w ys := by
  simp only [total, List.map_append, List.sum_append]

theorem total_map (f : β → α) (xs : List β) : total w (xs.map f) = total (fun x => w (f x)) xs := by
  simp only [total, List.map_map, Function.comp_def]

theorem total_fill_le (room : ℕ) (xs : List α) : total w (fill w room xs) ≤ room := by
  induction xs generalizing room with
  | nil => exact Nat.zero_le room
  | cons x xs ih =>
    rw [fill]
    split
    · have h := ih (room - w x)
      rw [total_cons]
      omega
    · exact ih room

theorem fill_of_total_le {room : ℕ} {xs : List α} (h : total w xs ≤ room) :
    fill w room xs = xs := by
  induction xs generalizing room with
  | nil => rfl
  | cons x xs ih =>
    rw [total_cons] at h
    rw [fill, if_pos (by omega), ih (by omega)]

theorem total_fill_eq_iff {room : ℕ} {xs : List α} :
    total w (fill w room xs) = total w xs ↔ total w xs ≤ room :=
  ⟨fun h => h ▸ total_fill_le w room xs, fun h => by rw [fill_of_total_le w h]⟩

theorem fill_eq_nil {room : ℕ} {xs : List α} (h : ∀ x ∈ xs, room < w x) : fill w room xs = [] := by
  induction xs with
  | nil => rfl
  | cons x xs ih =>
    have hx := h x List.mem_cons_self
    rw [fill, if_neg (Nat.not_le.mpr hx)]
    exact ih fun y hy => h y (List.mem_cons_of_mem x hy)

theorem fill_ne_nil {room : ℕ} {xs : List α} (h : ∃ x ∈ xs, w x ≤ room) : fill w room xs ≠ [] := by
  induction xs with
  | nil => exact absurd h.choose_spec.1 List.not_mem_nil
  | cons x xs ih =>
    rw [fill]
    split
    · exact List.cons_ne_nil _ _
    · obtain ⟨y, hy, hle⟩ := h
      rcases List.mem_cons.mp hy with rfl | hy
      · contradiction
      · exact ih ⟨y, hy, hle⟩

theorem fill_sublist (room : ℕ) (xs : List α) : (fill w room xs).Sublist xs := by
  induction xs generalizing room with
  | nil => exact List.Sublist.refl []
  | cons x xs ih =>
    rw [fill]
    split
    · exact (ih (room - w x)).cons_cons x
    · exact (ih room).cons x

theorem total_fill_le_iff {limit room : ℕ} {xs : List α} (h : limit ≤ room) :
    total w (fill w room xs) ≤ limit ↔ Within w limit room xs := by
  induction xs generalizing limit room with
  | nil => exact iff_of_true (Nat.zero_le limit) trivial
  | cons x xs ih =>
    rw [fill, Within]
    by_cases hlimit : w x ≤ limit
    · have hrest := ih (Nat.sub_le_sub_right h (w x))
      rw [if_pos (hlimit.trans h), if_pos hlimit, total_cons, ← hrest]
      omega
    · rw [if_neg hlimit]
      by_cases hroom : w x ≤ room
      · rw [if_pos hroom, total_cons]
        omega
      · rw [if_neg hroom, ih h]
        exact ⟨fun hrest => ⟨Nat.lt_of_not_le hroom, hrest⟩, fun hboth => hboth.2⟩

theorem prefix_of_stops {room : ℕ} {xs : List α} (h : Stops w room xs) : fill w room xs <+: xs := by
  induction xs generalizing room with
  | nil => exact List.prefix_rfl
  | cons x xs ih =>
    rw [Stops] at h
    rw [fill]
    split at h
    · rw [if_pos ‹_›]
      exact (List.prefix_cons_inj x).mpr (ih h)
    · rw [if_neg ‹_›, fill_eq_nil w h]
      exact List.nil_prefix

theorem stops_map (f : β → α) (room : ℕ) (xs : List β) :
    Stops w room (xs.map f) ↔ Stops (fun x => w (f x)) room xs := by
  induction xs generalizing room with
  | nil => exact Iff.rfl
  | cons x xs ih =>
    rw [List.map_cons, Stops, Stops]
    split
    · exact ih (room - w (f x))
    · exact List.forall_mem_map

theorem fill_append (room : ℕ) (xs ys : List α) :
    fill w room (xs ++ ys) = fill w room xs ++ fill w (room - total w (fill w room xs)) ys := by
  induction xs generalizing room with
  | nil => rfl
  | cons x xs ih =>
    rw [List.cons_append, fill, fill]
    split
    · rw [ih, total_cons, List.cons_append, Nat.sub_sub]
    · exact ih room

theorem fill_map (f : β → α) (room : ℕ) (xs : List β) :
    fill w room (xs.map f) = (fill (fun x => w (f x)) room xs).map f := by
  induction xs generalizing room with
  | nil => rfl
  | cons x xs ih =>
    rw [List.map_cons, fill, fill]
    split
    · rw [ih, List.map_cons]
    · exact ih room

end FirstFit
