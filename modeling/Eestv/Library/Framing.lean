import Mathlib.Data.List.Basic

/-! A stream that is a sequence of frames, cut at an arbitrary position: the
whole frames before the cut, the part of the next frame before the cut, and the
offset of the cut in the frame it falls into. -/

namespace Framing

variable {α : Type*}

/-- How far position `p` of the stream lies behind the last frame boundary at or before it. -/
def offset : List (List α) → ℕ → ℕ
  | [], p => p
  | f :: fs, p => if f.length ≤ p then offset fs (p - f.length) else p

theorem offset_append (ds fs : List (List α)) (p : ℕ) :
    offset (ds ++ fs) (ds.flatten.length + p) = offset fs p := by
  induction ds with
  | nil => rw [List.nil_append, List.flatten_nil, List.length_nil, Nat.zero_add]
  | cons d ds ih =>
    rw [List.cons_append, offset, List.flatten_cons, List.length_append, Nat.add_assoc,
      if_pos (Nat.le_add_right _ _), Nat.add_sub_cancel_left, ih]

theorem offset_of_lt {f : List α} {fs : List (List α)} {p : ℕ} (h : p < f.length) :
    offset (f :: fs) p = p := if_neg (Nat.not_le.mpr h)

theorem split_prefix (fs : List (List α)) {xs ys : List α} (h : xs ++ ys = fs.flatten) :
    ∃ ds rs u, fs = ds ++ rs ∧ xs = ds.flatten ++ u ∧ u ++ ys = rs.flatten ∧
      ∀ r ∈ rs.head?, u.length < r.length := by
  induction fs generalizing xs with
  | nil =>
    obtain ⟨rfl, rfl⟩ := List.append_eq_nil_iff.mp h
    exact ⟨[], [], [], rfl, rfl, rfl, fun _ hr => absurd hr (Option.not_mem_none _)⟩
  | cons f fs ih =>
    rcases Nat.lt_or_ge xs.length f.length with hlt | hge
    · refine ⟨[], f :: fs, xs, rfl, rfl, h, fun r hr => ?_⟩
      rwa [← Option.some.inj hr]
    · rw [List.flatten_cons] at h
      have hf : xs = f ++ xs.drop f.length := by
        have htake := congrArg (List.take f.length) h
        rw [List.take_append_of_le_length hge, List.take_left' rfl] at htake
        conv_lhs => rw [← List.take_append_drop f.length xs, htake]
      rw [hf, List.append_assoc] at h
      obtain ⟨ds, rs, u, rfl, hu, hrest, hhead⟩ := ih (List.append_cancel_left h)
      refine ⟨f :: ds, rs, u, rfl, ?_, hrest, hhead⟩
      rw [hf, hu, List.flatten_cons, List.append_assoc]

end Framing
