import Mathlib.Data.Option.Basic
import Mathlib.Algebra.Order.Ring.Nat

/-! A loop that runs its body while a guard holds. Each pass yields an outcome and
a new state. When every pass takes at least `k` off a measure of the state, the
loop is over after at most the measure divided by `k` passes. -/

namespace WhileLoop

variable {σ β : Type*} (guard : σ → Bool) (body : σ → β × σ)

/-- The outcomes of the passes and the state behind the loop; `none` when the guard still
holds after `fuel` passes. -/
def loop : ℕ → σ → Option (List β × σ)
  | 0, s => if guard s then none else some ([], s)
  | fuel + 1, s =>
    if guard s then
      (loop fuel (body s).2).map fun (outcomes, t) => ((body s).1 :: outcomes, t)
    else some ([], s)

variable {guard body} {s t : σ} {fuel : ℕ} {outcomes : List β}

theorem loop_done (h : guard s = false) : loop guard body fuel s = some ([], s) := by
  cases fuel with
  | zero => exact if_neg (Bool.eq_false_iff.mp h)
  | succ fuel => exact if_neg (Bool.eq_false_iff.mp h)

theorem loop_pass (h : guard s = true)
    (hrest : loop guard body fuel (body s).2 = some (outcomes, t)) :
    loop guard body (fuel + 1) s = some ((body s).1 :: outcomes, t) := by
  rw [loop, if_pos h, hrest, Option.map_some]

/-- The loop ends, with the guard off and the invariant kept, and it has paid `k` of the
measure for every pass. -/
theorem loop_ends {I : σ → Prop} {P : β → Prop} {m : σ → ℕ} {k : ℕ}
    (hkeep : ∀ s, I s → guard s = true → I (body s).2)
    (houtcome : ∀ s, I s → guard s = true → P (body s).1)
    (hless : ∀ s, I s → guard s = true → m (body s).2 + k ≤ m s)
    (hs : I s) (hfuel : m s < (fuel + 1) * k) :
    ∃ outcomes t, loop guard body fuel s = some (outcomes, t) ∧ guard t = false ∧ I t ∧
      (∀ b ∈ outcomes, P b) ∧ outcomes.length * k + m t ≤ m s := by
  induction fuel generalizing s with
  | zero =>
    have hoff : guard s = false := by
      by_contra hon
      have := hless s hs (Bool.eq_true_of_not_eq_false hon)
      omega
    refine ⟨[], s, loop_done hoff, hoff, hs, fun _ hb => absurd hb List.not_mem_nil, ?_⟩
    rw [List.length_nil, Nat.zero_mul, Nat.zero_add]
  | succ fuel ih =>
    cases hg : guard s with
    | false =>
      refine ⟨[], s, loop_done hg, hg, hs, fun _ hb => absurd hb List.not_mem_nil, ?_⟩
      rw [List.length_nil, Nat.zero_mul, Nat.zero_add]
    | true =>
      have hpaid := hless s hs hg
      have hrest : m (body s).2 < (fuel + 1) * k := by
        rw [Nat.succ_mul (fuel + 1) k] at hfuel
        omega
      obtain ⟨outcomes, t, hloop, hoff, ht, hall, hsum⟩ := ih (hkeep s hs hg) hrest
      refine ⟨(body s).1 :: outcomes, t, loop_pass hg hloop, hoff, ht, ?_, ?_⟩
      · intro b hb
        rcases List.mem_cons.mp hb with h | h
        · rw [h]
          exact houtcome s hs hg
        · exact hall b h
      · rw [List.length_cons, Nat.succ_mul]
        omega

end WhileLoop
