import Eestv.Library.Runs
import Mathlib.Logic.Function.Basic

/-! A network of nodes that step one at a time, in any order. Of the other nodes a node sees what
`view` shows it, such as what they have sent. An invariant of the nodes is proved node by node. -/

open Runs

structure Nodes (ι σ ω ε : Type*) where
  view : (ι → σ) → ι → ω
  step : ω → σ → ε → σ → Prop

namespace Nodes

variable {ι σ ω ε : Type*} [DecidableEq ι] {N : Nodes ι σ ω ε} {s t : ι → σ} {a : ι × ε}
  {as : List (ι × ε)}

def Step (N : Nodes ι σ ω ε) (s : ι → σ) (a : ι × ε) (t : ι → σ) : Prop :=
  ∃ u, N.step (N.view s a.1) (s a.1) a.2 u ∧ t = Function.update s a.1 u

def Local (N : Nodes ι σ ω ε) (s : σ) (e : ε) (t : σ) : Prop := ∃ w, N.step w s e t

omit [DecidableEq ι] in
theorem Local.of_step {w : ω} {x y : σ} {e : ε} (h : N.step w x e y) : N.Local x e y := ⟨w, h⟩

theorem step_self (h : N.Step s a t) : N.step (N.view s a.1) (s a.1) a.2 (t a.1) := by
  obtain ⟨u, hu, rfl⟩ := h
  rwa [Function.update_self]

theorem step_other (h : N.Step s a t) {i : ι} (hi : i ≠ a.1) : t i = s i := by
  obtain ⟨u, -, rfl⟩ := h
  exact Function.update_of_ne hi u s

theorem each_cons_of_step {f : ω → σ → ε → Option σ} {Q : (ι → σ) → ι × ε → Prop} {i : ι} {e : ε}
    {u : σ} (hf : N.step = fun w x e y => f w x e = some y)
    (hu : f (N.view s i) (s i) e = some u) (hQ : Q s (i, e))
    (h : Each N.Step Q (Function.update s i u) as) : Each N.Step Q s ((i, e) :: as) := by
  rw [each_cons]
  rintro _ ⟨v, hv, rfl⟩
  rw [hf] at hv
  obtain rfl : u = v := Option.some.inj (hu.symm.trans hv)
  exact ⟨hQ, h⟩

theorem forall_of_run {I : σ → Prop} {ok : ε → Prop} {Q : σ → ε → Prop}
    (hkeep : ∀ x e y, ok e → I x → N.Local x e y → Q x e → I y) (h : Run N.Step s as t)
    (hok : ∀ a ∈ as, ok a.2) (hQ : Each N.Step (fun s a => Q (s a.1) a.2) s as)
    (hs : ∀ i, I (s i)) : ∀ i, I (t i) := by
  refine h.of_each (I := fun s => ∀ i, I (s i)) ?_ hok hQ hs
  intro s a t hok hs hstep hQ i
  rcases eq_or_ne i a.1 with rfl | hi
  · exact hkeep _ _ _ hok (hs _) (.of_step (step_self hstep)) hQ
  · rw [step_other hstep hi]
    exact hs i

/-- A relation between a node and its view that the node's own steps keep, and that survives
whatever the view grows to, holds throughout. -/
theorem view_of_run {I : ω → σ → Prop} {G : ω → ω → Prop}
    (hlocal : ∀ w x e y, I w x → N.step w x e y → I w y)
    (hgrows : ∀ s a t i, N.Step s a t → G (N.view s i) (N.view t i))
    (hstable : ∀ w w' x, G w w' → I w x → I w' x) (h : Run N.Step s as t)
    (hs : ∀ i, I (N.view s i) (s i)) : ∀ i, I (N.view t i) (t i) := by
  refine h.invariant (I := fun s => ∀ i, I (N.view s i) (s i)) ?_ hs
  intro s a t hs hstep i
  apply hstable _ _ _ (hgrows _ _ _ i hstep)
  rcases eq_or_ne i a.1 with rfl | hi
  · exact hlocal _ _ _ _ (hs _) (step_self hstep)
  · rw [step_other hstep hi]
    exact hs i

theorem local_of_run (h : Run N.Step s as t) (i : ι) :
    Run N.Local (s i) ((as.filter (·.1 = i)).map (·.2)) (t i) := by
  induction h with
  | nil s => exact .nil (s i)
  | @cons s t u a as ha _ ih =>
    rcases eq_or_ne a.1 i with rfl | hi
    · rw [List.filter_cons_of_pos (by simp), List.map_cons]
      exact .cons (.of_step (step_self ha)) ih
    · rw [List.filter_cons_of_neg (by simpa using hi)]
      rwa [step_other ha hi.symm] at ih

end Nodes
