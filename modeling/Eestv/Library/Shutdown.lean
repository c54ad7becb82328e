import Eestv.Library.Handover
import Mathlib.Algebra.Order.BigOperators.Group.List
import Mathlib.Algebra.Order.Group.Nat
import Mathlib.Algebra.Group.Action.Defs
import Mathlib.Algebra.Ring.Nat

/-! How an event loop runs dry. No posted handler is lost, and when every handler and every
operation leaves less work behind than it is itself, only so many of them can follow. -/

namespace IoContext

variable {H O C : Type} {c d e : IoContext H O C} {h : H} {o : O}

inductive Grows (c : IoContext H O C) : IoContext H O C → Prop
  | refl : Grows c c
  | post {d : IoContext H O C} (h : H) : Grows c d → Grows c (d.post h)
  | start {d : IoContext H O C} (o : O) : Grows c d → Grows c (d.start o)
  | call {d : IoContext H O C} (x : C) : Grows c d → Grows c (d.call x)

theorem Grows.trans (h : c.Grows d) (h' : d.Grows e) : c.Grows e := by
  induction h' with
  | refl => exact h
  | post x _ ih => exact ih.post x
  | start o _ ih => exact ih.start o
  | call x _ ih => exact ih.call x

/-- One step of a component at the loop: it is called, a handler runs or an operation ends, and it
goes on from there. -/
inductive Moves [DecidableEq H] [DecidableEq O] (c d : IoContext H O C) : Prop
  | call : c.Grows d → Moves c d
  | run {b : IoContext H O C} {h : H} : c.take h = some b → b.Grows d → Moves c d
  | finish {b : IoContext H O C} {o : O} : c.finish o = some b → b.Grows d → Moves c d

/-- Every handler that was posted has run or is posted still. -/
def Conserves (c : IoContext H O C) : Prop :=
  ∀ h, .posted h ∈ c.log → .ran h ∈ c.log ∨ h ∈ c.posted

theorem conserves_empty : ({} : IoContext H O C).Conserves :=
  fun _ hmem => absurd hmem List.not_mem_nil

namespace Conserves

theorem grow (hc : c.Conserves) (h : c.Grows d) : d.Conserves := by
  induction h with
  | refl => exact hc
  | post x _ ih =>
    intro h hmem
    rcases List.mem_append.mp hmem with hmem | hmem
    · exact (ih h hmem).imp (List.mem_append_left _) (List.mem_append_left _)
    · rw [List.mem_singleton, Entry.posted.injEq] at hmem
      subst hmem
      exact Or.inr (List.mem_append_right _ List.mem_cons_self)
  | start o _ ih =>
    intro h hmem
    rcases List.mem_append.mp hmem with hmem | hmem
    · exact (ih h hmem).imp_left (List.mem_append_left _)
    · simp at hmem
  | call x _ ih =>
    intro h hmem
    rcases List.mem_append.mp hmem with hmem | hmem
    · exact (ih h hmem).imp_left (List.mem_append_left _)
    · simp at hmem

theorem take [DecidableEq H] (hc : c.Conserves) (ht : c.take h = some d) : d.Conserves := by
  obtain ⟨-, rfl⟩ := take_eq_some.mp ht
  intro x hmem
  rcases List.mem_append.mp hmem with hmem | hmem
  · by_cases hx : x = h
    · subst hx
      exact Or.inl (List.mem_append_right _ List.mem_cons_self)
    · exact (hc x hmem).imp (List.mem_append_left _) (List.mem_erase_of_ne hx).mpr
  · simp at hmem

theorem finish [DecidableEq O] (hc : c.Conserves) (ht : c.finish o = some d) : d.Conserves := by
  obtain ⟨-, rfl⟩ := finish_eq_some.mp ht
  intro x hmem
  rcases List.mem_append.mp hmem with hmem | hmem
  · exact (hc x hmem).imp_left (List.mem_append_left _)
  · simp at hmem

theorem moves [DecidableEq H] [DecidableEq O] (hc : c.Conserves) (hm : c.Moves d) :
    d.Conserves := by
  cases hm with
  | call hgrows => exact hc.grow hgrows
  | run ht hgrows => exact (hc.take ht).grow hgrows
  | finish ht hgrows => exact (hc.finish ht).grow hgrows

theorem of_run [DecidableEq H] [DecidableEq O] {σ α : Type} {step : σ → α → σ → Prop}
    {loop : σ → IoContext H O C} {s t : σ} {as : List α}
    (hstep : ∀ s a t, step s a t → (loop s).Moves (loop t)) (hempty : loop s = {})
    (h : Runs.Run step s as t) : (loop t).Conserves := by
  apply h.invariant (I := fun s => (loop s).Conserves) fun _ _ _ hs ha => hs.moves (hstep _ _ _ ha)
  rw [hempty]
  exact conserves_empty

theorem ran (hc : c.Conserves) (hidle : c.Idle) (hmem : .posted h ∈ c.log) : .ran h ∈ c.log := by
  refine (hc h hmem).resolve_right ?_
  rw [hidle.1]
  exact List.not_mem_nil

theorem ran_of_has {K : Type} {p : H → Option K} {signaled : Bool} {held : Option K} {k : K}
    (hc : c.Conserves) (hidle : c.Idle) (hp : ∀ x, p x = some k ↔ x = h)
    (hhas : (Handover.ofLoop p signaled held c).Has k) (hheld : held = none) :
    .ran h ∈ c.log := by
  apply hc.ran hidle
  have hreleased : posts p c.log = [k] := hhas.released_eq hheld
  rw [← mem_posts_iff hp, hreleased]
  exact List.mem_cons_self

end Conserves

theorem exists_take_or_finish [DecidableEq H] [DecidableEq O] (hc : ¬ c.Idle) :
    (∃ h d, c.take h = some d) ∨ ∃ o d, c.finish o = some d := by
  rcases hposted : c.posted with _ | ⟨h, hs⟩
  · rcases hoperations : c.operations with _ | ⟨o, os⟩
    · exact absurd ⟨hposted, hoperations⟩ hc
    · exact Or.inr ⟨o, _, finish_eq_some.mpr ⟨hoperations ▸ List.mem_cons_self, rfl⟩⟩
  · exact Or.inl ⟨h, _, take_eq_some.mpr ⟨hposted ▸ List.mem_cons_self, rfl⟩⟩

section Load

/-- What is left to do, every handler and operation with its weight. -/
def workload (p : H → ℕ) (q : O → ℕ) (c : IoContext H O C) : ℕ :=
  (c.posted.map p).sum + (c.operations.map q).sum

variable {p : H → ℕ} {q : O → ℕ}

@[simp] theorem workload_post : (c.post h).workload p q = c.workload p q + p h := by
  simp only [workload, post, List.map_append, List.sum_append, List.map_singleton,
    List.sum_singleton]
  omega

@[simp] theorem workload_start : (c.start o).workload p q = c.workload p q + q o := by
  simp only [workload, start, List.map_append, List.sum_append, List.map_singleton,
    List.sum_singleton]
  omega

@[simp] theorem workload_call (x : C) : (c.call x).workload p q = c.workload p q := rfl

theorem workload_take [DecidableEq H] (ht : c.take h = some d) :
    d.workload p q + p h = c.workload p q := by
  obtain ⟨hmem, rfl⟩ := take_eq_some.mp ht
  have hsum := ((List.perm_cons_erase hmem).map p).sum_nat
  rw [List.map_cons, List.sum_cons] at hsum
  unfold workload
  dsimp only
  omega

theorem workload_finish [DecidableEq O] (ht : c.finish o = some d) :
    d.workload p q + q o = c.workload p q := by
  obtain ⟨hmem, rfl⟩ := finish_eq_some.mp ht
  have hsum := ((List.perm_cons_erase hmem).map q).sum_nat
  rw [List.map_cons, List.sum_cons] at hsum
  unfold workload
  dsimp only
  omega

theorem sum_map_le {α : Type} {f : α → ℕ} {n : ℕ} (hf : ∀ a, f a ≤ n) (l : List α) :
    (l.map f).sum ≤ n * l.length := by
  have hle := List.sum_le_card_nsmul (l.map f) n (List.forall_mem_map.mpr fun a _ => hf a)
  rwa [List.length_map, smul_eq_mul, Nat.mul_comm] at hle

theorem workload_le {m n : ℕ} (hp : ∀ h, p h ≤ m) (hq : ∀ o, q o ≤ n) (c : IoContext H O C) :
    c.workload p q ≤ m * c.posted.length + n * c.operations.length :=
  Nat.add_le_add (sum_map_le hp _) (sum_map_le hq _)

end Load

end IoContext

namespace Shutdown

variable {σ K : Type} {s t : σ} {asyncStop : σ → Option K → Bool × σ}

/-- A stop that waits: the callback that it hands over and waits for the call of, if any. On a
thread of the loop it would wait for itself, and does nothing. -/
def stop (asyncStop : σ → Option K → Bool × σ) (s : σ) (isOnIoThread : Bool) (stopped : K) :
    Option K × σ :=
  if isOnIoThread then (none, s)
  else
    let r := asyncStop s (some stopped)
    (if r.1 then some stopped else none, r.2)

theorem stop_eq_some {onIoThread : Bool} {j k : K}
    (h : stop asyncStop s onIoThread k = (some j, t)) :
    j = k ∧ asyncStop s (some k) = (true, t) := by
  unfold stop at h
  split at h
  · cases h
  · dsimp only at h
    rcases haccepted : asyncStop s (some k) with ⟨_ | _, u⟩
    · rw [haccepted] at h
      cases h
    · rw [haccepted] at h
      cases h
      exact ⟨rfl, rfl⟩

end Shutdown

namespace Runs.Run

variable {σ α : Type*} {step : σ → α → σ → Prop} {s t : σ} {as : List α}

/-- When every action of its own takes from `μ`, and only an outer one adds to it, at most `w` and
what `ν` grows by, a run has few actions of its own. -/
theorem countP_add_le {I : σ → Prop} {p : α → Prop} (own outer : α → Bool) (w : ℕ) (μ ν : σ → ℕ)
    (hstep : ∀ s a t, p a → I s → step s a t →
      I t ∧ μ t + (own a).toNat + ν s ≤ μ s + w * (outer a).toNat + ν t)
    (h : Run step s as t) (hp : ∀ a ∈ as, p a) (hs : I s) :
    μ t + as.countP own + ν s ≤ μ s + w * as.countP outer + ν t := by
  induction h with
  | nil => exact Nat.le_refl _
  | @cons s t u a as ha _ ih =>
    obtain ⟨ht, hle⟩ := hstep _ _ _ (hp _ List.mem_cons_self) hs ha
    have hrest := ih (fun a ha => hp a (List.mem_cons_of_mem _ ha)) ht
    have hown : (a :: as).countP own = as.countP own + (own a).toNat := by
      rw [List.countP_cons]
      cases own a <;> rfl
    have houter : (a :: as).countP outer = as.countP outer + (outer a).toNat := by
      rw [List.countP_cons]
      cases outer a <;> rfl
    rw [hown, houter, Nat.mul_add]
    omega

end Runs.Run
