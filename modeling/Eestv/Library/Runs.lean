import Mathlib.Data.Nat.Notation
import Mathlib.Logic.Relation

/-! Runs of a labelled step relation. An invariant kept by every step holds at the
end of every run. A property that fails at exactly the steps of one kind holds
along exactly the runs without such a step. -/

namespace Runs

variable {σ α : Type*} {step : σ → α → σ → Prop} {s t u : σ} {a : α} {as bs : List α}

/-- From `s` the actions `as`, taken in order, lead to the last argument. -/
inductive Run (step : σ → α → σ → Prop) : σ → List α → σ → Prop
  | nil (s : σ) : Run step s [] s
  | cons {s t u : σ} {a : α} {as : List α} :
      step s a t → Run step t as u → Run step s (a :: as) u

namespace Run

theorem invariant {I : σ → Prop} (hstep : ∀ s a t, I s → step s a t → I t)
    (h : Run step s as t) (hs : I s) : I t := by
  induction h with
  | nil => exact hs
  | cons ha _ ih => exact ih (hstep _ _ _ hs ha)

theorem invariant_of_forall {I : σ → Prop} {ok : α → Prop}
    (hstep : ∀ s a t, ok a → I s → step s a t → I t)
    (h : Run step s as t) (hok : ∀ a ∈ as, ok a) (hs : I s) : I t := by
  induction h with
  | nil => exact hs
  | cons ha _ ih =>
    have hfirst := hok _ List.mem_cons_self
    exact ih (fun a ha => hok a (List.mem_cons_of_mem _ ha)) (hstep _ _ _ hfirst hs ha)

theorem invariant_of_not_mem {I : σ → Prop} {b : α}
    (hstep : ∀ s a t, a ≠ b → I s → step s a t → I t)
    (h : Run step s as t) (hb : b ∉ as) (hs : I s) : I t :=
  h.invariant_of_forall hstep (fun _ ha => ne_of_mem_of_not_mem ha hb) hs

theorem single (h : step s a t) : Run step s [a] t := .cons h (.nil t)

theorem append (h : Run step s as t) (h' : Run step t bs u) : Run step s (as ++ bs) u := by
  induction h with
  | nil => exact h'
  | cons ha _ ih => exact .cons ha (ih h')

theorem of_append (h : Run step s (as ++ bs) u) :
    ∃ t, Run step s as t ∧ Run step t bs u := by
  induction as generalizing s with
  | nil => exact ⟨s, .nil s, h⟩
  | cons a as ih =>
    cases h with
    | cons ha h =>
      obtain ⟨t, has, hbs⟩ := ih h
      exact ⟨t, .cons ha has, hbs⟩

/-- Induction on a run whose property may look at the actions taken so far. -/
theorem history {P : List α → σ → Prop} (hnil : P [] s)
    (hsnoc : ∀ as t a u, Run step s as t → P as t → step t a u → P (as ++ [a]) u)
    (h : Run step s as t) : P as t := by
  have key : ∀ {u v : σ} {bs cs : List α}, Run step s bs u → P bs u → Run step u cs v →
      P (bs ++ cs) v := by
    intro u v bs cs hbs hP hcs
    induction hcs generalizing bs with
    | nil => rwa [List.append_nil]
    | cons ha _ ih =>
      have := ih (hbs.append (single ha)) (hsnoc _ _ _ _ hbs hP ha)
      rwa [List.append_assoc] at this
  exact key (.nil s) hnil h

theorem length_add_le {I : σ → Prop} {ok : α → Prop} (μ : σ → ℕ)
    (hstep : ∀ s a t, ok a → I s → step s a t → I t ∧ μ t < μ s)
    (h : Run step s as t) (hok : ∀ a ∈ as, ok a) (hs : I s) : as.length + μ t ≤ μ s := by
  induction h with
  | nil => exact Nat.le_of_eq (Nat.zero_add _)
  | @cons s t u a as ha _ ih =>
    obtain ⟨ht, hlt⟩ := hstep _ _ _ (hok _ List.mem_cons_self) hs ha
    have hle := ih (fun a ha => hok a (List.mem_cons_of_mem _ ha)) ht
    rw [List.length_cons]
    omega

theorem simulates_of_forall {τ : Type*} {step' : τ → α → τ → Prop} {I : σ → Prop} {f : σ → τ}
    {ok : α → Prop} (hkeep : ∀ s a t, ok a → I s → step s a t → I t)
    (hstep : ∀ s a t, ok a → I s → step s a t → step' (f s) a (f t))
    (h : Run step s as t) (hok : ∀ a ∈ as, ok a) (hs : I s) : Run step' (f s) as (f t) := by
  induction h with
  | nil s => exact .nil (f s)
  | cons ha _ ih =>
    have hfirst := hok _ List.mem_cons_self
    have hrest := ih (fun a ha => hok a (List.mem_cons_of_mem _ ha)) (hkeep _ _ _ hfirst hs ha)
    exact .cons (hstep _ _ _ hfirst hs ha) hrest

theorem simulates {τ : Type*} {step' : τ → α → τ → Prop} {I : σ → Prop} {f : σ → τ}
    (hkeep : ∀ s a t, I s → step s a t → I t)
    (hstep : ∀ s a t, I s → step s a t → step' (f s) a (f t))
    (h : Run step s as t) (hs : I s) : Run step' (f s) as (f t) := by
  have hok : ∀ a ∈ as, (fun _ : α => True) a := fun _ _ => trivial
  exact h.simulates_of_forall (fun s a t _ => hkeep s a t) (fun s a t _ => hstep s a t) hok hs

theorem simulates_of_not_mem {τ : Type*} {step' : τ → α → τ → Prop} {f : σ → τ} {b : α}
    (hstep : ∀ s a t, a ≠ b → step s a t → step' (f s) a (f t))
    (h : Run step s as t) (hb : b ∉ as) : Run step' (f s) as (f t) :=
  h.simulates_of_forall (I := fun _ => True) (fun _ _ _ _ _ _ => trivial)
    (fun s a t ha _ => hstep s a t ha) (fun _ ha => ne_of_mem_of_not_mem ha hb) trivial

theorem iff_foldlM {f : σ → α → Option σ} :
    Run (fun s a t => f s a = some t) s as t ↔ as.foldlM f s = some t := by
  induction as generalizing s with
  | nil =>
    constructor
    · intro h
      cases h
      rfl
    · intro h
      cases h
      exact .nil _
  | cons a as ih =>
    rw [List.foldlM_cons]
    constructor
    · intro h
      cases h with
      | cons ha h =>
        rw [ha]
        exact ih.mp h
    · intro h
      obtain ⟨u, ha, h⟩ := Option.bind_eq_some_iff.mp h
      exact .cons ha (ih.mpr h)

end Run

theorem returned_iff {β : Type*} [DecidableEq β] {r : β × σ} {b : β} :
    (if r.1 = b then some r.2 else none) = some t ↔ r = (b, t) := by
  split
  · simp only [*, Option.some.injEq, Prod.ext_iff, true_and]
  · simp only [*, reduceCtorEq, Prod.ext_iff, false_and]

/-- `P` holds in every state that the actions `as` lead through from `s`. -/
def Always (step : σ → α → σ → Prop) (P : σ → Prop) (s : σ) (as : List α) : Prop :=
  ∀ bs cs t, as = bs ++ cs → Run step s bs t → P t

/-- `Q` holds of every action of `as` in the state in which it is taken. -/
def Each (step : σ → α → σ → Prop) (Q : σ → α → Prop) (s : σ) (as : List α) : Prop :=
  ∀ bs a cs t u, as = bs ++ a :: cs → Run step s bs t → step t a u → Q t a

variable {P I : σ → Prop} {Q : σ → α → Prop}

theorem always_nil : Always step P s [] ↔ P s := by
  constructor
  · intro h
    exact h [] [] s rfl (.nil s)
  · intro h bs cs t heq hrun
    obtain ⟨rfl, rfl⟩ := List.append_eq_nil_iff.mp heq.symm
    cases hrun
    exact h

theorem always_cons :
    Always step P s (a :: as) ↔ P s ∧ ∀ t, step s a t → Always step P t as := by
  constructor
  · intro h
    refine ⟨h [] _ s rfl (.nil s), ?_⟩
    rintro t ha bs cs u rfl hrun
    exact h (a :: bs) cs u rfl (.cons ha hrun)
  · rintro ⟨hs, h⟩ bs cs u heq hrun
    cases hrun with
    | nil => exact hs
    | cons ha hrun =>
      obtain ⟨rfl, rfl⟩ := List.cons.inj heq
      exact h _ ha _ _ _ rfl hrun

theorem each_nil : Each step Q s [] := by
  intro bs a cs t u heq
  simp only [List.nil_eq, List.append_eq_nil_iff, reduceCtorEq, and_false] at heq

theorem each_of_forall (h : ∀ a ∈ as, ∀ s, Q s a) : Each step Q s as := by
  rintro bs a cs t _ rfl _ _
  exact h a (List.mem_append_right _ List.mem_cons_self) t

theorem each_cons :
    Each step Q s (a :: as) ↔ ∀ t, step s a t → Q s a ∧ Each step Q t as := by
  constructor
  · intro h t ha
    refine ⟨h [] a as s t rfl (.nil s) ha, ?_⟩
    rintro bs b cs u v rfl hrun hb
    exact h (a :: bs) b cs u v rfl (.cons ha hrun) hb
  · intro h bs b cs u v heq hrun hb
    cases hrun with
    | nil =>
      obtain ⟨rfl, rfl⟩ := List.cons.inj heq
      exact (h _ hb).1
    | cons ha hrun =>
      obtain ⟨rfl, rfl⟩ := List.cons.inj heq
      exact (h _ ha).2 _ _ _ _ _ rfl hrun hb

theorem Run.of_each {ok : α → Prop} (hkeep : ∀ s a t, ok a → I s → step s a t → Q s a → I t)
    (h : Run step s as t) (hok : ∀ a ∈ as, ok a) (hQ : Each step Q s as) (hs : I s) : I t := by
  induction h with
  | nil => exact hs
  | cons ha _ ih =>
    obtain ⟨hfirst, hlater⟩ := each_cons.mp hQ _ ha
    have hpermitted := hok _ List.mem_cons_self
    exact ih (fun a ha => hok a (List.mem_cons_of_mem _ ha)) hlater
      (hkeep _ _ _ hpermitted hs ha hfirst)

/-- When the steps with `Q` keep an invariant that implies `P`, and every other step
out of the invariant breaks `P`, then `P` holds along a run of permitted actions exactly
if all its steps are steps with `Q`. -/
theorem always_iff_each_of_forall {ok : α → Prop} (hP : ∀ s, I s → P s)
    (hkeep : ∀ s a t, ok a → I s → step s a t → Q s a → I t)
    (hbreak : ∀ s a t, ok a → I s → step s a t → P t → Q s a) (hok : ∀ a ∈ as, ok a)
    (hs : I s) : Always step P s as ↔ Each step Q s as := by
  induction as generalizing s with
  | nil => exact ⟨fun _ => each_nil, fun _ => always_nil.mpr (hP s hs)⟩
  | cons a as ih =>
    have hfirst := hok a List.mem_cons_self
    have hrest : ∀ a ∈ as, ok a := fun b hb => hok b (List.mem_cons_of_mem _ hb)
    rw [always_cons, each_cons]
    constructor
    · rintro ⟨_, h⟩ t ha
      have hQ : Q s a := by
        apply hbreak s a t hfirst hs ha
        exact h t ha [] as t rfl (.nil t)
      exact ⟨hQ, (ih hrest (hkeep s a t hfirst hs ha hQ)).mp (h t ha)⟩
    · intro h
      refine ⟨hP s hs, ?_⟩
      intro t ha
      obtain ⟨hQ, hlater⟩ := h t ha
      exact (ih hrest (hkeep s a t hfirst hs ha hQ)).mpr hlater

theorem always_iff_each (hP : ∀ s, I s → P s)
    (hkeep : ∀ s a t, I s → step s a t → Q s a → I t)
    (hbreak : ∀ s a t, I s → step s a t → P t → Q s a) (hs : I s) :
    Always step P s as ↔ Each step Q s as := by
  have hok : ∀ a ∈ as, (fun _ : α => True) a := fun _ _ => trivial
  exact always_iff_each_of_forall hP (fun s a t _ => hkeep s a t)
    (fun s a t _ => hbreak s a t) hok hs

end Runs
