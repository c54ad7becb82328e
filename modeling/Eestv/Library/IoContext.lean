import Mathlib.Data.List.Basic
import Mathlib.Data.List.Count

/-! An event loop: posted handlers and started operations that have yet to finish, in
any order, with a log of what happened. A program that keeps a flag for each kind of
work that it has under way is verified by comparing the flags with `work`. -/

/-- What happened on an event loop, with handlers `H`, operations `O` and calls `C`. -/
inductive Entry (H O C : Type)
  | posted (handler : H)
  | ran (handler : H)
  | started (operation : O)
  | finished (operation : O)
  | called (call : C)
deriving DecidableEq, Repr

def Entry.starts {H O C : Type} : Entry H O C → Bool
  | .started _ => true
  | _ => false

inductive ErrorCode
  | success
  | operationAborted
  | other (value : ℕ)
deriving DecidableEq, Repr

def ErrorCode.failed : ErrorCode → Bool
  | .success => false
  | .operationAborted => true
  | .other _ => true

structure IoContext (H O C : Type) where
  posted : List H := []
  operations : List O := []
  /-- Oldest first. -/
  log : List (Entry H O C) := []
deriving Repr

namespace IoContext

variable {H O C F : Type} {c d : IoContext H O C} {h : H} {o : O}

def post (c : IoContext H O C) (h : H) : IoContext H O C :=
  { c with posted := c.posted ++ [h], log := c.log ++ [.posted h] }

def start (c : IoContext H O C) (o : O) : IoContext H O C :=
  { c with operations := c.operations ++ [o], log := c.log ++ [.started o] }

def call (c : IoContext H O C) (x : C) : IoContext H O C :=
  { c with log := c.log ++ [.called x] }

def take [DecidableEq H] (c : IoContext H O C) (h : H) : Option (IoContext H O C) :=
  if h ∈ c.posted then some { c with posted := c.posted.erase h, log := c.log ++ [.ran h] }
  else none

def finish [DecidableEq O] (c : IoContext H O C) (o : O) : Option (IoContext H O C) :=
  if o ∈ c.operations then
    some { c with operations := c.operations.erase o, log := c.log ++ [.finished o] }
  else none

/-- Nothing is left that could still happen by itself. -/
def Idle (c : IoContext H O C) : Prop := c.posted = [] ∧ c.operations = []

instance [DecidableEq H] [DecidableEq O] (c : IoContext H O C) : Decidable c.Idle :=
  inferInstanceAs (Decidable (_ ∧ _))

/-- How many pending handlers and operations are of the kind `f`. -/
def work [DecidableEq F] (p : H → Option F) (q : O → Option F) (c : IoContext H O C) (f : F) :
    ℕ :=
  c.posted.countP (p · = some f) + c.operations.countP (q · = some f)

@[simp] theorem post_posted : (c.post h).posted = c.posted ++ [h] := rfl
@[simp] theorem post_operations : (c.post h).operations = c.operations := rfl
@[simp] theorem post_log : (c.post h).log = c.log ++ [.posted h] := rfl
@[simp] theorem start_posted : (c.start o).posted = c.posted := rfl
@[simp] theorem start_operations : (c.start o).operations = c.operations ++ [o] := rfl
@[simp] theorem start_log : (c.start o).log = c.log ++ [.started o] := rfl
@[simp] theorem call_posted (x : C) : (c.call x).posted = c.posted := rfl
@[simp] theorem call_operations (x : C) : (c.call x).operations = c.operations := rfl
@[simp] theorem call_log (x : C) : (c.call x).log = c.log ++ [.called x] := rfl

theorem take_eq_some [DecidableEq H] : c.take h = some d ↔
    h ∈ c.posted ∧ d = ⟨c.posted.erase h, c.operations, c.log ++ [.ran h]⟩ := by
  unfold take
  split
  · simp only [*, Option.some.injEq, true_and, eq_comm]
  · simp only [*, reduceCtorEq, false_and]

theorem finish_eq_some [DecidableEq O] : c.finish o = some d ↔
    o ∈ c.operations ∧ d = ⟨c.posted, c.operations.erase o, c.log ++ [.finished o]⟩ := by
  unfold finish
  split
  · simp only [*, Option.some.injEq, true_and, eq_comm]
  · simp only [*, reduceCtorEq, false_and]

theorem take_log [DecidableEq H] (ht : c.take h = some d) : d.log = c.log ++ [.ran h] := by
  rw [(take_eq_some.mp ht).2]

theorem finish_log [DecidableEq O] (ht : c.finish o = some d) :
    d.log = c.log ++ [.finished o] := by
  rw [(finish_eq_some.mp ht).2]

section Work

variable [DecidableEq F] {p : H → Option F} {q : O → Option F} {f : F}

@[simp] theorem work_post :
    (c.post h).work p q f = c.work p q f + if p h = some f then 1 else 0 := by
  simp only [work, post, List.countP_append, List.countP_singleton, decide_eq_true_eq]
  omega

@[simp] theorem work_start :
    (c.start o).work p q f = c.work p q f + if q o = some f then 1 else 0 := by
  simp only [work, start, List.countP_append, List.countP_singleton, decide_eq_true_eq]
  omega

@[simp] theorem work_call (x : C) : (c.call x).work p q f = c.work p q f := rfl

theorem countP_erase_of_mem {α : Type} [DecidableEq α] {l : List α} {a : α} (r : α → Bool)
    (ha : a ∈ l) : (l.erase a).countP r + (if r a = true then 1 else 0) = l.countP r := by
  rw [(List.perm_cons_erase ha).countP_eq r, List.countP_cons]

theorem work_take [DecidableEq H] (ht : c.take h = some d) :
    d.work p q f + (if p h = some f then 1 else 0) = c.work p q f := by
  obtain ⟨hmem, rfl⟩ := take_eq_some.mp ht
  have hcount := countP_erase_of_mem (fun x => decide (p x = some f)) hmem
  simp only [work, decide_eq_true_eq] at hcount ⊢
  omega

theorem work_finish [DecidableEq O] (ht : c.finish o = some d) :
    d.work p q f + (if q o = some f then 1 else 0) = c.work p q f := by
  obtain ⟨hmem, rfl⟩ := finish_eq_some.mp ht
  have hcount := countP_erase_of_mem (fun x => decide (q x = some f)) hmem
  simp only [work, decide_eq_true_eq] at hcount ⊢
  omega

theorem work_pos_of_posted (hmem : h ∈ c.posted) (hp : p h = some f) : 0 < c.work p q f := by
  apply Nat.add_pos_left
  exact List.countP_pos_iff.mpr ⟨h, hmem, decide_eq_true hp⟩

theorem work_pos_of_operation (hmem : o ∈ c.operations) (hq : q o = some f) :
    0 < c.work p q f := by
  apply Nat.add_pos_right
  exact List.countP_pos_iff.mpr ⟨o, hmem, decide_eq_true hq⟩

theorem not_posted_of_work_eq_zero (hw : c.work p q f = 0) (hp : p h = some f) :
    h ∉ c.posted :=
  fun hmem => Nat.ne_of_gt (work_pos_of_posted hmem hp) hw

theorem exists_of_work_pos (hw : 0 < c.work p q f) :
    (∃ h ∈ c.posted, p h = some f) ∨ ∃ o ∈ c.operations, q o = some f := by
  rcases Nat.add_pos_iff_pos_or_pos.mp hw with hpos | hpos
  · obtain ⟨h, hmem, hp⟩ := List.countP_pos_iff.mp hpos
    exact Or.inl ⟨h, hmem, of_decide_eq_true hp⟩
  · obtain ⟨o, hmem, hq⟩ := List.countP_pos_iff.mp hpos
    exact Or.inr ⟨o, hmem, of_decide_eq_true hq⟩

theorem work_of_operations (hp : ∀ h, p h ≠ some f) :
    c.work p q f = c.operations.countP (q · = some f) := by
  have hposted : c.posted.countP (p · = some f) = 0 :=
    List.countP_eq_zero.mpr fun h _ => by simpa using hp h
  rw [work, hposted, Nat.zero_add]

theorem work_eq_zero (hposted : ∀ h ∈ c.posted, p h = none) (hoperations : c.operations = []) :
    c.work p q f = 0 := by
  rw [work, hoperations, List.countP_nil, Nat.add_zero, List.countP_eq_zero]
  intro h hmem
  rw [hposted h hmem]
  exact Bool.false_ne_true

theorem Idle.work_eq_zero (hc : c.Idle) : c.work p q f = 0 := by
  rw [work, hc.1, hc.2, List.countP_nil, List.countP_nil]

end Work

/-! ### What the log says about the order of things -/

/-- Whatever comes behind an entry with `q` satisfies `p`. -/
def After {α : Type} (q p : α → Prop) (l : List α) : Prop := l.Pairwise fun y z => q y → p z

instance {α : Type} {q p : α → Prop} [DecidablePred q] [DecidablePred p] (l : List α) :
    Decidable (After q p l) :=
  inferInstanceAs (Decidable (l.Pairwise fun y z => q y → p z))

section After

variable {α : Type} {q p : α → Prop} {l l' : List α}

theorem after_append :
    After q p (l ++ l') ↔ After q p l ∧ After q p l' ∧ ((∃ y ∈ l, q y) → ∀ z ∈ l', p z) := by
  unfold After
  rw [List.pairwise_append]
  constructor
  · rintro ⟨hl, hl', h⟩
    refine ⟨hl, hl', ?_⟩
    rintro ⟨y, hy, hq⟩ z hz
    exact h y hy z hz hq
  · rintro ⟨hl, hl', h⟩
    exact ⟨hl, hl', fun y hy z hz hq => h ⟨y, hy, hq⟩ z hz⟩

theorem after_concat {x : α} :
    After q p (l ++ [x]) ↔ After q p l ∧ ((∃ y ∈ l, q y) → p x) := by
  have hsingle : After q p [x] := List.pairwise_singleton _ _
  simp only [after_append, hsingle, true_and, List.mem_singleton, forall_eq]

theorem after_of_not_mem (h : ∀ y ∈ l, ¬ q y) : After q p l := by
  apply List.pairwise_of_forall_mem_list
  intro y hy z _ hq
  exact absurd hq (h y hy)

end After

end IoContext
