import Eestv.Library.Runs
import Mathlib.Logic.Function.Basic

/-! The spinlock, with any number of threads that update a shared object under it. The operations
on the flag are atomic. The object is not: an access is only free of races when all stores before
it happen before it, and this is what the memory orders of the flag are for. -/

namespace Eestv
open Runs

inductive MemoryOrder
  | relaxed
  | acquire
  | release
deriving DecidableEq

structure AtomicFlag where
  value : Bool
  /-- How many of the stores to the object happen before an acquire of the flag. -/
  released : ℕ

structure SpinlockMutex where
  flag : AtomicFlag

/-- Where a thread is that calls `lock`, loads the object, stores `f` of it and calls `unlock`. -/
inductive Place (S : Type)
  | outside
  | spinning (f : S → S)
  | entered (f : S → S)
  | loaded (f : S → S) (value : S)
  | stored

structure Thread (S : Type) where
  place : Place S
  /-- How many of the stores happen before the thread's next action. -/
  seen : ℕ

def Thread.Inside {S : Type} (t : Thread S) : Bool :=
  match t.place with
  | .outside => false
  | .spinning _ => false
  | _ => true

/-- The threads of a program, with the stores that were made, oldest first. -/
structure Threads (ι S : Type) where
  mutex : SpinlockMutex
  threads : ι → Thread S
  shared : S
  stores : List (S → S)

namespace AtomicFlag

/-- The old value, with the flag and what the thread has then seen. The store of the
read-modify-write continues the release sequence. -/
def testAndSet (flag : AtomicFlag) (order : MemoryOrder) (seen : ℕ) : Bool × AtomicFlag × ℕ :=
  (flag.value, ⟨true, flag.released⟩, if order = .acquire then max seen flag.released else seen)

def clear (_flag : AtomicFlag) (order : MemoryOrder) (seen : ℕ) : AtomicFlag :=
  ⟨false, if order = .release then seen else 0⟩

end AtomicFlag

namespace SpinlockMutex

def new : SpinlockMutex := ⟨⟨false, 0⟩⟩

/-- One round of the loop of `lock`, which returns when it is false. -/
def spin (m : SpinlockMutex) (seen : ℕ) : Bool × SpinlockMutex × ℕ :=
  let (held, flag, seen) := m.flag.testAndSet .acquire seen
  (held, ⟨flag⟩, seen)

def unlock (m : SpinlockMutex) (seen : ℕ) : SpinlockMutex := ⟨m.flag.clear .release seen⟩

end SpinlockMutex

namespace Threads

variable {ι S : Type} [DecidableEq ι] {s t : Threads ι S} {i j : ι}

inductive Event (ι S : Type)
  | lock (i : ι) (f : S → S)
  | spin (i : ι)
  | load (i : ι)
  | store (i : ι)
  | unlock (i : ι)

def start (shared : S) : Threads ι S := ⟨.new, fun _ => ⟨.outside, 0⟩, shared, []⟩

def move (s : Threads ι S) (i : ι) (place : Place S) (seen : ℕ) : ι → Thread S :=
  Function.update s.threads i ⟨place, seen⟩

def step (s : Threads ι S) : Event ι S → Option (Threads ι S)
  | .lock i f =>
    match (s.threads i).place with
    | .outside => some { s with threads := s.move i (.spinning f) (s.threads i).seen }
    | _ => none
  | .spin i =>
    match (s.threads i).place with
    | .spinning f =>
      let (held, mutex, seen) := s.mutex.spin (s.threads i).seen
      some { s with
        mutex := mutex
        threads := s.move i (if held then .spinning f else .entered f) seen }
    | _ => none
  | .load i =>
    match (s.threads i).place with
    | .entered f => some { s with threads := s.move i (.loaded f s.shared) (s.threads i).seen }
    | _ => none
  | .store i =>
    match (s.threads i).place with
    | .loaded f value =>
      some { s with
        threads := s.move i .stored (s.stores.length + 1)
        shared := f value
        stores := s.stores ++ [f] }
    | _ => none
  | .unlock i =>
    match (s.threads i).place with
    | .stored =>
      some { s with
        mutex := s.mutex.unlock (s.threads i).seen
        threads := s.move i .outside (s.threads i).seen }
    | _ => none

def Step (s : Threads ι S) (e : Event ι S) (t : Threads ι S) : Prop := s.step e = some t

/-! ### What is kept -/

/-- At most one thread is between `lock` and `unlock`, the flag tells whether there is one, and it
has seen every store. Whoever finds the flag clear will have seen them too. -/
structure Guarded (first : S) (s : Threads ι S) : Prop where
  value_iff : s.mutex.flag.value = true ↔ ∃ i, (s.threads i).Inside = true
  one : ∀ i j, (s.threads i).Inside = true → (s.threads j).Inside = true → i = j
  seen : ∀ i, (s.threads i).Inside = true → (s.threads i).seen = s.stores.length
  released : s.mutex.flag.value = false → s.mutex.flag.released = s.stores.length
  seen_le : ∀ i, (s.threads i).seen ≤ s.stores.length
  released_le : s.mutex.flag.released ≤ s.stores.length
  fresh : ∀ i f value, (s.threads i).place = .loaded f value → value = s.shared
  shared_eq : s.shared = s.stores.foldl (fun x f => f x) first

@[simp] theorem move_self (place : Place S) (seen : ℕ) : s.move i place seen i = ⟨place, seen⟩ :=
  Function.update_self ..

theorem move_of_ne (place : Place S) (seen : ℕ) (hj : j ≠ i) :
    s.move i place seen j = s.threads j := Function.update_of_ne hj ..

theorem forall_move {P : ι → Thread S → Prop} {place : Place S} {seen : ℕ}
    (hself : P i ⟨place, seen⟩) (hother : ∀ j, j ≠ i → P j (s.threads j)) (j : ι) :
    P j (s.move i place seen j) := by
  by_cases hj : j = i
  · subst hj
    rw [move_self]
    exact hself
  · rw [move_of_ne place seen hj]
    exact hother j hj

omit [DecidableEq ι] in
theorem start_guarded (first : S) : (start first : Threads ι S).Guarded first := by
  refine ⟨?_, nofun, nofun, fun _ => rfl, fun _ => Nat.le_refl 0, Nat.le_refl 0, nofun, rfl⟩
  exact ⟨nofun, fun ⟨_, h⟩ => h⟩

namespace Guarded

variable {first : S}

theorem move (h : s.Guarded first) {place : Place S} {seen : ℕ}
    (hinside : (⟨place, seen⟩ : Thread S).Inside = (s.threads i).Inside)
    (hseen : (s.threads i).seen ≤ seen) (hle : seen ≤ s.stores.length)
    (hfresh : ∀ f value, place = .loaded f value → value = s.shared) :
    Guarded first { s with threads := s.move i place seen } := by
  have hsame : ∀ j, (s.move i place seen j).Inside = (s.threads j).Inside :=
    forall_move (P := fun j thread => thread.Inside = (s.threads j).Inside) hinside fun _ _ => rfl
  refine ⟨?_, ?_, ?_, h.released, ?_, h.released_le, ?_, h.shared_eq⟩
  · simp only [hsame]
    exact h.value_iff
  · simp only [hsame]
    exact h.one
  · refine forall_move (P := fun _ thread => thread.Inside = true → thread.seen = s.stores.length)
      ?_ fun j _ => h.seen j
    intro hi
    rw [hinside] at hi
    exact Nat.le_antisymm hle (h.seen i hi ▸ hseen)
  · exact forall_move (P := fun _ thread => thread.seen ≤ s.stores.length) hle fun j _ => h.seen_le j
  · exact forall_move (P := fun _ thread => ∀ f value, thread.place = .loaded f value →
      value = s.shared) hfresh fun j _ => h.fresh j

theorem enter (h : s.Guarded first) {f : S → S} (hclear : s.mutex.flag.value = false) :
    Guarded first { s with
      mutex := ⟨⟨true, s.mutex.flag.released⟩⟩
      threads := s.move i (.entered f) (max (s.threads i).seen s.mutex.flag.released) } := by
  have hnone : ∀ j, ¬ (s.threads j).Inside = true := fun j hj =>
    absurd (h.value_iff.mpr ⟨j, hj⟩) (by rw [hclear]; exact Bool.false_ne_true)
  have hmax : max (s.threads i).seen s.mutex.flag.released = s.stores.length := by
    rw [h.released hclear, Nat.max_eq_right (h.seen_le i)]
  rw [hmax]
  have honly : ∀ j, (s.move i (.entered f) s.stores.length j).Inside = true → j = i :=
    forall_move (P := fun j thread => thread.Inside = true → j = i) (fun _ => rfl)
      fun j _ hj => absurd hj (hnone j)
  refine ⟨⟨fun _ => ⟨i, ?_⟩, fun _ => rfl⟩, ?_, ?_, nofun, ?_, h.released_le, ?_, h.shared_eq⟩
  · dsimp only
    rw [move_self]
    rfl
  · exact fun j k hj hk => (honly j hj).trans (honly k hk).symm
  · exact forall_move (P := fun _ thread => thread.Inside = true → thread.seen = s.stores.length)
      (fun _ => rfl) fun j _ hj => absurd hj (hnone j)
  · exact forall_move (P := fun _ thread => thread.seen ≤ s.stores.length) (Nat.le_refl _)
      fun j _ => h.seen_le j
  · exact forall_move (P := fun _ thread => ∀ f value, thread.place = .loaded f value →
      value = s.shared) nofun fun j _ => h.fresh j

theorem store (h : s.Guarded first) {f : S → S} {value : S}
    (hplace : (s.threads i).place = .loaded f value) :
    Guarded first { s with
      threads := s.move i .stored (s.stores.length + 1)
      shared := f value
      stores := s.stores ++ [f] } := by
  have hi : (s.threads i).Inside = true := by
    rw [Thread.Inside, hplace]
  have hheld := h.value_iff.mpr ⟨i, hi⟩
  have honly : ∀ j, j ≠ i → ¬ (s.threads j).Inside = true := fun j hj hinside =>
    hj (h.one j i hinside hi)
  have hlength : (s.stores ++ [f]).length = s.stores.length + 1 := List.length_append
  have hgrows : s.stores.length ≤ (s.stores ++ [f]).length := hlength ▸ Nat.le_succ _
  refine ⟨⟨fun _ => ⟨i, ?_⟩, fun _ => hheld⟩, ?_, ?_, ?_, ?_, ?_, ?_, ?_⟩
  · dsimp only
    rw [move_self]
    rfl
  · have hall : ∀ j, (s.move i .stored (s.stores.length + 1) j).Inside = true → j = i :=
      forall_move (P := fun j thread => thread.Inside = true → j = i) (fun _ => rfl)
        fun j hj hinside => absurd hinside (honly j hj)
    exact fun j k hj hk => (hall j hj).trans (hall k hk).symm
  · refine forall_move
      (P := fun _ thread => thread.Inside = true → thread.seen = (s.stores ++ [f]).length) ?_ ?_
    · exact fun _ => hlength.symm
    · exact fun j hj hinside => absurd hinside (honly j hj)
  · exact fun hclear => absurd (hheld.symm.trans hclear) (by decide)
  · exact forall_move (P := fun _ thread => thread.seen ≤ (s.stores ++ [f]).length)
      (Nat.le_of_eq hlength.symm) fun j _ => Nat.le_trans (h.seen_le j) hgrows
  · exact Nat.le_trans h.released_le hgrows
  · refine forall_move (P := fun _ thread => ∀ g x, thread.place = .loaded g x → x = f value) nofun
      fun j hj g x hloaded => ?_
    exact absurd (by rw [Thread.Inside, hloaded]) (honly j hj)
  · rw [List.foldl_append, ← h.shared_eq, h.fresh i f value hplace]
    rfl

theorem leave (h : s.Guarded first) (hi : (s.threads i).Inside = true) :
    Guarded first { s with
      mutex := ⟨⟨false, (s.threads i).seen⟩⟩
      threads := s.move i .outside (s.threads i).seen } := by
  have hnone : ∀ j, ¬ (s.move i .outside (s.threads i).seen j).Inside = true :=
    forall_move (P := fun _ thread => ¬ thread.Inside = true) Bool.false_ne_true
      fun j hj hinside => hj (h.one j i hinside hi)
  refine ⟨⟨nofun, fun ⟨j, hj⟩ => absurd hj (hnone j)⟩, ?_, ?_, fun _ => h.seen i hi, ?_,
    h.seen_le i, ?_, h.shared_eq⟩
  · exact fun j _ hj => absurd hj (hnone j)
  · exact fun j hj => absurd hj (hnone j)
  · exact forall_move (P := fun _ thread => thread.seen ≤ s.stores.length) (h.seen_le i)
      fun j _ => h.seen_le j
  · exact forall_move (P := fun _ thread => ∀ f value, thread.place = .loaded f value →
      value = s.shared) nofun fun j _ => h.fresh j

theorem step {e : Event ι S} (h : s.Guarded first) (hstep : s.Step e t) : t.Guarded first := by
  unfold Step Threads.step at hstep
  cases e with
  | lock i f =>
    dsimp only at hstep
    split at hstep
    · rename_i hplace
      cases hstep
      refine h.move ?_ (Nat.le_refl _) (h.seen_le i) nofun
      rw [Thread.Inside, Thread.Inside, hplace]
    · cases hstep
  | spin i =>
    dsimp only at hstep
    split at hstep
    · rename_i f hplace
      rcases hvalue : s.mutex.flag.value with _ | _
      · have henter := h.enter (i := i) (f := f) hvalue
        rw [SpinlockMutex.spin, AtomicFlag.testAndSet, hvalue] at hstep
        cases hstep
        exact henter
      · have hmove : Guarded first { s with
            threads := s.move i (.spinning f) (max (s.threads i).seen s.mutex.flag.released) } :=
          h.move (by rw [Thread.Inside, Thread.Inside, hplace]) (Nat.le_max_left _ _)
            (Nat.max_le.mpr ⟨h.seen_le i, h.released_le⟩) nofun
        have hflag : s.mutex = ⟨⟨true, s.mutex.flag.released⟩⟩ := by
          rw [← hvalue]
        rw [SpinlockMutex.spin, AtomicFlag.testAndSet, hvalue] at hstep
        cases hstep
        rw [hflag] at hmove
        exact hmove
    · cases hstep
  | load i =>
    dsimp only at hstep
    split at hstep
    · rename_i f hplace
      cases hstep
      refine h.move ?_ (Nat.le_refl _) (h.seen_le i) ?_
      · rw [Thread.Inside, Thread.Inside, hplace]
      · rintro _ _ ⟨⟩
        rfl
    · cases hstep
  | store i =>
    dsimp only at hstep
    split at hstep
    · rename_i f value hplace
      cases hstep
      exact h.store hplace
    · cases hstep
  | unlock i =>
    dsimp only at hstep
    split at hstep
    · rename_i hplace
      cases hstep
      exact h.leave (by rw [Thread.Inside, hplace])
    · cases hstep

end Guarded

/-- In every run of any number of threads at most one is between `lock` and `unlock`. The stores
that were made all happen before what it does next, so that there is no race, and the object is
what the updates make of it one after the other: none is lost. A thread that spins enters in its
next round exactly when no thread is inside. -/
theorem updates_are_serial (first : S) (es : List (Event ι S)) (s : Threads ι S)
    (h : Run Step (start first) es s) :
    (∀ i j, (s.threads i).Inside = true → (s.threads j).Inside = true → i = j) ∧
      (∀ i, (s.threads i).Inside = true → (s.threads i).seen = s.stores.length) ∧
      s.shared = s.stores.foldl (fun x f => f x) first ∧
      ∀ i f, (s.threads i).place = .spinning f → ∃ t, s.Step (.spin i) t ∧
        ((t.threads i).Inside = true ↔ ∀ j, (s.threads j).Inside = false) := by
  have hguarded : s.Guarded first :=
    h.invariant (fun _ _ _ hs hstep => hs.step hstep) (start_guarded first)
  refine ⟨hguarded.one, hguarded.seen, hguarded.shared_eq, fun i f hplace => ?_⟩
  have hstep : s.Step (.spin i) { s with
      mutex := ⟨⟨true, s.mutex.flag.released⟩⟩
      threads := s.move i (if s.mutex.flag.value then .spinning f else .entered f)
        (max (s.threads i).seen s.mutex.flag.released) } := by
    unfold Step Threads.step
    dsimp only
    rw [hplace]
    rfl
  refine ⟨_, hstep, ?_⟩
  dsimp only
  rw [move_self]
  rcases hvalue : s.mutex.flag.value with _ | _
  · refine ⟨fun _ j => Bool.eq_false_iff.mpr fun hj => ?_, fun _ => rfl⟩
    exact absurd (hguarded.value_iff.mpr ⟨j, hj⟩) (by rw [hvalue]; exact Bool.false_ne_true)
  · obtain ⟨j, hj⟩ := hguarded.value_iff.mp hvalue
    exact ⟨nofun, fun hnone => absurd (hj.symm.trans (hnone j)) (by decide)⟩

theorem updates_are_serial_two : ∃ s : Threads Bool ℕ, s.stores.length = 2 ∧ s.shared = 12 ∧
    ((s.threads true).seen = 2) := by
  obtain ⟨s, hrun, hstores, hlength, hinside⟩ : ∃ s : Threads Bool ℕ,
      Run Step (start 5) [.lock false (· + 1), .spin false, .lock true (2 * ·), .load false,
        .spin true, .store false, .spin true, .unlock false, .spin true, .load true, .store true] s ∧
      s.stores = [(· + 1), (2 * ·)] ∧ s.stores.length = 2 ∧ (s.threads true).Inside = true :=
    ⟨_, Run.iff_foldlM.mpr rfl, rfl, rfl, rfl⟩
  obtain ⟨-, hseen, hshared, -⟩ := updates_are_serial 5 _ s hrun
  refine ⟨s, hlength, ?_, (hseen true hinside).trans hlength⟩
  rw [hshared, hstores]
  rfl

end Threads
end Eestv
