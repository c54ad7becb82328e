import Eestv.Library.IoContext
import Eestv.Library.Runs

/-! A callback that is handed over at most once, held, and posted at most once. A component
whose steps are steps here neither loses the callback nor releases it twice: what it was handed
is either still held or posted. Most components hold it in a field, and post a handler that calls
it. -/

namespace IoContext

variable {H O C K : Type} {p : H → Option K}

def posts (p : H → Option K) (l : List (Entry H O C)) : List K :=
  l.filterMap fun
    | .posted h => p h
    | _ => none

@[simp] theorem posts_nil : posts p ([] : List (Entry H O C)) = [] := rfl

@[simp] theorem posts_append (l l' : List (Entry H O C)) :
    posts p (l ++ l') = posts p l ++ posts p l' := List.filterMap_append

@[simp] theorem posts_posted (h : H) (l : List (Entry H O C)) :
    posts p (.posted h :: l) = (p h).toList ++ posts p l := by
  unfold posts
  cases hp : p h <;> simp only [List.filterMap_cons, hp, Option.toList, List.nil_append,
    List.singleton_append]

@[simp] theorem posts_ran (h : H) (l : List (Entry H O C)) :
    posts p (.ran h :: l) = posts p l := rfl

@[simp] theorem posts_started (o : O) (l : List (Entry H O C)) :
    posts p (.started o :: l) = posts p l := rfl

@[simp] theorem posts_finished (o : O) (l : List (Entry H O C)) :
    posts p (.finished o :: l) = posts p l := rfl

@[simp] theorem posts_called (x : C) (l : List (Entry H O C)) :
    posts p (.called x :: l) = posts p l := rfl

theorem mem_posts {l : List (Entry H O C)} {k : K} :
    k ∈ posts p l ↔ ∃ h, .posted h ∈ l ∧ p h = some k := by
  unfold posts
  rw [List.mem_filterMap]
  constructor
  · rintro ⟨x, hmem, hx⟩
    split at hx
    · exact ⟨_, hmem, hx⟩
    · cases hx
  · rintro ⟨h, hmem, hp⟩
    exact ⟨_, hmem, hp⟩

theorem mem_posts_iff {l : List (Entry H O C)} {k : K} {h : H}
    (hp : ∀ x, p x = some k ↔ x = h) : k ∈ posts p l ↔ .posted h ∈ l := by
  rw [mem_posts]
  constructor
  · rintro ⟨x, hmem, hx⟩
    rwa [(hp x).mp hx] at hmem
  · exact fun hmem => ⟨h, hmem, (hp h).mpr rfl⟩

/-- What a held callback waits for in a component with a handler for the start and one for the
stop: the latter when the component does not run, else the former or an operation. -/
def Awaits (start stop : H) (running : Bool) (c : IoContext H O C) : Prop :=
  running = false ∧ stop ∈ c.posted ∨ start ∈ c.posted ∨ c.operations ≠ []

section Awaits

variable {c d : IoContext H O C} {start stop h : H} {running : Bool}

theorem awaits_of_operations (hoperations : c.operations ≠ []) : c.Awaits start stop running :=
  Or.inr (Or.inr hoperations)

theorem Awaits.not_idle (hc : c.Awaits start stop running) : ¬ c.Idle := by
  rintro ⟨hposted, hnone⟩
  rw [Awaits, hposted] at hc
  rcases hc with ⟨-, hmem⟩ | hmem | hoperations
  · exact List.not_mem_nil hmem
  · exact List.not_mem_nil hmem
  · exact hoperations hnone

theorem Awaits.take [DecidableEq H] (hc : c.Awaits start stop running) (ht : c.take h = some d)
    (hstart : start ≠ h) (hstop : running = true ∨ stop ≠ h) : d.Awaits start stop running := by
  obtain ⟨-, rfl⟩ := take_eq_some.mp ht
  rcases hc with ⟨hrunning, hmem⟩ | hmem | hoperations
  · have hne := hstop.resolve_left (by rw [hrunning]; exact Bool.false_ne_true)
    exact Or.inl ⟨hrunning, (List.mem_erase_of_ne hne).mpr hmem⟩
  · exact Or.inr (Or.inl ((List.mem_erase_of_ne hstart).mpr hmem))
  · exact awaits_of_operations hoperations

end Awaits

end IoContext

/-- Whether a callback was handed over, which is still held, and those that were released, oldest
first. -/
@[ext] structure Handover (K : Type) where
  signaled : Bool := false
  held : Option K := none
  released : List K := []

namespace Handover
open Runs

variable {α K : Type} {accepts : α → Option (Option K)} {s t : Handover K} {a : α}

def release (s : Handover K) : Handover K := ⟨s.signaled, none, s.released ++ s.held.toList⟩

/-- `accepts` tells what an action hands over, which may be an empty callback. -/
inductive Step (accepts : α → Option (Option K)) : Handover K → α → Handover K → Prop
  | accept {s : Handover K} {a : α} {callback : Option K} : accepts a = some callback →
      s.signaled = false → Step accepts s a ⟨true, callback, s.released⟩
  | release {s : Handover K} {a : α} : accepts a = none → Step accepts s a s.release
  | keep {s : Handover K} {a : α} : accepts a = none → Step accepts s a s

def Passes (s t : Handover K) : Prop := t = s ∨ t = s.release

theorem Passes.refl (s : Handover K) : s.Passes s := Or.inl rfl

theorem Passes.step (h : s.Passes t) (ha : accepts a = none) : Step accepts s a t := by
  rcases h with rfl | rfl
  · exact .keep ha
  · exact .release ha

def Coherent (s : Handover K) : Prop := s.signaled = false → s.held = none ∧ s.released = []

theorem Coherent.empty : ({} : Handover K).Coherent := fun _ => ⟨rfl, rfl⟩

theorem Coherent.signaled_of_held (hs : s.Coherent) (hheld : s.held ≠ none) :
    s.signaled = true := by
  rcases hsignaled : s.signaled with _ | _
  · exact absurd (hs hsignaled).1 hheld
  · rfl

theorem Step.coherent (h : Step accepts s a t) (hs : s.Coherent) : t.Coherent := by
  cases h with
  | accept _ _ =>
    intro hsignaled
    cases hsignaled
  | release _ =>
    intro hsignaled
    obtain ⟨hheld, hreleased⟩ := hs hsignaled
    simp only [Handover.release, hheld, hreleased, Option.toList_none, List.append_nil, and_self]
  | keep _ => exact hs

theorem Step.signaled (h : Step accepts s a t) (hs : s.signaled = true) : t.signaled = true := by
  cases h with
  | accept _ _ => rfl
  | release _ => exact hs
  | keep _ => exact hs

/-- What was handed over is the callback `k`, and it is not lost. -/
def Has (k : K) (s : Handover K) : Prop :=
  s.signaled = true ∧ s.released ++ s.held.toList = [k]

theorem Has.released_eq {k : K} (hs : s.Has k) (hheld : s.held = none) : s.released = [k] := by
  have h := hs.2
  rwa [hheld, Option.toList_none, List.append_nil] at h

theorem Has.released_nil {j k : K} (hs : s.Has k) (hheld : s.held = some j) : s.released = [] := by
  have h := congrArg List.length hs.2
  rw [hheld, Option.toList_some, List.length_append, List.length_singleton,
    List.length_singleton] at h
  exact List.eq_nil_of_length_eq_zero (Nat.succ.inj h)

theorem Step.has {k : K} (h : Step accepts s a t) (hs : s.Has k) : t.Has k := by
  cases h with
  | accept _ hsignaled =>
    rw [hs.1] at hsignaled
    cases hsignaled
  | release _ =>
    refine ⟨hs.1, ?_⟩
    rw [Handover.release, Option.toList_none, List.append_nil]
    exact hs.2
  | keep _ => exact hs

theorem Step.has_of_accepts {k : K} (h : Step accepts s a t) (hs : s.Coherent)
    (ha : accepts a = some (some k)) : t.Has k := by
  cases h with
  | accept hcallback hsignaled =>
    cases hcallback.symm.trans ha
    refine ⟨rfl, ?_⟩
    rw [(hs hsignaled).2]
    rfl
  | release hnone =>
    rw [hnone] at ha
    cases ha
  | keep hnone =>
    rw [hnone] at ha
    cases ha

/-- Once handed over, a callback stays held until it is posted, once. -/
theorem has_of_run {k : K} {as : List α} (h : Run (Step accepts) {} as t)
    (hmem : a ∈ as) (ha : accepts a = some (some k)) : t.Has k := by
  obtain ⟨bs, cs, rfl⟩ := List.append_of_mem hmem
  obtain ⟨u, hbs, hrest⟩ := h.of_append
  have hu : u.Coherent := hbs.invariant (fun _ _ _ hs hstep => hstep.coherent hs) Coherent.empty
  cases hrest with
  | cons hstep hcs =>
    have hhas := hstep.has_of_accepts hu ha
    exact hcs.invariant (fun _ _ _ hs hstep => hstep.has hs) hhas

/-! ### A callback in a field -/

section Loop
open IoContext

variable {σ H O C : Type} {p : H → Option K} {signaled : Bool} {held : Option K}
  {c d : IoContext H O C} {h : H} {o : O}

/-- The callback of a component that holds it in a field; its handlers carry it as `p` tells. -/
def ofLoop (p : H → Option K) (signaled : Bool) (held : Option K) (c : IoContext H O C) :
    Handover K :=
  ⟨signaled, held, posts p c.log⟩

theorem ofLoop_release (hp : p h = held) :
    ofLoop p signaled none (c.post h) = (ofLoop p signaled held c).release := by
  simp [ofLoop, release, hp]

theorem ofLoop_post (hp : p h = none) :
    ofLoop p signaled held (c.post h) = ofLoop p signaled held c := by
  simp [ofLoop, hp]

@[simp] theorem ofLoop_start :
    ofLoop p signaled held (c.start o) = ofLoop p signaled held c := by
  simp [ofLoop]

@[simp] theorem ofLoop_call (x : C) :
    ofLoop p signaled held (c.call x) = ofLoop p signaled held c := by
  simp [ofLoop]

theorem ofLoop_take [DecidableEq H] (ht : c.take h = some d) :
    ofLoop p signaled held d = ofLoop p signaled held c := by
  simp [ofLoop, take_log ht]

theorem ofLoop_finish [DecidableEq O] (ht : c.finish o = some d) :
    ofLoop p signaled held d = ofLoop p signaled held c := by
  simp [ofLoop, finish_log ht]

theorem Step.of_accept {callback : Option K} (ha : accepts a = some callback)
    (hsignaled : signaled = false) (hp : p h = none) :
    Step accepts (ofLoop p signaled held c) a (ofLoop p true callback (c.post h)) := by
  rw [ofLoop_post hp]
  exact .accept ha hsignaled

theorem run_of_steps {step : σ → α → σ → Prop} {f : σ → Handover K} {x y : σ} {reset : α}
    {as : List α} (hstep : ∀ s a t, a ≠ reset → step s a t → Step accepts (f s) a (f t))
    (hempty : f x = {}) (h : Run step x as y) (hreset : reset ∉ as) :
    Run (Step accepts) {} as (f y) := by
  rw [← hempty]
  exact h.simulates_of_not_mem hstep hreset

end Loop

end Handover
