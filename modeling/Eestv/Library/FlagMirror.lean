import Eestv.Library.IoContext
import Mathlib.Logic.Function.Basic

/-! Flags that mirror the work of an event loop. While a handler runs, the piece of work
that brought it about is in hand: it is no longer pending, and its flag is still set. -/

/-- The pieces of work of the kind `f`, pending, outstanding or in hand. -/
def IoContext.workWith {H O C F : Type} [DecidableEq F] (p : H → Option F) (q : O → Option F)
    (c : IoContext H O C) (hand : Option F) (f : F) : ℕ :=
  c.work p q f + if hand = some f then 1 else 0

/-- The flags in `lower` are set only while there is work of their kind, the flags in `upper`
whenever there is, and then it is a single piece. -/
structure FlagMirror {H O C F : Type} [DecidableEq F] (lower upper : List F) (p : H → Option F)
    (q : O → Option F) (flag : F → Bool) (c : IoContext H O C) (hand : Option F) : Prop where
  toNat_le : ∀ f ∈ lower, (flag f).toNat ≤ c.workWith p q hand f
  le_toNat : ∀ f ∈ upper, c.workWith p q hand f ≤ (flag f).toNat

namespace FlagMirror

open Function IoContext

variable {H O C F : Type} [DecidableEq F] {lower upper : List F} {p : H → Option F}
  {q : O → Option F} {flag flag' : F → Bool} {c d : IoContext H O C} {hand hand' : Option F}
  {f : F}

theorem of_clear (hflag : ∀ f, flag f = false) (hwork : ∀ f, c.work p q f = 0) :
    FlagMirror lower upper p q flag c none := by
  constructor
  · intro f _
    rw [hflag]
    exact Nat.zero_le _
  · intro f _
    rw [workWith, hwork]
    exact Nat.zero_le _

theorem congr (hm : FlagMirror lower upper p q flag c hand)
    (hflag : ∀ f, f ∈ lower ∨ f ∈ upper → flag' f = flag f)
    (hwork : ∀ f, f ∈ lower ∨ f ∈ upper →
      d.workWith p q hand' f = c.workWith p q hand f) :
    FlagMirror lower upper p q flag' d hand' := by
  constructor
  · intro f hf
    rw [hflag f (Or.inl hf), hwork f (Or.inl hf)]
    exact hm.toNat_le f hf
  · intro f hf
    rw [hflag f (Or.inr hf), hwork f (Or.inr hf)]
    exact hm.le_toNat f hf

theorem take [DecidableEq H] {h : H} (hm : FlagMirror lower upper p q flag c none)
    (ht : c.take h = some d) : FlagMirror lower upper p q flag d (p h) := by
  apply hm.congr (fun _ _ => rfl)
  intro f _
  exact work_take ht

theorem finish [DecidableEq O] {o : O} (hm : FlagMirror lower upper p q flag c none)
    (ht : c.finish o = some d) : FlagMirror lower upper p q flag d (q o) := by
  apply hm.congr (fun _ _ => rfl)
  intro f _
  exact work_finish ht

theorem post {h : H} (hm : FlagMirror lower upper p q flag c (p h)) :
    FlagMirror lower upper p q flag (c.post h) none := by
  apply hm.congr (fun _ _ => rfl)
  intro f _
  exact work_post

theorem start {o : O} (hm : FlagMirror lower upper p q flag c (q o)) :
    FlagMirror lower upper p q flag (c.start o) none := by
  apply hm.congr (fun _ _ => rfl)
  intro f _
  exact work_start

theorem call {x : C} (hm : FlagMirror lower upper p q flag c hand) :
    FlagMirror lower upper p q flag (c.call x) hand :=
  hm.congr (fun _ _ => rfl) (fun _ _ => rfl)

theorem workWith_of_ne {g : F} (h : f ≠ g) :
    c.workWith p q (some f) g = c.workWith p q none g := by
  simp only [workWith, Option.some.injEq, h, reduceCtorEq, if_false]

theorem ne_of_not_listed {α : Type} {a b : α} {xs ys : List α} (hx : a ∉ xs) (hy : a ∉ ys)
    (hb : b ∈ xs ∨ b ∈ ys) : a ≠ b := by
  rintro rfl
  exact hb.elim hx hy

theorem grasp (hm : FlagMirror lower upper p q flag c none) (hl : f ∉ lower) (hu : f ∉ upper) :
    FlagMirror lower upper p q flag c (some f) := by
  apply hm.congr (fun _ _ => rfl)
  intro g hg
  exact workWith_of_ne (ne_of_not_listed hl hu hg)

theorem drop (hm : FlagMirror lower upper p q flag c (some f)) (hl : f ∉ lower)
    (hu : f ∉ upper) : FlagMirror lower upper p q flag c none := by
  apply hm.congr (fun _ _ => rfl)
  intro g hg
  exact (workWith_of_ne (ne_of_not_listed hl hu hg)).symm

theorem release (hm : FlagMirror lower upper p q flag c (some f)) (hl : f ∉ lower) :
    FlagMirror lower upper p q flag c none := by
  have hle : ∀ g, c.workWith p q none g ≤ c.workWith p q (some f) g :=
    fun g => Nat.add_le_add_left (Nat.zero_le _) _
  constructor
  · intro g hg
    have hne : f ≠ g := by
      rintro rfl
      exact hl hg
    have hbound := hm.toNat_le g hg
    rwa [workWith_of_ne hne] at hbound
  · intro g hg
    exact Nat.le_trans (hle g) (hm.le_toNat g hg)

theorem update_of_not_mem {b : Bool} (hm : FlagMirror lower upper p q flag c hand)
    (hl : f ∉ lower) (hu : f ∉ upper) :
    FlagMirror lower upper p q (update flag f b) c hand := by
  refine hm.congr ?_ (fun _ _ => rfl)
  intro g hg
  exact update_of_ne (ne_of_not_listed hl hu hg).symm b flag

theorem clear_of_not_mem (hm : FlagMirror lower upper p q flag c hand) (hf : f ∉ upper) :
    FlagMirror lower upper p q (update flag f false) c hand := by
  constructor
  · intro g hg
    have hle := hm.toNat_le g hg
    rw [update_apply]
    split
    · exact Nat.zero_le _
    · exact hle
  · intro g hg
    have hne : g ≠ f := by
      rintro rfl
      exact hf hg
    rw [update_of_ne hne]
    exact hm.le_toNat g hg

theorem clear (hm : FlagMirror lower upper p q flag c (some f)) :
    FlagMirror lower upper p q (update flag f false) c none := by
  constructor
  · intro g hg
    have hle := hm.toNat_le g hg
    rw [update_apply]
    split
    · exact Nat.zero_le _
    · rwa [workWith_of_ne (Ne.symm ‹_›)] at hle
  · intro g hg
    have hle := hm.le_toNat g hg
    rw [update_apply]
    split
    · rename_i heq
      have hbool := Bool.toNat_le (flag g)
      simp only [workWith, heq, reduceCtorEq, if_true, if_false, Bool.toNat_false] at *
      omega
    · rwa [workWith_of_ne (Ne.symm ‹_›)] at hle

theorem set (hm : FlagMirror lower upper p q flag c none) (hf : flag f = false) :
    FlagMirror lower upper p q (update flag f true) c (some f) := by
  constructor
  · intro g hg
    have hle := hm.toNat_le g hg
    rw [update_apply]
    split
    · rename_i heq
      simp only [workWith, heq, if_true, Bool.toNat_true]
      omega
    · rwa [workWith_of_ne (Ne.symm ‹_›)]
  · intro g hg
    have hle := hm.le_toNat g hg
    rw [update_apply]
    split
    · rename_i heq
      simp only [workWith, heq, hf, reduceCtorEq, if_true, if_false, Bool.toNat_false,
        Bool.toNat_true] at *
      omega
    · rwa [workWith_of_ne (Ne.symm ‹_›)]

theorem raise {o : O} (hm : FlagMirror lower upper p q flag c hand) (ho : q o = some f)
    (hf : f ∉ upper) : FlagMirror lower upper p q (update flag f true) (c.start o) hand := by
  have hstart : ∀ g, (c.start o).workWith p q hand g =
      c.workWith p q hand g + if f = g then 1 else 0 := by
    intro g
    simp only [workWith, work_start, ho, Option.some.injEq]
    omega
  constructor
  · intro g hg
    have hle := hm.toNat_le g hg
    rw [update_apply, hstart]
    split
    · simp only [*, Bool.toNat_true, if_true]
      omega
    · exact Nat.le_add_right_of_le hle
  · intro g hg
    have hne : f ≠ g := by
      rintro rfl
      exact hf hg
    rw [update_of_ne (Ne.symm hne), hstart, if_neg hne]
    exact hm.le_toNat g hg

theorem work_pos (hm : FlagMirror lower upper p q flag c none) (hf : f ∈ lower)
    (hflag : flag f = true) : 0 < c.work p q f := by
  have hle := hm.toNat_le f hf
  rw [hflag] at hle
  exact hle

theorem work_le (hm : FlagMirror lower upper p q flag c none) (hf : f ∈ upper) :
    c.work p q f ≤ (flag f).toNat :=
  hm.le_toNat f hf

theorem work_le_one (hm : FlagMirror lower upper p q flag c none) (hf : f ∈ upper) :
    c.work p q f ≤ 1 :=
  Nat.le_trans (hm.work_le hf) (Bool.toNat_le (flag f))

theorem work_eq_zero (hm : FlagMirror lower upper p q flag c none) (hf : f ∈ upper)
    (hflag : flag f = false) : c.work p q f = 0 := by
  have hle := hm.work_le hf
  rw [hflag] at hle
  exact Nat.le_zero.mp hle

theorem flag_of_work_pos (hm : FlagMirror lower upper p q flag c none) (hf : f ∈ upper)
    (hwork : 0 < c.work p q f) : flag f = true := by
  rcases hflag : flag f with _ | _
  · rw [hm.work_eq_zero hf hflag] at hwork
    cases hwork
  · rfl

theorem flag_of_hand (hm : FlagMirror lower upper p q flag c (some f)) (hf : f ∈ upper) :
    flag f = true := by
  have hle := hm.le_toNat f hf
  rcases hflag : flag f with _ | _
  · simp only [workWith, hflag, if_true, Bool.toNat_false, Nat.le_zero] at hle
    cases hle
  · rfl

theorem work_eq (hm : FlagMirror lower upper p q flag c none) (hl : f ∈ lower)
    (hu : f ∈ upper) : c.work p q f = (flag f).toNat :=
  Nat.le_antisymm (hm.work_le hu) (hm.toNat_le f hl)

theorem flag_of_work_eq_zero (hm : FlagMirror lower upper p q flag c none) (hf : f ∈ lower)
    (hwork : c.work p q f = 0) : flag f = false := by
  rcases hflag : flag f with _ | _
  · rfl
  · have hpos := hm.work_pos hf hflag
    rw [hwork] at hpos
    cases hpos

theorem flag_of_operations (hm : FlagMirror lower upper p q flag c none) (hf : f ∈ lower)
    (hp : ∀ h, p h ≠ some f) (hnone : c.operations = []) : flag f = false := by
  apply hm.flag_of_work_eq_zero hf
  rw [work_of_operations hp, hnone, List.countP_nil]

def Holds {K : Type} (fs : List F) (flag : F → Bool) (held : Option K) : Prop :=
  held ≠ none → ∃ f ∈ fs, flag f = true

theorem operations_of_holds {K : Type} {held : Option K}
    (hm : FlagMirror lower upper p q flag c none) (hp : ∀ f ∈ lower, ∀ h, p h ≠ some f)
    (hholds : Holds lower flag held) (hheld : held ≠ none) : c.operations ≠ [] := by
  intro hnone
  obtain ⟨f, hf, hflag⟩ := hholds hheld
  rw [hm.flag_of_operations hf (hp f hf) hnone] at hflag
  cases hflag

end FlagMirror
