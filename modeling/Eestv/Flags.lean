import Eestv.Library.FlagMirror
import Mathlib.Algebra.Ring.Nat
import Mathlib.Data.Fin.Basic

/-! One bit for each value of an enumeration in a 32-bit word. -/

namespace Eestv

instance neZero_bits : NeZero 32 := ⟨Nat.succ_ne_zero 31⟩

/-- An enumeration whose values are bit positions of a `uint32_t`. -/
class FlagType (F : Type) where
  bit : F → Fin 32
  bit_injective : Function.Injective bit

structure Flags (F : Type) where
  flags : BitVec 32 := 0#32
deriving DecidableEq, Repr

namespace Flags

variable {F : Type} [FlagType F]

def setFlag (f : Flags F) (flag : F) : Flags F :=
  ⟨f.flags ||| 1#32 <<< (FlagType.bit flag).val⟩

def clearFlag (f : Flags F) (flag : F) : Flags F :=
  ⟨f.flags &&& ~~~(1#32 <<< (FlagType.bit flag).val)⟩

def getFlag (f : Flags F) (flag : F) : Bool :=
  f.flags &&& 1#32 <<< (FlagType.bit flag).val != 0#32

def clearAll (_ : Flags F) : Flags F := ⟨0#32⟩

theorem mask_getLsbD (i j : Fin 32) : (1#32 <<< i.val).getLsbD j = decide (i = j) := by
  revert i j
  decide

theorem getFlag_eq (f : Flags F) (flag : F) :
    f.getFlag flag = f.flags.getLsbD (FlagType.bit flag) := by
  unfold getFlag
  generalize FlagType.bit flag = i
  rcases hbit : f.flags.getLsbD i with _ | _
  · have hzero : f.flags &&& 1#32 <<< i.val = 0#32 := by
      apply BitVec.eq_of_getLsbD_eq
      intro j hj
      have hmask := mask_getLsbD i ⟨j, hj⟩
      rw [BitVec.getLsbD_and, BitVec.getLsbD_zero]
      dsimp only at hmask
      rw [hmask]
      by_cases hij : i = ⟨j, hj⟩
      · subst hij
        simp only [hbit, Bool.false_and]
      · simp only [hij, decide_false, Bool.and_false]
    simp only [hzero, bne_self_eq_false]
  · have hset : (f.flags &&& 1#32 <<< i.val).getLsbD i = true := by
      simp only [BitVec.getLsbD_and, hbit, mask_getLsbD, decide_true, Bool.and_true]
    apply bne_iff_ne.mpr
    intro hzero
    rw [hzero, BitVec.getLsbD_zero] at hset
    cases hset

theorem bit_eq_iff {a b : F} : FlagType.bit a = FlagType.bit b ↔ a = b :=
  FlagType.bit_injective.eq_iff

variable [DecidableEq F] (f : Flags F) (a b : F)

@[simp] theorem getFlag_setFlag :
    (f.setFlag a).getFlag b = (decide (a = b) || f.getFlag b) := by
  rw [getFlag_eq, getFlag_eq, setFlag, BitVec.getLsbD_or, mask_getLsbD, Bool.or_comm]
  simp only [bit_eq_iff]

@[simp] theorem getFlag_clearFlag :
    (f.clearFlag a).getFlag b = (!decide (a = b) && f.getFlag b) := by
  rw [getFlag_eq, getFlag_eq, clearFlag, BitVec.getLsbD_and, BitVec.getLsbD_not, mask_getLsbD,
    Bool.and_comm]
  simp only [(FlagType.bit b).isLt, decide_true, Bool.true_and, bit_eq_iff]

theorem setFlag_update : (f.setFlag a).getFlag = Function.update f.getFlag a true := by
  funext b
  rw [getFlag_setFlag, Function.update_apply]
  by_cases hb : b = a
  · simp only [hb, decide_true, Bool.true_or, if_true]
  · simp only [Ne.symm hb, hb, decide_false, Bool.false_or, if_false]

theorem clearFlag_update : (f.clearFlag a).getFlag = Function.update f.getFlag a false := by
  funext b
  rw [getFlag_clearFlag, Function.update_apply]
  by_cases hb : b = a
  · simp only [hb, decide_true, Bool.not_true, Bool.false_and, if_true]
  · simp only [Ne.symm hb, hb, decide_false, Bool.not_false, Bool.true_and, if_false]

section Mirror

variable {H O C : Type} {lower upper : List F} {p : H → Option F} {q : O → Option F}
  {c : IoContext H O C} {hand : Option F} {f : Flags F} {a : F}

theorem mirror_setFlag (hm : FlagMirror lower upper p q f.getFlag c none)
    (ha : f.getFlag a = false) :
    FlagMirror lower upper p q (f.setFlag a).getFlag c (some a) := by
  rw [setFlag_update]
  exact hm.set ha

theorem mirror_clearFlag (hm : FlagMirror lower upper p q f.getFlag c (some a)) :
    FlagMirror lower upper p q (f.clearFlag a).getFlag c none := by
  rw [clearFlag_update]
  exact hm.clear

theorem mirror_setFlag_of_not_mem (hm : FlagMirror lower upper p q f.getFlag c hand)
    (hl : a ∉ lower) (hu : a ∉ upper) :
    FlagMirror lower upper p q (f.setFlag a).getFlag c hand := by
  rw [setFlag_update]
  exact hm.update_of_not_mem hl hu

theorem mirror_clearFlag_of_not_mem (hm : FlagMirror lower upper p q f.getFlag c hand)
    (ha : a ∉ upper) : FlagMirror lower upper p q (f.clearFlag a).getFlag c hand := by
  rw [clearFlag_update]
  exact hm.clear_of_not_mem ha

theorem mirror_raise {o : O} (hm : FlagMirror lower upper p q f.getFlag c hand)
    (ho : q o = some a) (ha : a ∉ upper) :
    FlagMirror lower upper p q (f.setFlag a).getFlag (c.start o) hand := by
  rw [setFlag_update]
  exact hm.raise ho ha

end Mirror

omit [DecidableEq F] in
@[simp] theorem getFlag_empty : ({} : Flags F).getFlag b = false := by
  rw [getFlag_eq, BitVec.getLsbD_zero]

end Flags
end Eestv
