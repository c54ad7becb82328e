import Mathlib.Data.Nat.Digits.Defs
import Mathlib.Data.List.Basic

/-! Object representations of fixed-width integers: the bytes of an `n`-byte
word in memory, for either byte order of the host. -/

inductive ByteOrder where
  | little
  | big
deriving DecidableEq, Repr

namespace ByteOrder

def lowBytes : ℕ → ℕ → List UInt8
  | 0, _ => []
  | n + 1, v => UInt8.ofNat v :: lowBytes n (v / 256)

def ofLowBytes : List UInt8 → ℕ
  | [] => 0
  | x :: xs => x.toNat + 256 * ofLowBytes xs

@[simp] theorem lowBytes_length (n v : ℕ) : (lowBytes n v).length = n := by
  induction n generalizing v with
  | zero => rfl
  | succ n ih => rw [lowBytes, List.length_cons, ih]

theorem ofLowBytes_lowBytes (n v : ℕ) : ofLowBytes (lowBytes n v) = v % 256 ^ n := by
  induction n generalizing v with
  | zero => rw [lowBytes, ofLowBytes, pow_zero, Nat.mod_one]
  | succ n ih =>
    have hbyte : (UInt8.ofNat v).toNat = v % 256 := UInt8.toNat_ofNat'
    rw [lowBytes, ofLowBytes, ih, hbyte, pow_succ' 256 n, Nat.mod_mul]

theorem ofLowBytes_lt (xs : List UInt8) : ofLowBytes xs < 256 ^ xs.length := by
  induction xs with
  | nil => exact Nat.one_pos
  | cons x xs ih =>
    have hx := x.toNat_lt
    rw [ofLowBytes, List.length_cons, pow_succ]
    omega

theorem lowBytes_ofLowBytes (xs : List UInt8) : lowBytes xs.length (ofLowBytes xs) = xs := by
  induction xs with
  | nil => rfl
  | cons x xs ih =>
    have hx := x.toNat_lt
    have hdiv : (x.toNat + 256 * ofLowBytes xs) / 256 = ofLowBytes xs := by omega
    have hlow : UInt8.ofNat (x.toNat + 256 * ofLowBytes xs) = x := by
      apply UInt8.toNat_inj.mp
      rw [UInt8.toNat_ofNat']
      omega
    rw [List.length_cons, lowBytes, ofLowBytes, hdiv, hlow, ih]

variable {n : ℕ}

/-- What `memcpy` reads out of an `n`-byte integer object. -/
def encode (o : ByteOrder) (v : BitVec (8 * n)) : List UInt8 :=
  match o with
  | little => lowBytes n v.toNat
  | big => (lowBytes n v.toNat).reverse

def decode (o : ByteOrder) (n : ℕ) (xs : List UInt8) : BitVec (8 * n) :=
  match o with
  | little => BitVec.ofNat (8 * n) (ofLowBytes xs)
  | big => BitVec.ofNat (8 * n) (ofLowBytes xs.reverse)

@[simp] theorem encode_length (o : ByteOrder) (v : BitVec (8 * n)) : (o.encode v).length = n := by
  cases o
  · exact lowBytes_length n v.toNat
  · rw [encode, List.length_reverse, lowBytes_length]

theorem bitVec_lowBytes (v : BitVec (8 * n)) :
    BitVec.ofNat (8 * n) (ofLowBytes (lowBytes n v.toNat)) = v := by
  have hpow : 256 ^ n = 2 ^ (8 * n) := by rw [pow_mul]; rfl
  rw [ofLowBytes_lowBytes, hpow, Nat.mod_eq_of_lt v.isLt, BitVec.ofNat_toNat, BitVec.setWidth_eq]

theorem decode_encode (o : ByteOrder) (v : BitVec (8 * n)) : o.decode n (o.encode v) = v := by
  cases o
  · exact bitVec_lowBytes v
  · rw [decode, encode, List.reverse_reverse, bitVec_lowBytes]

theorem lowBytes_bitVec {xs : List UInt8} (h : xs.length = n) :
    lowBytes n (BitVec.ofNat (8 * n) (ofLowBytes xs)).toNat = xs := by
  subst h
  have hpow : 256 ^ xs.length = 2 ^ (8 * xs.length) := by rw [pow_mul]; rfl
  rw [BitVec.toNat_ofNat, ← hpow, Nat.mod_eq_of_lt (ofLowBytes_lt xs), lowBytes_ofLowBytes]

theorem encode_decode (o : ByteOrder) {xs : List UInt8} (h : xs.length = n) :
    o.encode (o.decode n xs) = xs := by
  cases o
  · exact lowBytes_bitVec h
  · rw [encode, decode, lowBytes_bitVec (by rw [List.length_reverse, h]), List.reverse_reverse]

/-- What a host of byte order `o'` makes of an integer of a host of byte order `o`. -/
def reread (o o' : ByteOrder) (v : BitVec (8 * n)) : BitVec (8 * n) := o'.decode n (o.encode v)

theorem encode_reread (o o' : ByteOrder) (v : BitVec (8 * n)) :
    o'.encode (o.reread o' v) = o.encode v := o'.encode_decode (o.encode_length v)

theorem reread_self (o : ByteOrder) (v : BitVec (8 * n)) : o.reread o v = v := o.decode_encode v

end ByteOrder
