import Eestv.Library.StdString

/-! A `std::string` as bytes and as text: each byte is the character of its number. -/

namespace StdString
open Decimal

def textOf (bytes : List UInt8) : List Char := bytes.map fun byte => Char.ofNat byte.toNat

def bytesOf (text : List Char) : List UInt8 := text.map fun c => UInt8.ofNat c.toNat

def Narrow (text : List Char) : Prop := ∀ c ∈ text, c.toNat < 256

variable {bytes bytes' : List UInt8} {text text' : List Char} {c : Char}

theorem toNat_charOfNat {n : ℕ} (h : n < 256) : (Char.ofNat n).toNat = n := by
  have hvalid : n.isValidChar := Or.inl (Nat.lt_trans h (by decide))
  rw [Char.ofNat, dif_pos hvalid]
  rfl

theorem bytesOf_textOf (bytes : List UInt8) : bytesOf (textOf bytes) = bytes := by
  unfold bytesOf textOf
  rw [List.map_map]
  refine (List.map_congr_left fun byte _ => ?_).trans (List.map_id bytes)
  change UInt8.ofNat (Char.ofNat byte.toNat).toNat = byte
  rw [toNat_charOfNat byte.toNat_lt, UInt8.ofNat_toNat]

theorem textOf_bytesOf (h : Narrow text) : textOf (bytesOf text) = text := by
  unfold bytesOf textOf
  rw [List.map_map]
  refine (List.map_congr_left fun c hc => ?_).trans (List.map_id text)
  change Char.ofNat (UInt8.ofNat c.toNat).toNat = c
  rw [UInt8.toNat_ofNat_of_lt' (h c hc), Char.ofNat_toNat]

theorem textOf_injective : Function.Injective textOf :=
  Function.LeftInverse.injective bytesOf_textOf

theorem textOf_eq_nil : textOf bytes = [] ↔ bytes = [] := List.map_eq_nil_iff

theorem textOf_take (n : ℕ) : textOf (bytes.take n) = (textOf bytes).take n := List.map_take

theorem bytesOf_length : (bytesOf text).length = text.length := List.length_map _

theorem narrow_textOf (bytes : List UInt8) : Narrow (textOf bytes) := by
  intro c hc
  obtain ⟨byte, -, rfl⟩ := List.mem_map.mp hc
  rw [toNat_charOfNat byte.toNat_lt]
  exact byte.toNat_lt

theorem Narrow.append (h : Narrow text) (h' : Narrow text') : Narrow (text ++ text') := by
  intro c hc
  exact (List.mem_append.mp hc).elim (h c) (h' c)

theorem Narrow.cons (h : Narrow text) (hc : c.toNat < 256) : Narrow (c :: text) := by
  intro d hd
  rcases List.mem_cons.mp hd with rfl | hd
  · exact hc
  · exact h d hd

theorem narrow_of_isDigit (h : c.isDigit = true) : c.toNat < 256 := by
  obtain ⟨-, hle⟩ := Char.isDigit_iff_toNat.mp h
  exact Nat.lt_of_le_of_lt hle (by decide)

theorem narrow_toStdString (n : ℕ) : Narrow (toStdString n) := fun c hc =>
  narrow_of_isDigit (toStdString_digits n c hc)

end StdString
