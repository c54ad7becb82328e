import Eestv.Net.DiscoveryString

/-! The numbers of a discovery reply. The conversions pass over blanks, take a sign and stop
at the first character that is no digit, and the port is cut to 16 bits: a reply is read as it
is documented exactly when none of this happens to a reply that is read at all. -/

namespace Eestv.DiscoveryString
open Decimal StdString

variable {Address : Type*} {makeAddress : List Char → Option Address}
  {response s ip p t : List Char}

structure HasParts (response s ip p t : List Char) : Prop where
  notMem_serviceName : ':' ∉ s
  notMem_ip : ':' ∉ ip
  notMem_port : ':' ∉ p
  eq_append : response = s ++ ':' :: (ip ++ ':' :: (p ++ ':' :: t))

def Spells (cs : List Char) (n : ℕ) : Prop := cs ≠ [] ∧ Digits cs ∧ value cs = n

/-- The port and the time of a reply are spelled in it as they are documented. -/
def NumbersSpelled (response : List Char) (info : DiscoveryInfo Address) : Prop :=
  ∃ s ip p t, HasParts response s ip p t ∧ Spells p info.port.toNat ∧
    Spells t info.timestampMs.toNat

theorem HasParts.unique {s' ip' p' t' : List Char} (h : HasParts response s ip p t)
    (h' : HasParts response s' ip' p' t') : s = s' ∧ ip = ip' ∧ p = p' ∧ t = t' := by
  have heq := h.eq_append.symm.trans h'.eq_append
  obtain ⟨hs, heq⟩ := append_cons_inj h.notMem_serviceName h'.notMem_serviceName heq
  obtain ⟨hip, heq⟩ := append_cons_inj h.notMem_ip h'.notMem_ip heq
  obtain ⟨hp, ht⟩ := append_cons_inj h.notMem_port h'.notMem_port heq
  exact ⟨hs, hip, hp, ht⟩

theorem HasParts.parse_eq (h : HasParts response s ip p t) :
    parse makeAddress response = infoOfParts makeAddress s ip p t :=
  parse_of_parts h.notMem_serviceName h.notMem_ip h.notMem_port h.eq_append

theorem hasParts_of_parse {info : DiscoveryInfo Address}
    (h : parse makeAddress response = some info) : ∃ s ip p t, HasParts response s ip p t := by
  simp only [parse, Option.bind_eq_some_iff] at h
  obtain ⟨first, hfirst, second, hsecond, third, hthird, -⟩ := h
  obtain ⟨s, hs, hdrop₁⟩ := drop_of_find hfirst
  obtain ⟨ip, hip, hdrop₂⟩ := drop_of_find hsecond
  obtain ⟨p, hp, hdrop₃⟩ := drop_of_find hthird
  refine ⟨s, ip, p, response.drop (third + 1), hs, hip, hp, ?_⟩
  rw [← hdrop₃, ← hdrop₂, ← hdrop₁, List.drop_zero]

theorem infoOfParts_numerals {info : DiscoveryInfo Address}
    (h : infoOfParts makeAddress s ip p t = some info) :
    s ≠ [] ∧ ip ≠ [] ∧ (makeAddress ip).isSome = true ∧ ∃ m n : Numeral, m.text = p ∧
      n.text = t ∧ (-2 ^ 31 ≤ m.number ∧ m.number < 2 ^ 31) ∧ value n.digits < 2 ^ 64 ∧
      info.port = UInt16.ofInt m.number ∧
      info.timestampMs = if n.sign = ['-'] then -UInt64.ofNat (value n.digits)
        else UInt64.ofNat (value n.digits) := by
  unfold infoOfParts at h
  split at h
  · cases h
  · rename_i hs
    split at h
    · cases h
    · rename_i hip
      simp only [Option.bind_eq_some_iff, Option.some.injEq] at h
      obtain ⟨k, hport, v, htime, address, haddress, rfl⟩ := h
      obtain ⟨m, hm, rfl, hrange⟩ := numeral_of_stoi hport
      obtain ⟨n, hn, hlt, hv⟩ := numeral_of_stoull htime
      exact ⟨hs, hip, Option.isSome_iff_exists.mpr ⟨address, haddress⟩, m, n, hm, hn, hrange, hlt,
        rfl, hv⟩

theorem infoOfParts_text {m n : Numeral} (hs : s ≠ []) (hip : ip ≠ [])
    (haddress : (makeAddress ip).isSome = true)
    (hrange : -2 ^ 31 ≤ m.number ∧ m.number < 2 ^ 31) (hlt : value n.digits < 2 ^ 64) :
    ∃ info, infoOfParts makeAddress s ip m.text n.text = some info ∧
      info.port = UInt16.ofInt m.number := by
  obtain ⟨address, haddress⟩ := Option.isSome_iff_exists.mp haddress
  have hport : stoi m.text = some m.number := stoi_text hrange.1 hrange.2
  have htime := stoull_text hlt
  rw [infoOfParts, if_neg hs, if_neg hip, hport, htime, haddress]
  exact ⟨_, rfl, rfl⟩

/-- A reply that would be read, with nothing around the digits of its numbers and a port of 16
bits. -/
def PlainNumbers (makeAddress : List Char → Option Address) (response : List Char) : Prop :=
  ∀ s ip, ∀ m n : Numeral, HasParts response s ip m.text n.text → s ≠ [] → ip ≠ [] →
    (makeAddress ip).isSome = true → -2 ^ 31 ≤ m.number ∧ m.number < 2 ^ 31 →
    value n.digits < 2 ^ 64 → m.Plain ∧ m.number < 2 ^ 16 ∧ n.Plain

theorem toNat_ofInt_port {k : ℕ} (h : k < 2 ^ 16) : (UInt16.ofInt (k : ℤ)).toNat = k := by
  have hmod : ((k : ℤ) % 2 ^ 16).toNat = k := by omega
  rw [UInt16.ofInt, hmod]
  exact UInt16.toNat_ofNat_of_lt' h

/-- The replies of which only documented numbers are read. -/
theorem numbersSpelled_iff (makeAddress : List Char → Option Address) (response : List Char) :
    (∀ info, parse makeAddress response = some info → NumbersSpelled response info) ↔
      PlainNumbers makeAddress response := by
  constructor
  · intro h s ip m n hparts hs hip haddress hrange hlt
    obtain ⟨info, hinfo, hport⟩ := infoOfParts_text hs hip haddress hrange hlt
    obtain ⟨s', ip', p, t, hparts', hp, ht⟩ := h info (hparts.parse_eq.trans hinfo)
    obtain ⟨-, -, rfl, rfl⟩ := hparts.unique hparts'
    have hm := Numeral.plain_of_digits hp.2.1
    refine ⟨hm, ?_, Numeral.plain_of_digits ht.2.1⟩
    -- the port read is the number of the digits, so they were not cut
    have hvalue := hp.2.2
    have hbound := info.port.toNat_lt
    rw [hm.text_eq] at hvalue
    rw [hm.number_eq]
    omega
  · intro h info hparse
    obtain ⟨s, ip, p, t, hparts⟩ := hasParts_of_parse hparse
    rw [hparts.parse_eq] at hparse
    obtain ⟨hs, hip, haddress, m, n, rfl, rfl, hrange, hlt, hport, htime⟩ :=
      infoOfParts_numerals hparse
    obtain ⟨hm, hsmall, hn⟩ := h s ip m n hparts hs hip haddress hrange hlt
    refine ⟨s, ip, m.text, n.text, hparts, ?_, ?_⟩
    · rw [hm.text_eq, hport, hm.number_eq]
      rw [hm.number_eq] at hsmall
      exact ⟨m.digits_ne_nil, m.digits_digits,
        (toNat_ofInt_port (Int.ofNat_lt.mp hsmall)).symm⟩
    · rw [hn.text_eq, htime, if_neg (by rw [hn.2.1]; decide)]
      exact ⟨n.digits_ne_nil, n.digits_digits, (UInt64.toNat_ofNat_of_lt' hlt).symm⟩

/-- A port of 70000 is read as 4464. -/
theorem numbersSpelled_fails :
    ¬ ∀ (response : List Char) (info : DiscoveryInfo (BitVec 32)),
      parse (fun ip => if ip = "10.0.0.5".toList then some 0x0A000005#32 else none) response =
        some info → NumbersSpelled response info := by
  intro h
  obtain ⟨s, ip, p, t, hparts, ⟨-, -, hport⟩, -⟩ := h "svc:10.0.0.5:70000:1".toList
    ⟨"svc".toList, "10.0.0.5".toList, 4464, ⟨0x0A000005#32, 4464⟩, 1⟩ (by decide)
  have hsplit : HasParts "svc:10.0.0.5:70000:1".toList "svc".toList "10.0.0.5".toList
      "70000".toList "1".toList := ⟨by decide, by decide, by decide, rfl⟩
  obtain ⟨-, -, rfl, -⟩ := hsplit.unique hparts
  exact absurd hport (by decide)

end Eestv.DiscoveryString
