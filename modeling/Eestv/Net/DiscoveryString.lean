import Eestv.Library.StdString

/-! The text of a discovery reply: service name, address, port and time of the reply,
with colons between them. The address parser of the network library is a parameter. -/

namespace Eestv
open StdString

structure Endpoint (Address : Type*) where
  address : Address
  port : UInt16
deriving DecidableEq

structure DiscoveryInfo (Address : Type*) where
  serviceName : List Char
  ipAddress : List Char
  port : UInt16
  endpoint : Endpoint Address
  timestampMs : UInt64
deriving DecidableEq

namespace DiscoveryString

variable {Address : Type*}

def construct (serviceName ipAddress : List Char) (port : UInt16) (now : ℕ) : List Char :=
  serviceName ++ ':' :: (ipAddress ++ ':' :: (toStdString port.toNat ++ ':' :: toStdString now))

def infoOfParts (makeAddress : List Char → Option Address)
    (serviceName ipStr portStr timestampStr : List Char) : Option (DiscoveryInfo Address) :=
  if serviceName = [] then none
  else if ipStr = [] then none
  else
    (stoi portStr).bind fun n : ℤ =>
    let port := UInt16.ofInt n
    (stoull timestampStr).bind fun timestampMs =>
    (makeAddress ipStr).bind fun address =>
    some ⟨serviceName, ipStr, port, ⟨address, port⟩, timestampMs⟩

/-- Nothing stands for every error of `make_address`. -/
def parse (makeAddress : List Char → Option Address) (response : List Char) :
    Option (DiscoveryInfo Address) :=
  (find response ':' 0).bind fun firstColonPos =>
  (find response ':' (firstColonPos + 1)).bind fun secondColonPos =>
  (find response ':' (secondColonPos + 1)).bind fun thirdColonPos =>
  infoOfParts makeAddress
    (substr response 0 firstColonPos)
    (substr response (firstColonPos + 1) (secondColonPos - firstColonPos - 1))
    (substr response (secondColonPos + 1) (thirdColonPos - secondColonPos - 1))
    (response.drop (thirdColonPos + 1))

variable {makeAddress : List Char → Option Address}

theorem parse_of_parts {s ip p t response : List Char} (hs : ':' ∉ s) (hip : ':' ∉ ip)
    (hp : ':' ∉ p) (hresponse : response = s ++ ':' :: (ip ++ ':' :: (p ++ ':' :: t))) :
    parse makeAddress response = infoOfParts makeAddress s ip p t := by
  have hfirst : response = [] ++ (s ++ ':' :: (ip ++ ':' :: (p ++ ':' :: t))) := hresponse
  have hsecond : response = (s ++ [':']) ++ (ip ++ ':' :: (p ++ ':' :: t)) := by
    rw [hresponse, List.append_assoc, List.singleton_append]
  have hthird : response = (s ++ ':' :: (ip ++ [':'])) ++ (p ++ ':' :: t) := by
    rw [hresponse, List.append_assoc, List.cons_append, List.append_assoc, List.singleton_append]
  have hlast : response = (s ++ ':' :: (ip ++ ':' :: (p ++ [':']))) ++ t := by
    rw [hresponse]
    simp only [List.append_assoc, List.cons_append, List.nil_append]
  have hpos₀ : 0 = ([] : List Char).length := rfl
  have hpos₁ : s.length + 1 = (s ++ [':']).length := by
    rw [List.length_append, List.length_singleton]
  have hpos₂ : s.length + 1 + ip.length + 1 = (s ++ ':' :: (ip ++ [':'])).length := by
    simp only [List.length_append, List.length_cons, List.length_nil]
    omega
  have hpos₃ : s.length + 1 + ip.length + 1 + p.length + 1 =
      (s ++ ':' :: (ip ++ ':' :: (p ++ [':']))).length := by
    simp only [List.length_append, List.length_cons, List.length_nil]
    omega
  have hcolon₁ : find response ':' 0 = some s.length := by
    rw [find_of_notMem hfirst hpos₀ hs, Nat.zero_add]
  rw [parse, hcolon₁, Option.bind_some, find_of_notMem hsecond hpos₁ hip, Option.bind_some,
    find_of_notMem hthird hpos₂ hp, Option.bind_some, substr_eq_field hfirst hpos₀ rfl,
    substr_eq_field hsecond hpos₁ (by omega), substr_eq_field hthird hpos₂ (by omega),
    hlast, hpos₃, List.drop_left]

theorem parse_construct {s ip : List Char} {address : Address} {now : ℕ} (hs : s ≠ [])
    (hcolon : ':' ∉ s) (hip : ':' ∉ ip) (haddress : makeAddress ip = some address)
    (hne : ip ≠ []) (hnow : now < 2 ^ 64) (port : UInt16) :
    parse makeAddress (construct s ip port now) =
      some ⟨s, ip, port, ⟨address, port⟩, UInt64.ofNat now⟩ := by
  have hport : port.toNat < 2 ^ 31 := Nat.lt_trans port.toNat_lt (by decide)
  have hcast : UInt16.ofInt (port.toNat : ℤ) = port := by
    have hlt := port.toNat_lt
    have hmod : ((port.toNat : ℤ) % 2 ^ 16).toNat = port.toNat := by omega
    rw [UInt16.ofInt, hmod, UInt16.ofNat_toNat]
  have hpart : ':' ∉ toStdString port.toNat := notMem_toStdString _ rfl
  rw [parse_of_parts hcolon hip hpart (construct.eq_1 ..), infoOfParts, if_neg hs, if_neg hne,
    stoi_toStdString hport, stoull_toStdString hnow, haddress]
  simp only [Option.bind_some, hcast]

theorem parts_of_parse {response : List Char} {info : DiscoveryInfo Address}
    (h : parse makeAddress response = some info) :
    ∃ s ip p t, ':' ∉ s ∧ ':' ∉ ip ∧ infoOfParts makeAddress s ip p t = some info := by
  simp only [parse, Option.bind_eq_some_iff] at h
  obtain ⟨first, hfirst, second, hsecond, third, -, h⟩ := h
  refine ⟨_, _, _, _, ?_, ?_, h⟩
  · exact notMem_substr_of_find hfirst
  · rw [Nat.sub_sub]
    exact notMem_substr_of_find hsecond

theorem infoOfParts_eq_some {s ip p t : List Char} {info : DiscoveryInfo Address}
    (h : infoOfParts makeAddress s ip p t = some info) :
    s ≠ [] ∧ info.serviceName = s ∧ info.ipAddress = ip ∧
      (makeAddress ip).map (fun address => Endpoint.mk address info.port) = some info.endpoint := by
  unfold infoOfParts at h
  split at h
  · cases h
  · rename_i hs
    split at h
    · cases h
    · simp only [Option.bind_eq_some_iff, Option.some.injEq] at h
      obtain ⟨_, -, _, -, address, haddress, rfl⟩ := h
      rw [haddress, Option.map_some]
      exact ⟨hs, rfl, rfl, rfl⟩

theorem endpoint_of_parse {response : List Char} {info : DiscoveryInfo Address}
    (h : parse makeAddress response = some info) :
    (makeAddress info.ipAddress).map (fun address => Endpoint.mk address info.port) =
      some info.endpoint := by
  obtain ⟨s, ip, p, t, -, -, hparts⟩ := parts_of_parse h
  obtain ⟨-, -, hip, hendpoint⟩ := infoOfParts_eq_some hparts
  rwa [hip]

theorem wellFormed_of_parse {response : List Char} {info : DiscoveryInfo Address}
    (h : parse makeAddress response = some info) :
    info.serviceName ≠ [] ∧ ':' ∉ info.serviceName ∧ ':' ∉ info.ipAddress ∧
      (makeAddress info.ipAddress).isSome = true := by
  obtain ⟨s, ip, p, t, hs, hip, hparts⟩ := parts_of_parse h
  obtain ⟨hne, rfl, rfl, hendpoint⟩ := infoOfParts_eq_some hparts
  refine ⟨hne, hs, hip, ?_⟩
  rw [← Option.isSome_map, hendpoint]
  rfl

/-- The replies that are read back as they were built. -/
theorem parse_construct_iff (makeAddress : List Char → Option Address)
    (hempty : makeAddress [] = none) (s ip : List Char) (port : UInt16) (ts : ℕ)
    (hts : ts < 2 ^ 63) :
    (∃ info, parse makeAddress (construct s ip port ts) = some info ∧ info.serviceName = s ∧
      info.ipAddress = ip ∧ info.port = port ∧ info.timestampMs.toNat = ts) ↔
      s ≠ [] ∧ ':' ∉ s ∧ ':' ∉ ip ∧ (makeAddress ip).isSome = true := by
  constructor
  · rintro ⟨info, hparse, rfl, rfl, -, -⟩
    exact wellFormed_of_parse hparse
  · rintro ⟨hs, hcolon, hip, hsome⟩
    obtain ⟨address, haddress⟩ := Option.isSome_iff_exists.mp hsome
    have hne : ip ≠ [] := by
      rintro rfl
      rw [hempty] at haddress
      cases haddress
    have hts' : ts < 2 ^ 64 := Nat.lt_trans hts (by decide)
    refine ⟨_, parse_construct hs hcolon hip haddress hne hts' port, rfl, rfl, rfl, ?_⟩
    exact UInt64.toNat_ofNat_of_lt' hts'

theorem parse_construct_iff_svc :
    ∃ info, parse (fun ip => if ip = "10.0.0.5".toList then some 0x0A000005#32 else none)
        (construct "svc".toList "10.0.0.5".toList 4000 1700000000000) = some info ∧
      info.serviceName = "svc".toList ∧ info.ipAddress = "10.0.0.5".toList ∧ info.port = 4000 ∧
      info.timestampMs.toNat = 1700000000000 := by
  apply (parse_construct_iff _ (by decide) _ _ 4000 1700000000000 (by decide)).mpr
  decide

end DiscoveryString
end Eestv
