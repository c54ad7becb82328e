import Eestv.Serial.Arrival
import Mathlib.Data.List.TakeWhile
import Mathlib.Data.Set.List

/-! Two programs whose multiplexers are instantiated with different type lists, the
one list being the beginning of the other. What they share they write and read
alike. A message that only the longer list has is refused by the program with the
shorter one behind its header, so that its payload is taken for a header next. -/

namespace Eestv
open LinearBuffer

variable {p q : TypePack} {o : ByteOrder} {b : LinearBuffer}

/-! ### The alternatives of the shorter list -/

theorem types_get_eq (h : p.types <+: q.types) (i : Fin p.types.length) :
    p.types.get i = q.types.get ⟨i, i.isLt.trans_le h.length_le⟩ := h.getElem i.isLt

def TypePack.embed (h : p.types <+: q.types) (v : p.Variant) : q.Variant :=
  ⟨⟨v.1, v.1.isLt.trans_le h.length_le⟩,
    cast (congrArg (fun T => T.layout.Value) (types_get_eq h v.1)) v.2⟩

def DemuxResult.embed (h : p.types <+: q.types) (r : DemuxResult p) : DemuxResult q :=
  ⟨TypePack.embed h r.value, r.success, r.buffer⟩

def DemuxCall.embed (h : p.types <+: q.types) (c : DemuxCall p) : DemuxCall q :=
  ⟨c.before, c.result.embed h⟩

/-- A complete header whose index only the longer list has. -/
def Foreign (p q : TypePack) (xs : List UInt8) : Prop :=
  ∃ t lo hi rest, xs = t :: lo :: hi :: rest ∧ p.types.length ≤ t.toNat ∧
    t.toNat < q.types.length

theorem exists_embed (h : p.types <+: q.types) {v : q.Variant} (hv : v.1 < p.types.length) :
    ∃ w : p.Variant, TypePack.embed h w = v := by
  obtain ⟨i, value⟩ := v
  have hget := types_get_eq h ⟨i, hv⟩
  refine ⟨⟨⟨i, hv⟩, cast (congrArg (fun T => T.layout.Value) hget.symm) value⟩, ?_⟩
  rw [TypePack.embed, cast_cast, cast_eq]

theorem Distinct.of_prefix (h : p.types <+: q.types) (hd : q.Distinct) : p.Distinct :=
  List.Nodup.sublist (h.sublist.map ArchiveType.name) hd

/-! ### Both write alike -/

theorem typeIndexImpl_append {T : ArchiveType} {types : List ArchiveType} (hT : T ∈ types)
    (more : List ArchiveType) : typeIndexImpl T (types ++ more) = typeIndexImpl T types := by
  induction types with
  | nil => exact absurd hT List.not_mem_nil
  | cons first rest ih =>
    rw [List.cons_append, typeIndexImpl, typeIndexImpl]
    by_cases hname : T.name = first.name
    · rw [if_pos hname, if_pos hname]
    · have hrest := (List.mem_cons.mp hT).resolve_left fun he => hname (congrArg _ he)
      rw [if_neg hname, if_neg hname, ih hrest]

theorem typeIndexImpl_shared (h : p.types <+: q.types) (i : Fin p.types.length) :
    typeIndexImpl (p.types.get i) q.types = typeIndexImpl (p.types.get i) p.types := by
  obtain ⟨more, hmore⟩ := h
  rw [← hmore]
  exact typeIndexImpl_append (List.get_mem _ i) more

theorem serialize_cast {T T' : ArchiveType} (h : T = T') (value : T.layout.Value) :
    serialize o q T' (cast (congrArg (fun T => T.layout.Value) h) value) b =
      serialize o q T value b := by
  subst h
  rfl

theorem frame_cast {T T' : ArchiveType} (h : T = T') (value : T.layout.Value) :
    frame o q T' (cast (congrArg (fun T => T.layout.Value) h) value) = frame o q T value := by
  subst h
  rfl

theorem serializeVariant_embed (h : p.types <+: q.types) (v : p.Variant) (b : LinearBuffer) :
    serializeVariant o q (TypePack.embed h v) b = serializeVariant o p v b := by
  have hsame : serialize o q (p.typeOf v) v.2 b = serialize o p (p.typeOf v) v.2 b := by
    unfold serialize
    rw [typeIndexImpl_shared h v.1]
  exact (serialize_cast (types_get_eq h v.1) v.2).trans hsame

theorem frame_embed (h : p.types <+: q.types) (v : p.Variant) :
    q.frame o (TypePack.embed h v) = p.frame o v := by
  have hsame : frame o q (p.typeOf v) v.2 = frame o p (p.typeOf v) v.2 := by
    unfold frame
    rw [typeIndexImpl_shared h v.1]
  exact (frame_cast (types_get_eq h v.1) v.2).trans hsame

theorem sizeOf_embed (h : p.types <+: q.types) (v : p.Variant) :
    q.sizeOf (TypePack.embed h v) = p.sizeOf v :=
  congrArg (fun T : ArchiveType => T.layout.encodedSize) (types_get_eq h v.1).symm

/-! ### Both read alike -/

theorem init_cast {T T' : ArchiveType} (h : T = T') :
    cast (congrArg (fun T => T.layout.Value) h) T.init = T'.init := by
  subst h
  rfl

theorem deserializeValue_cast {T T' : ArchiveType} (h : T = T') (ar : Deserializer) :
    deserializeValue o T'.layout T'.init ar =
      (cast (congrArg (fun T => T.layout.Value) h) (deserializeValue o T.layout T.init ar).1,
        (deserializeValue o T.layout T.init ar).2) := by
  subst h
  rfl

theorem embed_defaultVariant (h : p.types <+: q.types) :
    TypePack.embed h p.defaultVariant = q.defaultVariant :=
  congrArg (Sigma.mk _) (init_cast (types_get_eq h ⟨0, p.nonempty⟩))

theorem deserializeType_embed (h : p.types <+: q.types) (i : Fin p.types.length)
    (payloadSize : ℕ) (resultOut : p.Variant) :
    deserializeType o q ⟨i, i.isLt.trans_le h.length_le⟩ payloadSize
        (TypePack.embed h resultOut) b =
      (deserializeType o p i payloadSize resultOut b).embed h := by
  unfold deserializeType
  dsimp only
  rw [deserializeValue_cast (types_get_eq h i)]
  dsimp only
  rw [apply_ite (DemuxResult.embed h), apply_ite (DemuxResult.embed h)]
  rfl

theorem deserialize_embed (h : p.types <+: q.types) (hb : b.Consistent)
    (hforeign : ¬ Foreign p q b.unread) : deserialize o q b = (deserialize o p b).embed h := by
  have hdefault : DemuxResult.embed h ⟨p.defaultVariant, false, b⟩ = ⟨q.defaultVariant, false, b⟩ :=
    congrArg (DemuxResult.mk · false b) (embed_defaultVariant h)
  rcases Nat.lt_or_ge b.size headerSize with hlt | hge
  · rw [deserialize_short hlt, deserialize_short hlt, hdefault]
  obtain ⟨t, lo, hi, rest, hu⟩ := exists_header hb hge
  rw [deserialize_header hb hu, deserialize_header hb hu]
  by_cases ht : t.toNat < p.types.length
  · rw [dif_pos ht, dif_pos (ht.trans_le h.length_le), ← embed_defaultVariant h]
    split
    · rfl
    · exact deserializeType_embed h ⟨t.toNat, ht⟩ _ _
  · have hq : ¬ t.toNat < q.types.length := fun hq =>
      hforeign ⟨t, lo, hi, rest, hu, Nat.not_lt.mp ht, hq⟩
    rw [dif_neg ht, dif_neg hq, ← embed_defaultVariant h]
    rfl

theorem deserialize_foreign (hb : b.Consistent) (hforeign : Foreign p q b.unread) :
    deserialize o p b = ⟨p.defaultVariant, false, (b.consume headerSize).2⟩ ∧
      Consumes b headerSize (b.consume headerSize).2 := by
  obtain ⟨t, lo, hi, rest, hu, hp, -⟩ := hforeign
  rw [deserialize_header hb hu, dif_neg (Nat.not_lt.mpr hp)]
  exact ⟨rfl, (consume_header hb hu).1⟩

/-! ### Reading until a call fails -/

/-- Both make the same calls, or the same calls up to a header whose index only the longer list
has: the one program fails there and leaves the payload, the other one goes on. -/
inductive DrainsAlike (o : ByteOrder) (h : p.types <+: q.types) (b : LinearBuffer) : Prop
  | whole (calls : List (DemuxCall p)) (b' : LinearBuffer) (hp : drain o p b = (calls, b'))
      (hq : drain o q b = (calls.map (DemuxCall.embed h), b'))
  | upTo (calls : List (DemuxCall p)) (b' : LinearBuffer)
      (hsuccess : ∀ c ∈ calls, c.result.success = true) (hforeign : Foreign p q b'.unread)
      (hp : drain o p b = (calls ++ [⟨b', p.defaultVariant, false, (b'.consume headerSize).2⟩],
        (b'.consume headerSize).2))
      (hleft : (b'.consume headerSize).2.unread = b'.unread.drop headerSize)
      (hq : drain o q b = (calls.map (DemuxCall.embed h) ++ (drain o q b').1, (drain o q b').2))

theorem DrainsAlike.cons {h : p.types <+: q.types} (hb : b.Consistent)
    (hsuccess : (deserialize o p b).success = true)
    (heq : deserialize o q b = (deserialize o p b).embed h)
    (halike : DrainsAlike o h (deserialize o p b).buffer) : DrainsAlike o h b := by
  have hq : (deserialize o q b).success = true := by
    rw [heq]
    exact hsuccess
  have hrest : (deserialize o q b).buffer = (deserialize o p b).buffer := by
    rw [heq]
    rfl
  have hcall : (⟨b, deserialize o q b⟩ : DemuxCall q) =
      DemuxCall.embed h ⟨b, deserialize o p b⟩ := by
    rw [heq]
    rfl
  cases halike with
  | whole calls b' hcalls hcalls' =>
    refine .whole (⟨b, deserialize o p b⟩ :: calls) b' ?_ ?_
    · rw [drain_success hb hsuccess, hcalls]
    · rw [drain_success hb hq, hrest, hcalls', hcall, List.map_cons]
  | upTo calls b' hall hforeign hcalls hleft hcalls' =>
    refine .upTo (⟨b, deserialize o p b⟩ :: calls) b' ?_ hforeign ?_ hleft ?_
    · exact List.forall_mem_cons.mpr ⟨hsuccess, hall⟩
    · rw [drain_success hb hsuccess, hcalls, List.cons_append]
    · rw [drain_success hb hq, hrest, hcalls', hcall, List.map_cons, List.cons_append]

theorem drainsAlike (o : ByteOrder) (h : p.types <+: q.types) (hb : b.Consistent) :
    DrainsAlike o h b := by
  induction hn : b.size using Nat.strong_induction_on generalizing b with
  | _ n ih =>
    by_cases hforeign : Foreign p q b.unread
    · obtain ⟨hfail, hconsumes⟩ := deserialize_foreign hb hforeign (o := o)
      refine .upTo [] b (List.forall_mem_nil _) hforeign ?_ hconsumes.unread_eq rfl
      rw [drain_failure (by rw [hfail]), hfail]
      rfl
    · have heq := deserialize_embed (o := o) h hb hforeign
      rcases hsuccess : (deserialize o p b).success with _ | _
      · refine .whole [⟨b, deserialize o p b⟩] _ (drain_failure hsuccess) ?_
        rw [drain_failure (by rw [heq]; exact hsuccess), heq]
        rfl
      · obtain ⟨_, hconsumes, -⟩ := deserialize_consumes o p hb
        have hlt := deserialize_lt hb hsuccess
        exact .cons hb hsuccess heq (ih _ (hn ▸ hlt) hconsumes.consistent rfl)

/-- Programs whose type lists begin alike write the messages that they share alike, and they read
any bytes alike, up to the first header that only one of them knows. -/
theorem type_lists_agree (o : ByteOrder) (h : p.types <+: q.types) (b : LinearBuffer)
    (hb : b.Reachable) :
    (∀ v : p.Variant, serializeVariant o q (TypePack.embed h v) b = serializeVariant o p v b) ∧
      DrainsAlike o h b :=
  ⟨fun v => serializeVariant_embed h v b, drainsAlike o h hb.consistent⟩

def byteAndWord : LinearBuffer := ((new 16).write [0, 1, 0, 7, 1, 2, 0, 5, 6]).2

theorem bytePack_prefix : bytePack.types <+: byteWordPack.types := List.prefix_append _ _

theorem byteAndWord_reachable : byteAndWord.Reachable := (Reachable.new 16).write (by decide)

theorem type_lists_agree_byte_word : DrainsAlike .little bytePack_prefix byteAndWord :=
  (type_lists_agree .little bytePack_prefix byteAndWord byteAndWord_reachable).2

/-! ### A sender that knows more types -/

/-- A message of a type that the receiver does not know ends the reading behind its header. -/
theorem drain_unknown (hd : q.Distinct) (hb : b.Consistent)
    {v : q.Variant} (hv : ¬ v.1 < p.types.length) {rest : List UInt8}
    (hu : b.unread = q.frame o v ++ rest) :
    received (drain o p b).1 = [] ∧
      (drain o p b).2.unread = (q.typeOf v).layout.encode o v.2 ++ rest := by
  rw [frame_eq o hd v] at hu
  have hforeign : Foreign p q b.unread :=
    ⟨_, _, _, _, hu, (toNat_index v.1).symm ▸ Nat.not_lt.mp hv, (toNat_index v.1).symm ▸ v.1.isLt⟩
  obtain ⟨hfail, hconsumes⟩ := deserialize_foreign (o := o) hb hforeign
  rw [drain_failure (by rw [hfail]), hfail]
  refine ⟨rfl, ?_⟩
  rw [hconsumes.unread_eq, hu]
  rfl

/-- The receiver reads the messages in front of the first one that it does not know, and is left
with the payload of that one, which it reads as headers from then on. -/
theorem longer_list_sent (o : ByteOrder) (h : p.types <+: q.types) (hd : q.Distinct)
    (vs : List q.Variant) (hsizes : ∀ v ∈ vs, q.sizeOf v ≤ maxPayloadSize) (b : LinearBuffer)
    (hb : b.Reachable) (u : List UInt8) (hu : b.unread = (vs.map (q.frame o)).flatten ++ u)
    (hshort : u.length < headerSize) :
    (received (drain o p b).1).map (TypePack.embed h) =
        vs.takeWhile (fun v => v.1 < p.types.length) ∧
      (drain o p b).2.unread = match vs.dropWhile fun v => v.1 < p.types.length with
        | [] => u
        | v :: rest =>
          (q.typeOf v).layout.encode o v.2 ++ ((rest.map (q.frame o)).flatten ++ u) := by
  let known : q.Variant → Bool := fun v => v.1 < p.types.length
  -- the messages in front are ones of the receiver's
  obtain ⟨ws, hws⟩ : vs.takeWhile known ∈ Set.range (List.map (TypePack.embed h)) := by
    rw [Set.range_list_map]
    intro v hv
    have hknown : known v = true := List.mem_takeWhile_imp hv
    exact exists_embed h (of_decide_eq_true hknown)
  have hfront : (ws.map (p.frame o)).flatten = ((vs.takeWhile known).map (q.frame o)).flatten := by
    rw [← hws, List.map_map]
    exact congrArg List.flatten (List.map_congr_left fun w _ => (frame_embed h w).symm)
  have hws_sizes : ∀ w ∈ ws, p.sizeOf w ≤ maxPayloadSize := by
    intro w hw
    rw [← sizeOf_embed h w]
    exact hsizes _ (List.takeWhile_subset _ (hws ▸ List.mem_map_of_mem hw))
  have hsplit : b.unread = (ws.map (p.frame o)).flatten ++
      (((vs.dropWhile known).map (q.frame o)).flatten ++ u) := by
    rw [hu, hfront, ← List.append_assoc, ← List.flatten_append, ← List.map_append,
      List.takeWhile_append_dropWhile]
  obtain ⟨n, b', calls, hconsumes, hunread, hreceived, -, hdrain⟩ :=
    drain_frames (Distinct.of_prefix h hd) ws hws_sizes hb.consistent hsplit
  -- and the first one behind them ends the reading
  have hstop : received (drain o p b').1 = [] ∧
      (drain o p b').2.unread = match vs.dropWhile known with
        | [] => u
        | v :: rest =>
          (q.typeOf v).layout.encode o v.2 ++ ((rest.map (q.frame o)).flatten ++ u) := by
    rcases hrest : vs.dropWhile known with _ | ⟨v, rest⟩
    · rw [hrest] at hunread
      have hsize : b'.size < headerSize := by
        rw [← hconsumes.consistent.unread_length, hunread]
        exact hshort
      rw [drain_short hsize]
      exact ⟨rfl, hunread⟩
    · have hv : ¬ v.1 < p.types.length := by
        have hhead := List.head?_dropWhile_not known vs
        rw [hrest] at hhead
        simpa [known] using hhead
      rw [hrest, List.map_cons, List.flatten_cons, List.append_assoc] at hunread
      exact drain_unknown hd hconsumes.consistent hv hunread
  rw [hdrain]
  refine ⟨?_, hstop.2⟩
  rw [received_append, hreceived, hstop.1, List.append_nil, hws]

theorem longer_list_sent_byte_word :
    (received (drain .little bytePack byteAndWord).1).length = 1 ∧
      (drain .little bytePack byteAndWord).2.unread = [5, 6] := by
  let byte : byteWordPack.Variant := ⟨⟨0, by decide⟩, (7 : BitVec 8)⟩
  let word : byteWordPack.Variant := ⟨⟨1, by decide⟩, (0x0605 : BitVec 16)⟩
  obtain ⟨hreceived, hunread⟩ := longer_list_sent .little bytePack_prefix (by decide)
    [byte, word] (by decide) byteAndWord byteAndWord_reachable [] (by decide) (by decide)
  refine ⟨?_, hunread.trans (by decide)⟩
  rw [← List.length_map, hreceived]
  decide

end Eestv
