import Eestv.Data.LinearBufferFifo
import Eestv.Serial.Deserializer
import Eestv.Serial.Serializer

/-! Whole statements `ar & a & b & c`. What one sequence of statements writes,
another one over the same types reads back, however either of them groups the
values and whatever else happens to the buffer in between. -/

namespace Eestv
open LinearBuffer FirstFit Runs

abbrev Item := (t : RecordType) × t.Value

def Serializer.operatorAnd (o : ByteOrder) (ar : Serializer) (item : Item) : Serializer :=
  serializeValue o item.1 item.2 ar

def Serializer.chain (o : ByteOrder) (ar : Serializer) (items : List Item) : Serializer :=
  items.foldl (Serializer.operatorAnd o) ar

def Serializer.statements (o : ByteOrder) (ar : Serializer) (groups : List (List Item)) :
    Serializer := groups.foldl (Serializer.chain o) ar

def Deserializer.operatorAnd (o : ByteOrder) (ar : Deserializer) (target : Item) :
    Item × Deserializer :=
  let (value, ar) := deserializeValue o target.1 target.2 ar
  (⟨target.1, value⟩, ar)

def Deserializer.chain (o : ByteOrder) : Deserializer → List Item → List Item × Deserializer
  | ar, [] => ([], ar)
  | ar, target :: targets =>
    let (item, ar) := Deserializer.operatorAnd o ar target
    let (items, ar) := Deserializer.chain o ar targets
    (item :: items, ar)

def Deserializer.statements (o : ByteOrder) :
    Deserializer → List (List Item) → List (List Item) × Deserializer
  | ar, [] => ([], ar)
  | ar, targets :: groups =>
    let (items, ar) := Deserializer.chain o ar targets
    let (rest, ar) := Deserializer.statements o ar groups
    (items :: rest, ar)

def encodeItems (o : ByteOrder) (items : List Item) : List UInt8 :=
  items.flatMap fun item => item.1.encode o item.2

def itemsSize (items : List Item) : ℕ := (items.map fun item => item.1.encodedSize).sum

variable {o : ByteOrder}

theorem encodeItems_length (items : List Item) :
    (encodeItems o items).length = itemsSize items := by
  rw [encodeItems, List.length_flatMap, itemsSize]
  exact congrArg List.sum (List.map_congr_left fun item _ => item.1.encode_length o item.2)

/-! ### Writing -/

theorem Serializer.statements_flatten (ar : Serializer) (groups : List (List Item)) :
    ar.statements o groups = ar.chain o groups.flatten := List.foldl_flatten.symm

theorem Serializer.chain_appends (items : List Item) (ar : Serializer)
    (hc : ar.buffer.Consistent) (hroom : itemsSize items ≤ ar.buffer.room) :
    Appends ar.buffer (encodeItems o items) (ar.chain o items).buffer ∧
      (ar.chain o items).bytesWritten = ar.bytesWritten + itemsSize items := by
  induction items generalizing ar with
  | nil => exact ⟨Appends.refl hc, rfl⟩
  | cons item items ih =>
    obtain ⟨t, value⟩ := item
    have hsplit : itemsSize (⟨t, value⟩ :: items) = t.encodedSize + itemsSize items := rfl
    rw [hsplit] at hroom
    have hfits : total Leaf.width (t.flatten value) ≤ ar.buffer.room := by
      rw [t.total_flatten]
      omega
    have hwrites := serializeValue_writes (o := o) t value ar hc
    have happends := hwrites.appends
    have hwritten := hwrites.bytesWritten_eq
    rw [fill_of_total_le Leaf.width hfits] at happends hwritten
    rw [t.total_flatten] at hwritten
    have hleft := happends.room_eq hc
    rw [encodeLeaves_length, t.total_flatten] at hleft
    obtain ⟨hrest, hcount⟩ := ih _ happends.consistent (by omega)
    constructor
    · exact happends.trans hrest
    · rw [hsplit, ← Nat.add_assoc, ← hwritten]
      exact hcount

/-! ### Reading -/

structure Deserializer.Advances (ar : Deserializer) (n : ℕ) (ar' : Deserializer) : Prop where
  consumes : Consumes ar.buffer n ar'.buffer
  bytesRead_eq : ar'.bytesRead = ar.bytesRead + n

theorem Deserializer.Advances.trans {ar ar' ar'' : Deserializer} {m n : ℕ}
    (hc : ar.buffer.Consistent) (h : ar.Advances m ar') (h' : ar'.Advances n ar'') :
    ar.Advances (m + n) ar'' :=
  ⟨h.consumes.trans hc h'.consumes, by rw [h'.bytesRead_eq, h.bytesRead_eq, Nat.add_assoc]⟩

theorem deserializeValue_encode {t : RecordType} (v target : t.Value) {ar : Deserializer}
    (hc : ar.buffer.Consistent) {rest : List UInt8}
    (hu : ar.buffer.unread = t.encode o v ++ rest) :
    (deserializeValue o t target ar).1 = v ∧
      ar.Advances t.encodedSize (deserializeValue o t target ar).2 := by
  have hreads := deserializeValue_reads (o := o) t target ar hc
  have hsize : total Leaf.width (t.flatten target) ≤ ar.buffer.size := by
    rw [t.total_flatten, ← hc.unread_length, hu, List.length_append, t.encode_length]
    exact Nat.le_add_right _ _
  have hconsumes := hreads.consumes
  have hread := hreads.bytesRead_eq
  rw [fill_of_total_le Leaf.width hsize, t.total_flatten] at hconsumes hread
  refine ⟨?_, hconsumes, hread⟩
  apply t.flatten_injective
  rw [hreads.leaves_eq, hu]
  apply readLeaves_encodeLeaves
  rw [t.flatten_widths, t.flatten_widths]

theorem Deserializer.operatorAnd_eq (ar : Deserializer) (target : Item) :
    ar.operatorAnd o target = (⟨target.1, (deserializeValue o target.1 target.2 ar).1⟩,
      (deserializeValue o target.1 target.2 ar).2) := rfl

theorem Deserializer.chain_cons (ar : Deserializer) (x : Item) (xs : List Item) :
    ar.chain o (x :: xs) = ((ar.operatorAnd o x).1 :: ((ar.operatorAnd o x).2.chain o xs).1,
      ((ar.operatorAnd o x).2.chain o xs).2) := rfl

theorem Deserializer.chain_encodeItems {items targets : List Item} (ar : Deserializer)
    (hc : ar.buffer.Consistent) (htypes : targets.map Sigma.fst = items.map Sigma.fst)
    {rest : List UInt8} (hu : ar.buffer.unread = encodeItems o items ++ rest) :
    (ar.chain o targets).1 = items ∧ ar.Advances (itemsSize items) (ar.chain o targets).2 ∧
      (ar.chain o targets).2.buffer.unread = rest := by
  induction items generalizing targets ar with
  | nil =>
    rw [List.map_eq_nil_iff.mp htypes]
    exact ⟨rfl, ⟨Consumes.refl hc, rfl⟩, hu⟩
  | cons item items ih =>
    obtain ⟨target, targets, rfl, htype, hlater⟩ := List.map_eq_cons_iff.mp htypes
    obtain ⟨t, target⟩ := target
    obtain ⟨t', v⟩ := item
    change t = t' at htype
    subst htype
    rw [encodeItems, List.flatMap_cons, List.append_assoc] at hu
    obtain ⟨hvalue, hfirst⟩ := deserializeValue_encode v target hc hu
    have hleft := hfirst.consumes.unread_eq
    rw [hu, List.drop_left' (t.encode_length o v)] at hleft
    obtain ⟨hvalues, hadvances, hrest⟩ := ih _ hfirst.consumes.consistent hlater hleft
    refine ⟨?_, hfirst.trans hc hadvances, hrest⟩
    rw [Deserializer.chain_cons, Deserializer.operatorAnd_eq, hvalues, hvalue]

theorem Deserializer.chain_append (ar : Deserializer) (xs ys : List Item) :
    ar.chain o (xs ++ ys) =
      ((ar.chain o xs).1 ++ ((ar.chain o xs).2.chain o ys).1,
        ((ar.chain o xs).2.chain o ys).2) := by
  induction xs generalizing ar with
  | nil => rfl
  | cons x xs ih =>
    rw [List.cons_append, Deserializer.chain_cons, Deserializer.chain_cons, ih, List.cons_append]

theorem Deserializer.statements_flatten (ar : Deserializer) (groups : List (List Item)) :
    (ar.chain o groups.flatten).1 = (ar.statements o groups).1.flatten ∧
      (ar.chain o groups.flatten).2 = (ar.statements o groups).2 := by
  induction groups generalizing ar with
  | nil => exact ⟨rfl, rfl⟩
  | cons targets groups ih =>
    obtain ⟨hvalues, har⟩ := ih (ar.chain o targets).2
    rw [List.flatten_cons, Deserializer.chain_append]
    constructor
    · rw [hvalues]
      rfl
    · exact har

/-! ### Between writing and reading -/

/-- A buffer whose unread bytes are all there is of its history. -/
def tracedFrom (b : LinearBuffer) : Traced := ⟨b, Fifo.History.empty.commit b.unread⟩

theorem committed_prefix_after {earlier : List UInt8} (s : Traced) (a : Access)
    (h : earlier <+: s.history.committed) : earlier <+: (s.after a).history.committed := by
  have hcommit (bytes : List UInt8) : earlier <+: (s.history.commit bytes).committed :=
    h.trans (List.prefix_append _ _)
  cases a with
  | write bytes =>
    simp only [Traced.after]
    split
    · exact hcommit bytes
    · exact h
  | overcommit n =>
    simp only [Traced.after]
    split
    · exact hcommit _
    · exact h
  | consume n =>
    simp only [Traced.after]
    split <;> exact h

theorem unread_after_run {b : LinearBuffer} (hb : b.Consistent) {n : ℕ} {accesses : List Access}
    {s : Traced} (hrun : Run Traced.Step (tracedFrom b) accesses s)
    (hconsumed : s.history.consumed = n) (hn : n ≤ b.unread.length) :
    s.buffer.Consistent ∧ ∃ behind, s.history.committed = b.unread ++ behind ∧
      s.buffer.unread = b.unread.drop n ++ behind := by
  have hstart : (tracedFrom b).Faithful b.capacity := ⟨hb, rfl, rfl⟩
  have hs := hrun.invariant Traced.Faithful.step hstart
  have hprefix : b.unread <+: s.history.committed := by
    refine hrun.invariant (I := fun s => b.unread <+: s.history.committed) ?_ List.prefix_rfl
    rintro s a t hs ⟨-, rfl⟩
    exact committed_prefix_after s a hs
  obtain ⟨behind, hbehind⟩ := hprefix
  refine ⟨hs.consistent, behind, hbehind.symm, ?_⟩
  rw [hs.unread_eq, Fifo.History.pending, hconsumed, ← hbehind, List.drop_append_of_le_length hn]

/-- What the statements over `groups` write into a buffer with room for it, the statements
over targets of the same types read back once the bytes before it are consumed. -/
theorem archive_round_trip (o : ByteOrder) (groups targets : List (List Item)) (b : LinearBuffer)
    (hb : b.Reachable) (hroom : itemsSize groups.flatten ≤ b.room)
    (htypes : targets.flatten.map Sigma.fst = groups.flatten.map Sigma.fst)
    (bytesWritten bytesRead : ℕ) :
    let total := itemsSize groups.flatten
    let ser := Serializer.statements o ⟨b, bytesWritten⟩ groups
    ser.buffer.unread = b.unread ++ encodeItems o groups.flatten ∧
      (encodeItems o groups.flatten).length = total ∧ ser.bytesWritten = bytesWritten + total ∧
      ∀ accesses s, Run Traced.Step (tracedFrom ser.buffer) accesses s →
        s.history.consumed = b.unread.length →
        ∃ behind, s.history.committed =
            b.unread ++ encodeItems o groups.flatten ++ behind ∧
          s.buffer.unread = encodeItems o groups.flatten ++ behind ∧
          let r := Deserializer.statements o ⟨s.buffer, bytesRead⟩ targets
          r.1.flatten = groups.flatten ∧ r.2.bytesRead = bytesRead + total ∧
            Consumes s.buffer total r.2.buffer ∧ r.2.buffer.unread = behind := by
  intro total ser
  obtain ⟨happends, hwritten⟩ := Serializer.chain_appends (o := o) groups.flatten
    ⟨b, bytesWritten⟩ hb.consistent hroom
  rw [← Serializer.statements_flatten] at happends hwritten
  refine ⟨happends.unread_eq, encodeItems_length _, hwritten, ?_⟩
  intro accesses s hrun hconsumed
  have hlen : b.unread.length ≤ ser.buffer.unread.length := by
    rw [happends.unread_eq, List.length_append]
    exact Nat.le_add_right _ _
  obtain ⟨hc, behind, hcommitted, hunread⟩ :=
    unread_after_run happends.consistent hrun hconsumed hlen
  rw [happends.unread_eq] at hcommitted
  rw [happends.unread_eq, List.drop_left] at hunread
  obtain ⟨hvalues, hadvances, hrest⟩ := Deserializer.chain_encodeItems
    ⟨s.buffer, bytesRead⟩ hc htypes hunread
  obtain ⟨hflatten, har⟩ := Deserializer.statements_flatten (o := o) ⟨s.buffer, bytesRead⟩ targets
  rw [hflatten] at hvalues
  rw [har] at hadvances hrest
  exact ⟨behind, hcommitted, hunread, hvalues, hadvances.bytesRead_eq, hadvances.consumes, hrest⟩

def sevenItem : Item := ⟨.integer .one, (7 : BitVec 8)⟩

def nestedItem : Item :=
  ⟨.record [.integer .two, .record [.integer .one]],
    ((0x0102 : BitVec 16), ((3 : BitVec 8), ()), ())⟩

theorem archive_round_trip_regrouped :
    let b := ((new 8).write [9]).2
    let ser := Serializer.statements .little ⟨b, 0⟩ [[sevenItem, nestedItem], [sevenItem]]
    ∃ s, Run Traced.Step (tracedFrom ser.buffer) [.write [5], .consume 1] s ∧
      (Deserializer.statements .little ⟨s.buffer, 0⟩
        [[⟨sevenItem.1, sevenItem.1.zero⟩],
          [⟨nestedItem.1, nestedItem.1.zero⟩, ⟨sevenItem.1, sevenItem.1.zero⟩]]).1.flatten =
        [sevenItem, nestedItem, sevenItem] := by
  intro b ser
  have h := archive_round_trip .little [[sevenItem, nestedItem], [sevenItem]]
    [[⟨sevenItem.1, sevenItem.1.zero⟩],
      [⟨nestedItem.1, nestedItem.1.zero⟩, ⟨sevenItem.1, sevenItem.1.zero⟩]] b
    ((Reachable.new 8).write (by decide)) (by decide) rfl 0 0
  have hrun : Run Traced.Step (tracedFrom ser.buffer) [.write [5], .consume 1] _ :=
    .cons ⟨by decide, rfl⟩ (.cons ⟨by decide, rfl⟩ (.nil _))
  obtain ⟨behind, -, -, hvalues, -⟩ := h.2.2.2 _ _ hrun (by decide)
  exact ⟨_, hrun, hvalues⟩

end Eestv
