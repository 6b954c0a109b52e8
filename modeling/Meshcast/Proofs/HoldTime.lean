import Meshcast.Proofs.Handling

/-!
# Meshcast — once within the hold time

Whatever comes in twice is handled once, and is sent on once, for as long as it is remembered. The
mark of a message may be renewed by later copies, may come to say that the message was sent on, and
may be dropped once it is dead; until its deadline none of this takes it away.

* **`Node.handled?`**, **`Node.response?`** — which packet an operation has handed to a handler, and
  what it answers; **`toInformationBase_perform`** — to hand a packet to a handler is to learn from
  it, as **`Node.taught`** says.
* **`Node.Remembers`** — the invariant: a mark that lives at least until a deadline;
  **`Remembers.perform`** — every operation preserves it.
* **`apart_of_remembers`** — what leaves such a mark, and does not happen under it, happens again
  only after the hold time.
* **`once_within_holdTime`** — the result.
-/

namespace Meshcast

/-! ## Packets that come in, and answers -/

/-- The control packet that an operation brings in, and the neighbor it comes from. -/
def Operation.packet? : Operation → Option (Packet × Address)
  | .receiveControl bytes neighbor =>
    match Packet.decode bytes with
    | .ok packet => some (packet, neighbor)
    | .error _ => none
  | .receivePacket packet neighbor => some (packet, neighbor)
  | _ => none

/-- One packet is sent on as the other: it is the same but for the hops. -/
structure Packet.SentOnAs (packet sent : Packet) : Prop where
  body : sent.body = packet.body
  validity : sent.header.validity = packet.header.validity
  originator : sent.header.originator = packet.header.originator
  seq : sent.header.seq = packet.header.seq
  ttl : sent.header.ttl.toNat + 1 = packet.header.ttl.toNat
  hopCount : sent.header.hopCount.toNat = min (packet.header.hopCount.toNat + 1) 255

theorem Packet.sentOnAs_of_forwarded? {packet sent : Packet} (h : packet.forwarded? = some sent) :
    1 < packet.header.ttl.toNat ∧ packet.SentOnAs sent := by
  unfold forwarded? at h
  split at h
  · nomatch h
  · rename_i httl
    rw [UInt8.le_iff_toNat_le] at httl
    have hlarge : 1 < packet.header.ttl.toNat := Nat.lt_of_not_le httl
    obtain rfl := Option.some.inj h
    refine ⟨hlarge, rfl, rfl, rfl, rfl, ?_, ?_⟩
    · have hle : (1 : UInt8) ≤ packet.header.ttl := UInt8.le_iff_toNat_le.2 (Nat.le_of_lt hlarge)
      show (packet.header.ttl - 1).toNat + 1 = packet.header.ttl.toNat
      rw [UInt8.toNat_sub_of_le _ _ hle]
      exact Nat.sub_add_cancel (Nat.le_of_lt hlarge)
    · have hbound := packet.header.hopCount.toNat_lt
      show (if packet.header.hopCount = 255 then 255 else packet.header.hopCount + 1).toNat = _
      split
      · rename_i hfull
        rw [hfull]
        rfl
      · rename_i hroom
        have hne : packet.header.hopCount.toNat ≠ 255 := fun h => hroom (UInt8.toNat_inj.1 h)
        rw [UInt8.toNat_add]
        show (packet.header.hopCount.toNat + 1) % 256 = _
        omega

namespace Node

/-- Whether a packet that comes in is handed to the handler of its kind. -/
def handles (node : Node) (now : Nat) (packet : Packet) (neighbor : Address) : Bool :=
  packet.header.originator ≠ node.address && neighbor ≠ node.address && !node.hasSeen now packet

/-- The packet that an operation has handed to a handler. -/
def handled? (node : Node) (now : Nat) (op : Operation) : Option Packet :=
  (op.packet?.filter fun (packet, neighbor) => node.handles now packet neighbor).map Prod.fst

/-- The packet that an operation has sent on. -/
def response? (node : Node) (now : Nat) : Operation → Option Packet
  | .receiveControl bytes neighbor => (node.receiveControl now bytes neighbor).1
  | .receivePacket packet neighbor => (node.receivePacket now packet neighbor).1
  | _ => none

theorem handles_iff {node : Node} {now : Nat} {packet : Packet} {neighbor : Address} :
    node.handles now packet neighbor = true ↔ packet.header.originator ≠ node.address
      ∧ neighbor ≠ node.address ∧ node.hasSeen now packet = false := by
  unfold handles
  simp [and_assoc]

/-- To send an announcement on teaches nothing. -/
theorem toInformationBase_of_tc {node : Node} {packet : Packet} {tc : Tc} {neighbor : Address}
    (now : Nat) (hbody : packet.body = .tc tc) (hforeign : packet.header.originator ≠ node.address)
    (hother : neighbor ≠ node.address) :
    (node.receivePacket now packet neighbor).2.toInformationBase
      = node.baseAfter now packet tc neighbor := by
  rw [receivePacket_tc now hbody hforeign hother]
  obtain ⟨duplicates, hforward⟩ := forward_eq
    (node.withBase (node.baseAfter now packet tc neighbor)) now (node.messageId packet) packet
    neighbor
  rw [hforward]
  rfl

/-- What a node knows once the handler of its kind has learned from a packet. -/
def taught (node : Node) (now : Nat) (packet : Packet) (neighbor : Address) : InformationBase :=
  match packet.body with
  | .hello hello =>
    ((node.acquainted packet).applyHello now neighbor hello packet.header.validity).2
  | .tc tc =>
    ((node.acquainted packet).applyTc now packet.header.originator neighbor tc
      packet.header.validity).2

/-- A packet that is handed to its handler is learned from. -/
theorem toInformationBase_of_handles {node : Node} {now : Nat} {packet : Packet}
    {neighbor : Address} (h : node.handles now packet neighbor = true) :
    (node.receivePacket now packet neighbor).2.toInformationBase
      = node.taught now packet neighbor := by
  obtain ⟨hforeign, hother, hfresh⟩ := handles_iff.1 h
  unfold taught
  cases hbody : packet.body with
  | hello hello =>
    rw [receivePacket_hello now hbody hforeign hother, hfresh, if_neg Bool.false_ne_true]
    rfl
  | tc tc =>
    rw [toInformationBase_of_tc now hbody hforeign hother]
    unfold baseAfter
    rw [hfresh, if_neg Bool.false_ne_true]

/-- Any other packet teaches at most who its originator is. -/
theorem toInformationBase_of_not_handles {node : Node} {now : Nat} {packet : Packet}
    {neighbor : Address} (h : node.handles now packet neighbor = false) :
    (node.receivePacket now packet neighbor).2.toInformationBase = node.toInformationBase
      ∨ (node.receivePacket now packet neighbor).2.toInformationBase = node.acquainted packet := by
  by_cases hown : packet.header.originator = node.address ∨ neighbor = node.address
  · rw [receivePacket_own now hown]
    exact .inl rfl
  · rw [not_or] at hown
    have hseen : node.hasSeen now packet = true := by
      by_contra hfresh
      rw [Bool.not_eq_true] at hfresh
      rw [handles_iff.2 ⟨hown.1, hown.2, hfresh⟩] at h
      nomatch h
    right
    cases hbody : packet.body with
    | hello hello =>
      rw [receivePacket_hello now hbody hown.1 hown.2, hseen, if_pos rfl]
      rfl
    | tc tc =>
      rw [toInformationBase_of_tc now hbody hown.1 hown.2]
      unfold baseAfter
      rw [hseen, if_pos rfl]

theorem perform_of_packet? {op : Operation} {packet : Packet} {neighbor : Address}
    (h : op.packet? = some (packet, neighbor)) (node : Node) (now : Nat) :
    node.perform now op = (node.receivePacket now packet neighbor).2
      ∧ node.response? now op = (node.receivePacket now packet neighbor).1 := by
  cases op with
  | receiveControl bytes sender =>
    unfold Operation.packet? at h
    unfold perform response? receiveControl
    dsimp only at h ⊢
    cases hdecode : Packet.decode bytes with
    | ok received =>
      rw [hdecode] at h
      obtain ⟨rfl, rfl⟩ := Prod.mk.inj (Option.some.inj h)
      exact ⟨rfl, rfl⟩
    | error cause =>
      rw [hdecode] at h
      nomatch h
  | receivePacket received sender =>
    obtain ⟨rfl, rfl⟩ := Prod.mk.inj (Option.some.inj h)
    exact ⟨rfl, rfl⟩
  | _ => nomatch h

theorem exists_packet?_of_response? {node : Node} {now : Nat} {op : Operation} {sent : Packet}
    (h : node.response? now op = some sent) :
    ∃ packet neighbor, op.packet? = some (packet, neighbor) := by
  cases op with
  | receiveControl bytes sender =>
    unfold response? receiveControl at h
    dsimp only at h
    unfold Operation.packet?
    dsimp only
    cases hdecode : Packet.decode bytes with
    | ok packet => exact ⟨packet, sender, rfl⟩
    | error cause =>
      rw [hdecode] at h
      nomatch h
  | receivePacket packet sender => exact ⟨packet, sender, rfl⟩
  | _ => nomatch h

end Node

/-! ## Marks that live on -/

namespace Duplicates

/-- A message is marked at least until a limit, and as sent on if `sent` says so. -/
def MarkedUntil (d : Duplicates) (id : MessageId) (sent : Bool) (limit : Nat) : Prop :=
  ∃ slot : Slot Bool, d.marks.slots[id]? = some slot ∧ limit ≤ slot.expiresAt
    ∧ (sent = true → slot.value = true)

variable {d : Duplicates} {id : MessageId} {sent : Bool} {now limit : Nat}

theorem markedUntil_mark (d : Duplicates) (now : Nat) (id : MessageId) (sent : Bool) :
    (d.mark now id sent).MarkedUntil id sent (deadline now d.holdTime) := by
  refine ⟨⟨sent || d.retransmitted now id, deadline now d.holdTime⟩, ?_, Nat.le_refl _, ?_⟩
  · rw [slots_mark, Std.ExtTreeMap.getElem?_insert_self]
  · rintro rfl
    exact Bool.true_or (d.retransmitted now id)

theorem MarkedUntil.get?_eq (h : d.MarkedUntil id sent limit) (hnow : now < limit) :
    ∃ mark, d.marks.get? now id = some mark ∧ (sent = true → mark = true) := by
  obtain ⟨slot, hslot, hlimit, hsent⟩ := h
  have hlive : slot.isLive now = true := decide_eq_true (Nat.lt_of_lt_of_le hnow hlimit)
  exact ⟨slot.value, ExpiringTable.get?_eq_some_iff.2 ⟨slot, hslot, hlive, rfl⟩, hsent⟩

theorem MarkedUntil.seen (h : d.MarkedUntil id sent limit) (hnow : now < limit) :
    d.seen now id = true := by
  obtain ⟨mark, hmark, -⟩ := h.get?_eq hnow
  unfold Duplicates.seen ExpiringTable.contains
  rw [hmark]
  rfl

theorem MarkedUntil.retransmitted (h : d.MarkedUntil id true limit) (hnow : now < limit) :
    d.retransmitted now id = true := by
  obtain ⟨mark, hmark, hsent⟩ := h.get?_eq hnow
  unfold Duplicates.retransmitted
  rw [hmark]
  exact hsent rfl

/-- Another copy renews the mark, and does not forget that the message was sent on. -/
theorem MarkedUntil.mark (h : d.MarkedUntil id sent limit) (hnow : now < limit)
    (hlimit : limit ≤ deadline now d.holdTime) (other : MessageId) (sentNow : Bool) :
    (d.mark now other sentNow).MarkedUntil id sent limit := by
  by_cases heq : other = id
  · subst heq
    obtain ⟨slot, hslot, hexpires, hvalue⟩ := d.markedUntil_mark now other sentNow
    rw [slots_mark, Std.ExtTreeMap.getElem?_insert_self] at hslot
    refine ⟨slot, ?_, Nat.le_trans hlimit hexpires, ?_⟩
    · rw [slots_mark, Std.ExtTreeMap.getElem?_insert_self]
      exact hslot
    · rintro rfl
      rw [h.retransmitted hnow, Bool.or_true] at hslot
      exact (Option.some.inj hslot) ▸ rfl
  · obtain ⟨slot, hslot, hrest⟩ := h
    refine ⟨slot, ?_, hrest⟩
    rw [slots_mark, Std.ExtTreeMap.getElem?_insert]
    simp only [Std.compare_eq_iff_eq, heq, if_false]
    exact hslot

theorem MarkedUntil.sweep (h : d.MarkedUntil id sent limit) (hnow : now < limit) :
    (d.sweep now).2.MarkedUntil id sent limit := by
  obtain ⟨slot, hslot, hexpires, hvalue⟩ := h
  refine ⟨slot, ?_, hexpires, hvalue⟩
  have hlive : slot.isLive now = true := decide_eq_true (Nat.lt_of_lt_of_le hnow hexpires)
  show (d.marks.slots.filter fun _ slot => slot.isLive now)[id]? = some slot
  rw [Std.ExtTreeMap.getElem?_filter', hslot]
  exact Option.filter_some_pos hlive

end Duplicates

namespace Node

/-- The originator of a packet is known by the identifier under which the packet is marked. -/
theorem lookup?_originator_receivePacket {node : Node} {packet : Packet} {neighbor : Address}
    (now : Nat) (hforeign : packet.header.originator ≠ node.address)
    (hother : neighbor ≠ node.address) :
    (node.receivePacket now packet neighbor).2.registry.lookup? packet.header.originator
      = some (node.messageId packet).originator := by
  have hknown : (node.acquainted packet).registry.lookup? packet.header.originator
      = some (node.messageId packet).originator := by
    show (node.registry.intern packet.header.originator).2.lookup? packet.header.originator = _
    rw [Registry.lookup?_intern, if_pos rfl]
    rfl
  cases hbody : packet.body with
  | hello hello =>
    rw [receivePacket_hello now hbody hforeign hother]
    dsimp only
    split
    · exact hknown
    · exact (InformationBase.grows_applyHello (node.acquainted packet) now neighbor hello
        packet.header.validity).registry _ _ hknown
  | tc tc =>
    exact (tcHandled_receivePacket now hbody hforeign hother).extends_acquainted _ _ hknown

theorem duplicates_receivePacket (node : Node) (now : Nat) (packet : Packet) (neighbor : Address) :
    let node' := (node.receivePacket now packet neighbor).2
    node'.duplicates = node.duplicates
      ∨ ∃ id sent, node'.duplicates = node.duplicates.mark now id sent
        ∧ ∃ a, node'.registry.address? id.originator = some a := by
  intro node'
  by_cases hown : packet.header.originator = node.address ∨ neighbor = node.address
  · exact .inl (congrArg (fun result => result.2.duplicates) (receivePacket_own now hown))
  · rw [not_or] at hown
    have hknown := (Registry.lookup?_eq_some_iff _ _ _).1
      (node.lookup?_originator_receivePacket now hown.1 hown.2)
    have hreceived : Received node now packet neighbor node' :=
      node.received_receivePacket now packet neighbor
    change node'.registry.address? _ = _ at hknown
    generalize node' = node' at hreceived hknown ⊢
    cases hreceived with
    | own => exact .inl rfl
    | repeated => exact .inl rfl
    | greeted hello => exact .inr ⟨_, false, rfl, _, hknown⟩
    | announced tc sent base duplicates _ _ _ h =>
      rw [h.duplicates]
      split
      · exact .inl rfl
      · exact .inr ⟨_, _, rfl, _, hknown⟩

/-- What an operation makes of the marks. Whatever is marked has a known originator. -/
theorem duplicates_perform (node : Node) (now : Nat) (op : Operation) :
    (node.perform now op).duplicates = node.duplicates
      ∨ (node.perform now op).duplicates = (node.duplicates.sweep now).2
      ∨ ∃ id sent, (node.perform now op).duplicates = node.duplicates.mark now id sent
        ∧ ∃ a, (node.perform now op).registry.address? id.originator = some a := by
  cases op with
  | receiveControl bytes neighbor =>
    unfold perform receiveControl
    dsimp only
    split
    · exact (node.duplicates_receivePacket now _ neighbor).imp_right .inr
    · exact .inl rfl
  | receivePacket packet neighbor =>
    exact (node.duplicates_receivePacket now packet neighbor).imp_right .inr
  | sweep => exact .inr (.inl rfl)
  | recompute =>
    left
    unfold perform recompute updateRelays
    dsimp only
    repeat' split
    all_goals rfl
  | receiveData bytes =>
    left
    unfold perform
    dsimp only
    split <;> rfl
  | _ => exact .inl rfl

/-- A message is marked at least until a limit, and as sent on if `sent` says so. -/
def Remembers (node : Node) (originator : Address) (seq : SeqNum) (sent : Bool) (limit : Nat) :
    Prop :=
  ∃ id, node.registry.lookup? originator = some id
    ∧ node.duplicates.MarkedUntil ⟨id, seq⟩ sent limit

variable {node : Node} {originator : Address} {seq : SeqNum} {sent : Bool} {now limit : Nat}
  {packet : Packet} {neighbor : Address}

/-- Until its limit, a mark outlives every operation. -/
theorem Remembers.perform (h : node.Remembers originator seq sent limit) (hnow : now < limit)
    (hlimit : limit ≤ deadline now node.duplicates.holdTime) (op : Operation) :
    (node.perform now op).Remembers originator seq sent limit := by
  obtain ⟨id, hid, hmarked⟩ := h
  refine ⟨id, (grows_perform node now op).base.registry _ _ hid, ?_⟩
  rcases node.duplicates_perform now op with hsame | hswept | ⟨other, sentNow, hmark, -⟩
  · rwa [hsame]
  · rw [hswept]
    exact hmarked.sweep hnow
  · rw [hmark]
    exact hmarked.mark hnow hlimit other sentNow

theorem messageId_of_lookup? {id : NodeId}
    (h : node.registry.lookup? packet.header.originator = some id) :
    node.messageId packet = ⟨id, packet.header.seq⟩ := by
  unfold messageId
  rw [Registry.intern_of_lookup? h]

theorem Remembers.hasSeen
    (h : node.Remembers packet.header.originator packet.header.seq sent limit)
    (hnow : now < limit) : node.hasSeen now packet = true := by
  obtain ⟨id, hid, hmarked⟩ := h
  unfold Node.hasSeen
  rw [messageId_of_lookup? hid]
  exact hmarked.seen hnow

theorem Remembers.hasSentOn
    (h : node.Remembers packet.header.originator packet.header.seq true limit)
    (hnow : now < limit) : node.hasSentOn now packet = true := by
  obtain ⟨id, hid, hmarked⟩ := h
  unfold Node.hasSentOn
  rw [messageId_of_lookup? hid]
  exact hmarked.retransmitted hnow

/-- Once a packet was marked, it is remembered for the hold time. -/
theorem remembers_of_mark {sent : Bool}
    (h : (node.receivePacket now packet neighbor).2.duplicates
      = node.duplicates.mark now (node.messageId packet) sent)
    (hforeign : packet.header.originator ≠ node.address) (hother : neighbor ≠ node.address) :
    (node.receivePacket now packet neighbor).2.Remembers packet.header.originator
      packet.header.seq sent (deadline now node.duplicates.holdTime) := by
  refine ⟨(node.messageId packet).originator,
    lookup?_originator_receivePacket now hforeign hother, ?_⟩
  rw [h]
  exact node.duplicates.markedUntil_mark now (node.messageId packet) sent

/-! ## What marks a packet, and what a mark prevents -/

variable {op : Operation}

theorem exists_of_handled? {p : Packet} (h : node.handled? now op = some p) :
    ∃ neighbor, op.packet? = some (p, neighbor) ∧ node.handles now p neighbor = true := by
  unfold handled? at h
  obtain ⟨⟨received, neighbor⟩, hfilter, rfl⟩ := Option.map_eq_some_iff.1 h
  obtain ⟨hpacket, hhandles⟩ := Option.filter_eq_some_iff.1 hfilter
  exact ⟨neighbor, hpacket, hhandles⟩

/-- Whether a packet was handed to its handler shows in what the node knows afterwards. -/
theorem toInformationBase_perform {p : Packet} (hpacket : op.packet? = some (p, neighbor)) :
    let base := (node.perform now op).toInformationBase
    (node.handled? now op = some p → base = node.taught now p neighbor)
      ∧ (node.handled? now op = none → base = node.toInformationBase ∨ base = node.acquainted p) := by
  have hhandled : node.handled? now op =
      if node.handles now p neighbor = true then some p else none := by
    unfold handled?
    rw [hpacket, Option.filter_some]
    dsimp only
    split <;> rfl
  dsimp only
  rw [(perform_of_packet? hpacket node now).1, hhandled]
  split
  · rename_i hhandles
    exact ⟨fun _ => toInformationBase_of_handles hhandles, nofun⟩
  · rename_i hhandles
    rw [Bool.not_eq_true] at hhandles
    exact ⟨nofun, fun _ => toInformationBase_of_not_handles hhandles⟩

/-- A packet that is handled is remembered from then on. -/
theorem remembers_of_handled? {p : Packet} (h : node.handled? now op = some p) :
    (node.perform now op).Remembers p.header.originator p.header.seq false
      (deadline now node.duplicates.holdTime) := by
  obtain ⟨neighbor, hpacket, hhandles⟩ := exists_of_handled? h
  obtain ⟨hforeign, hother, hfresh⟩ := handles_iff.1 hhandles
  rw [(perform_of_packet? hpacket node now).1]
  cases hbody : p.body with
  | hello hello =>
    refine remembers_of_mark ?_ hforeign hother
    rw [receivePacket_hello now hbody hforeign hother, hfresh, if_neg Bool.false_ne_true]
    rfl
  | tc tc =>
    have hmark := (tcHandled_receivePacket now hbody hforeign hother).duplicates
    rw [hasSentOn_of_not_hasSeen hfresh, if_neg Bool.false_ne_true] at hmark
    obtain ⟨id, hid, slot, hslot, hlimit, -⟩ := remembers_of_mark hmark hforeign hother
    exact ⟨id, hid, slot, hslot, hlimit, nofun⟩

/-- An answer is an announcement of somebody else, which has hops left and comes from a symmetric
neighbor that chose the node as a relay. It is the first one for as long as it is remembered. -/
theorem exists_of_response? {sent : Packet} (hknown : node.NeighborsKnown)
    (h : node.response? now op = some sent) :
    ∃ received tc neighbor id, op.packet? = some (received, neighbor)
      ∧ received.body = .tc tc ∧ received.header.originator ≠ node.address
      ∧ neighbor ≠ node.address ∧ node.hasSentOn now received = false
      ∧ 1 < received.header.ttl.toNat
      ∧ node.registry.lookup? neighbor = some id ∧ node.neighbors.isSymmetric now id = true
      ∧ id ∈ node.selectors.members ∧ received.SentOnAs sent := by
  obtain ⟨received, neighbor, hpacket⟩ := exists_packet?_of_response? h
  rw [(perform_of_packet? hpacket node now).2] at h
  by_cases hown : received.header.originator = node.address ∨ neighbor = node.address
  · rw [receivePacket_own now hown] at h
    nomatch h
  · rw [not_or] at hown
    cases hbody : received.body with
    | hello hello =>
      rw [receivePacket_hello now hbody hown.1 hown.2] at h
      nomatch h
    | tc tc =>
      have hhandled := tcHandled_receivePacket now hbody hown.1 hown.2
      have hsent := hhandled.sent_eq
      rw [h] at hsent
      split at hsent
      · rename_i hrelays
        rw [Bool.and_eq_true, Bool.not_eq_true'] at hrelays
        obtain ⟨hfirst, hrelays⟩ := hrelays
        unfold relaysFor at hrelays
        rw [hhandled.neighbors, hhandled.selectors, Option.any_eq_true] at hrelays
        obtain ⟨id, hid, hchosen⟩ := hrelays
        rw [Bool.and_eq_true, Std.ExtTreeSet.contains_iff_mem] at hchosen
        have hregistry : node.registry.Extends (node.receivePacket now received neighbor).2.registry :=
          (node.registry.extends_intern _).trans hhandled.extends_acquainted
        obtain ⟨httl, hcopy⟩ := Packet.sentOnAs_of_forwarded? hsent.symm
        exact ⟨received, tc, neighbor, id, hpacket, hbody, hown.1, hown.2, hfirst, httl,
          hknown.lookup?_eq hregistry hid hchosen.2, hchosen.2, hchosen.1, hcopy⟩
      · nomatch hsent

/-- A packet that is sent on is remembered as such from then on. -/
theorem remembers_of_response? {sent : Packet} (hknown : node.NeighborsKnown)
    (h : node.response? now op = some sent) :
    (node.perform now op).Remembers sent.header.originator sent.header.seq true
      (deadline now node.duplicates.holdTime) := by
  obtain ⟨received, tc, neighbor, -, hpacket, hbody, hforeign, hother, hfirst, -, -, -, -, hcopy⟩ :=
    exists_of_response? hknown h
  obtain ⟨hperform, hresponse⟩ := perform_of_packet? hpacket node now
  have hmark := (tcHandled_receivePacket now hbody hforeign hother).duplicates
  rw [hfirst, if_neg Bool.false_ne_true, ← hresponse, h] at hmark
  rw [hperform, hcopy.originator, hcopy.seq]
  exact remembers_of_mark hmark hforeign hother

end Node

/-! ## Runs -/

namespace Moment

variable {m : Moment}

/-- Until its limit, a mark outlives every run. -/
theorem remembers_of_mem_visits {originator : Address} {seq : SeqNum} {sent : Bool} {limit : Nat}
    (h : m.now < limit → m.node.Remembers originator seq sent limit)
    (hlimit : limit ≤ deadline m.now m.node.duplicates.holdTime) {ops : List Operation}
    {v : Moment × Operation} (hv : v ∈ visits step m ops) (hnow : v.1.now < limit) :
    v.1.node.Remembers originator seq sent limit := by
  induction ops generalizing m with
  | nil => nomatch hv
  | cons op rest ih =>
    rcases List.mem_cons.1 hv with rfl | hv
    · exact h hnow
    · refine ih ?_ ?_ hv
      · intro hlater
        have hnow : m.now < limit := Nat.lt_of_le_of_lt (Nat.le_add_right _ _) hlater
        exact (h hnow).perform hnow hlimit op
      · rw [show (m.step op).node.duplicates.holdTime = _ from
          (Node.grows_perform m.node m.now op).holdTime_eq]
        exact Nat.le_trans hlimit (Nat.add_le_add_right (Nat.le_add_right _ _) _)

/-- What leaves a mark, and does not happen under the mark, happens again for the same message only
after the hold time. -/
theorem apart_of_remembers {event? : Moment → Operation → Option Packet} {sent : Bool}
    (hmarks : ∀ m op p, m.node.NeighborsKnown → event? m op = some p →
      (m.node.perform m.now op).Remembers p.header.originator p.header.seq sent
        (deadline m.now m.node.duplicates.holdTime))
    (hbarred : ∀ m op p limit, m.node.NeighborsKnown → event? m op = some p →
      m.node.Remembers p.header.originator p.header.seq sent limit → limit ≤ m.now)
    (hm : m.node.NeighborsKnown) (ops : List Operation) :
    (visits step m ops).Pairwise fun v w => ∀ p q, event? v.1 v.2 = some p →
      event? w.1 w.2 = some q → p.header.originator = q.header.originator →
        p.header.seq = q.header.seq →
          v.1.now + min m.node.duplicates.holdTime maxLifetime ≤ w.1.now := by
  induction ops generalizing m with
  | nil => exact .nil
  | cons op rest ih =>
    have hgrows := Node.grows_perform m.node m.now op
    have hholdTime : (m.step op).node.duplicates.holdTime = m.node.duplicates.holdTime :=
      hgrows.holdTime_eq
    have hnext : (m.step op).node.NeighborsKnown := hm.grows hgrows.base
    refine .cons ?_ ?_
    · intro w hw p q hp hq horiginator hseq
      by_contra hearly
      have hearly : w.1.now < deadline m.now m.node.duplicates.holdTime := Nat.lt_of_not_le hearly
      -- the mark of the first one is still there when the second one comes
      have hmark : w.1.node.Remembers p.header.originator p.header.seq sent
          (deadline m.now m.node.duplicates.holdTime) := by
        refine remembers_of_mem_visits (fun _ => hmarks m op p hm hp) ?_ hw hearly
        rw [hholdTime]
        exact Nat.add_le_add_right (Nat.le_add_right _ _) _
      rw [horiginator, hseq] at hmark
      obtain ⟨before, hbefore⟩ := exists_foldl_of_mem_visits hw
      have hw' : w.1.node.NeighborsKnown := by
        rw [hbefore]
        exact run_induction (P := fun m => m.node.NeighborsKnown) hnext
          (fun m op h => h.grows (Node.grows_perform m.node m.now op).base) before
      exact Nat.not_lt.2 (hbarred w.1 w.2 q _ hw' hq hmark) hearly
    · rw [← hholdTime]
      exact ih hnext

end Moment

/-- **Handled once and sent on once within the hold time.** In every run of a node, two packets of
one originator and with one number that are handed to a handler, greetings or announcements, come in
at least the hold time apart, and so do two of them that are sent on. What is sent on is an
announcement of somebody else with hops left, never a greeting; it comes from a neighbor that at
that moment is symmetric and chose the node as a relay, and it has one hop less to go and one more
behind it. To be handed to a handler is to be learned from: any other packet that comes in teaches
at most who its originator is. -/
theorem once_within_holdTime (address : Address) (config : Config) (since : Nat)
    (ops : List Operation) :
    let steps := visits Moment.step (Moment.start address config since) ops
    let hold := min config.duplicateHoldTime maxLifetime
    (steps.Pairwise fun v w => ∀ p q, v.1.node.handled? v.1.now v.2 = some p →
        w.1.node.handled? w.1.now w.2 = some q → p.header.originator = q.header.originator →
          p.header.seq = q.header.seq → v.1.now + hold ≤ w.1.now)
      ∧ (steps.Pairwise fun v w => ∀ p q, v.1.node.response? v.1.now v.2 = some p →
        w.1.node.response? w.1.now w.2 = some q → p.header.originator = q.header.originator →
          p.header.seq = q.header.seq → v.1.now + hold ≤ w.1.now)
      ∧ (∀ v ∈ steps, ∀ sent, v.1.node.response? v.1.now v.2 = some sent →
        ∃ received tc neighbor id, v.2.packet? = some (received, neighbor)
          ∧ received.body = .tc tc ∧ received.header.originator ≠ address
          ∧ 1 < received.header.ttl.toNat
          ∧ v.1.node.registry.lookup? neighbor = some id
          ∧ v.1.node.neighbors.isSymmetric v.1.now id = true
          ∧ id ∈ v.1.node.selectors.members ∧ received.SentOnAs sent)
      ∧ ∀ v ∈ steps, ∀ received neighbor, v.2.packet? = some (received, neighbor) →
        let base := (v.1.node.perform v.1.now v.2).toInformationBase
        (v.1.node.handled? v.1.now v.2 = some received →
            base = v.1.node.taught v.1.now received neighbor)
          ∧ (v.1.node.handled? v.1.now v.2 = none →
            base = v.1.node.toInformationBase ∨ base = v.1.node.acquainted received) := by
  intro steps hold
  have hstart : (Moment.start address config since).node.NeighborsKnown := by
    intro id hid
    exact absurd hid Std.ExtTreeMap.not_mem_empty
  refine ⟨?_, ?_, ?_, fun v _ received neighbor hpacket => Node.toInformationBase_perform hpacket⟩
  · refine Moment.apart_of_remembers (fun m op p _ hp => Node.remembers_of_handled? hp) ?_ hstart ops
    intro m op p limit _ hp hmark
    obtain ⟨neighbor, -, hhandles⟩ := Node.exists_of_handled? hp
    by_contra hearly
    have hseen := hmark.hasSeen (Nat.lt_of_not_le hearly)
    rw [(Node.handles_iff.1 hhandles).2.2] at hseen
    nomatch hseen
  · refine Moment.apart_of_remembers (fun m op p hm hp => Node.remembers_of_response? hm hp) ?_
      hstart ops
    intro m op p limit hm hp hmark
    obtain ⟨received, -, -, -, -, -, -, -, hfirst, -, -, -, -, hcopy⟩ :=
      Node.exists_of_response? hm hp
    by_contra hearly
    rw [hcopy.originator, hcopy.seq] at hmark
    rw [hmark.hasSentOn (Nat.lt_of_not_le hearly)] at hfirst
    nomatch hfirst
  · intro v hv sent hsent
    obtain ⟨before, hbefore⟩ := exists_foldl_of_mem_visits hv
    have hnode : ((Moment.start address config since).run before).node = v.1.node := by
      rw [hbefore]
      rfl
    obtain ⟨received, tc, neighbor, id, hpacket, hbody, hforeign, -, -, hrest⟩ :=
      Node.exists_of_response? (fun id hid => (Node.neighbor_run hnode hid).2) hsent
    rw [Node.address_run hnode] at hforeign
    exact ⟨received, tc, neighbor, id, hpacket, hbody, hforeign, hrest⟩

end Meshcast
