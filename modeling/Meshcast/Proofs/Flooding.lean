import Mathlib.Data.Fintype.Card
import Meshcast.Proofs.Network

/-!
# Meshcast — flooding reaches everybody

An announcement is sent on by the relays only, and by each of them once; nevertheless it reaches
every node that can be reached at all, whichever relays the nodes chose and in whatever order the
deliveries are taken.

* **`Network.Progress`** — the invariant of a flood: what every node has seen and sent on, how far
  the copies in flight may still travel, and what became of the transmissions so far.
* **`progress_deliver`** — every delivery preserves it.
* **`handler_of_walk`** — in a flood that came to rest, whoever is connected to a transmitter was
  reached: of the transmitters, one is closest, and a relay of it would be closer.
* **`Network.Logged`**, **`logged_deliver`** — a delivery is logged as handed over if the handler
  learns from it, and not otherwise.
* **`flood_reaches_all`** — the result; **`forgetful_flood_repeats`** — why the nodes must remember.
-/

namespace Meshcast

namespace Node

/-- From `node` to `node'` participants may have become known, and links and memberships may be
others; who the node is, its neighbors and its selectors are the same. -/
structure Descends (node node' : Node) : Prop where
  registry : node.registry.Extends node'.registry
  neighbors : node'.neighbors = node.neighbors
  selectors : node'.selectors = node.selectors
  address : node'.address = node.address
  holdTime : node'.duplicates.holdTime = node.duplicates.holdTime

theorem Descends.refl (node : Node) : Descends node node :=
  ⟨.refl _, rfl, rfl, rfl, rfl⟩

theorem Descends.tcHandled {node node' node'' : Node} {now : Nat} {packet : Packet} {tc : Tc}
    {neighbor : Address} {sent : Option Packet} (h : Descends node node')
    (hstep : TcHandled node' now packet tc neighbor sent node'') : Descends node node'' where
  registry := h.registry.trans ((node'.registry.extends_intern _).trans hstep.extends_acquainted)
  neighbors := hstep.neighbors.trans h.neighbors
  selectors := hstep.selectors.trans h.selectors
  address := hstep.address.trans h.address
  holdTime := hstep.holdTime.trans h.holdTime

end Node

/-- One packet is a copy of another one: it may have travelled further. -/
structure Packet.IsCopyOf (copy packet : Packet) : Prop where
  body : copy.body = packet.body
  originator : copy.header.originator = packet.header.originator
  seq : copy.header.seq = packet.header.seq

namespace Packet.IsCopyOf

variable {copy packet : Packet}

theorem hasSeen_eq (h : copy.IsCopyOf packet) (node : Node) (now : Nat) :
    node.hasSeen now copy = node.hasSeen now packet := by
  unfold Node.hasSeen Node.messageId
  rw [h.originator, h.seq]

theorem hasSentOn_eq (h : copy.IsCopyOf packet) (node : Node) (now : Nat) :
    node.hasSentOn now copy = node.hasSentOn now packet := by
  unfold Node.hasSentOn Node.messageId
  rw [h.originator, h.seq]

theorem forwarded? (h : copy.IsCopyOf packet) (httl : 1 < copy.header.ttl.toNat) :
    ∃ next, copy.forwarded? = some next ∧ next.IsCopyOf packet
      ∧ next.header.ttl.toNat + 1 = copy.header.ttl.toNat := by
  unfold Packet.forwarded?
  have hlarge : ¬copy.header.ttl ≤ 1 := by
    rw [UInt8.le_iff_toNat_le]
    show ¬copy.header.ttl.toNat ≤ 1
    omega
  rw [if_neg hlarge]
  refine ⟨_, rfl, ⟨h.body, h.originator, h.seq⟩, ?_⟩
  show (copy.header.ttl - 1).toNat + 1 = copy.header.ttl.toNat
  have hle : (1 : UInt8) ≤ copy.header.ttl := by
    rw [UInt8.le_iff_toNat_le]
    show 1 ≤ copy.header.ttl.toNat
    omega
  rw [UInt8.toNat_sub_of_le _ _ hle]
  show copy.header.ttl.toNat - 1 + 1 = copy.header.ttl.toNat
  omega

end Packet.IsCopyOf

namespace Network

variable {n : ℕ} {net : Network n} {s : Fin n} {packet : Packet}

/-! ## The invariant -/

/-- Who transmitted the announcement. -/
def Transmitted (s : Fin n) (state : Flood n) (v : Fin n) : Prop :=
  v = s ∨ v ∈ state.sentOn

/-- What holds after a number of deliveries. -/
structure Progress (net : Network n) (s : Fin n) (packet : Packet) (steps : ℕ) (state : Flood n) :
    Prop where
  descends : ∀ v, (net.nodes v).Descends (state.nodes v)
  sentOn_nodup : state.sentOn.Nodup
  source_not_mem : s ∉ state.sentOn
  hasSentOn_iff : ∀ v, v ≠ s →
    ((state.nodes v).hasSentOn net.now packet = true ↔ v ∈ state.sentOn)
  handlers_nodup : state.handlers.Nodup
  hasSeen_iff : ∀ v, v ≠ s →
    ((state.nodes v).hasSeen net.now packet = true ↔ v ∈ state.handlers)
  handed : ∀ h ∈ state.handed, h.receiver ≠ s ∧ h.body = packet.body ∧ h.symmetric = true
  /-- Every copy has hops left for all nodes that have not sent it on yet. -/
  copies : ∀ d ∈ state.inFlight, net.graph.Adj d.sender d.receiver ∧ d.packet.IsCopyOf packet
    ∧ packet.header.ttl.toNat ≤ d.packet.header.ttl.toNat + state.sentOn.length
  /-- Whoever hears a transmitter is about to, or has seen the announcement, and if it is a relay of
  the transmitter then it has sent it on. -/
  heard : ∀ t, Transmitted s state t → ∀ x, net.graph.Adj t x → x ≠ s →
    (∃ d ∈ state.inFlight, d.sender = t ∧ d.receiver = x)
      ∨ x ∈ state.handlers ∧ (net.isRelayOf x t = true → x ∈ state.sentOn)
  /-- Every transmission makes at most as many deliveries as there are nodes. -/
  deliveries : steps + state.inFlight.length ≤ (state.sentOn.length + 1) * n

theorem mem_transmit {v : Fin n} {packet : Packet} {d : Delivery n} :
    d ∈ net.transmit v packet ↔ d.sender = v ∧ d.packet = packet ∧ net.graph.Adj v d.receiver := by
  unfold transmit
  rw [List.mem_map]
  constructor
  · rintro ⟨w, hw, rfl⟩
    rw [List.mem_filter] at hw
    exact ⟨rfl, rfl, of_decide_eq_true hw.2⟩
  · rintro ⟨hsender, hpacket, hadj⟩
    refine ⟨d.receiver, List.mem_filter.2 ⟨List.mem_finRange _, decide_eq_true hadj⟩, ?_⟩
    rw [← hsender, ← hpacket]

theorem length_transmit_le (net : Network n) (v : Fin n) (packet : Packet) :
    (net.transmit v packet).length ≤ n := by
  unfold transmit
  rw [List.length_map]
  exact (List.length_filter_le _ _).trans (List.length_finRange).le

theorem progress_emit (hfresh : ∀ v, v ≠ s → (net.nodes v).hasSeen net.now packet = false) :
    Progress net s packet 0 (net.emit s packet) where
  descends v := .refl _
  sentOn_nodup := List.nodup_nil
  source_not_mem := List.not_mem_nil
  hasSentOn_iff v hv := by
    show (net.nodes v).hasSentOn net.now packet = true ↔ v ∈ []
    rw [Node.hasSentOn_of_not_hasSeen (hfresh v hv)]
    exact ⟨nofun, fun h => absurd h List.not_mem_nil⟩
  handlers_nodup := List.nodup_nil
  hasSeen_iff v hv := by
    show (net.nodes v).hasSeen net.now packet = true ↔ v ∈ []
    rw [hfresh v hv]
    exact ⟨nofun, fun h => absurd h List.not_mem_nil⟩
  handed h hmem := absurd hmem List.not_mem_nil
  copies d hd := by
    obtain ⟨rfl, rfl, hadj⟩ := mem_transmit.1 hd
    exact ⟨hadj, ⟨rfl, rfl, rfl⟩, le_refl _⟩
  heard t ht x hadj _ := by
    rcases ht with rfl | ht
    · exact .inl ⟨⟨t, x, packet⟩, mem_transmit.2 ⟨rfl, rfl, hadj⟩, rfl, rfl⟩
    · exact absurd ht List.not_mem_nil
  deliveries := by
    show 0 + (net.transmit s packet).length ≤ (0 + 1) * n
    have := length_transmit_le net s packet
    omega

/-! ## One delivery -/

theorem isSymmetricNeighbor_descendant (hnet : net.Consistent) {v u : Fin n} {node : Node}
    (h : (net.nodes v).Descends node) (hadj : net.graph.Adj v u) :
    node.isSymmetricNeighbor net.now (net.address u) = true :=
  InformationBase.isSymmetricNeighbor_of_extends h.registry h.neighbors
    ((hnet.symmetric_iff v u).2 hadj)

theorem relaysFor_descendant (hnet : net.Consistent) {v u : Fin n} {node : Node}
    (h : (net.nodes v).Descends node) (hadj : net.graph.Adj v u) :
    node.relaysFor net.now (net.address u) = net.isRelayOf v u := by
  have hsymmetric := (hnet.symmetric_iff v u).2 hadj
  unfold InformationBase.isSymmetricNeighbor at hsymmetric
  rw [Option.any_eq_true] at hsymmetric
  obtain ⟨id, hid, hsymmetric⟩ := hsymmetric
  rw [← hnet.isSelectorOf_eq u v]
  unfold Node.relaysFor isSelectorOf
  rw [h.registry _ id hid, hid, h.selectors, h.neighbors, Option.any_some, Option.any_some,
    hsymmetric, Bool.and_true]

/-- What a delivery to a node other than the source comes to: the packet is handled, and it is sent
on exactly if the node has not done so and is a relay of the sender. -/
structure Arrival (net : Network n) (packet : Packet) (state : Flood n)
    (others : List (Delivery n)) (d : Delivery n) (sent : Option Packet) (state' : Flood n) :
    Prop where
  handled : ∃ tc, (state.nodes d.receiver).TcHandled net.now d.packet tc (net.address d.sender)
    sent (state'.nodes d.receiver)
  bystanders : ∀ v, v ≠ d.receiver → state'.nodes v = state.nodes v
  inFlight : state'.inFlight = others ++ sent.toList.flatMap (net.transmit d.receiver)
  sentOn : state'.sentOn = if sent.isSome then d.receiver :: state.sentOn else state.sentOn
  handed : state'.handed =
    if (state.nodes d.receiver).hasSeen net.now packet then state.handed
    else ⟨d.receiver, packet.body, true⟩ :: state.handed
  sent_eq : if d.receiver ∉ state.sentOn ∧ net.isRelayOf d.receiver d.sender = true then
      ∃ next, sent = some next ∧ next.IsCopyOf packet
        ∧ next.header.ttl.toNat + 1 = d.packet.header.ttl.toNat
    else sent = none

section Delivery

variable {tc : Tc} {steps : ℕ} {state : Flood n} {d : Delivery n} {others : List (Delivery n)}
  (hnet : net.Consistent) (hbody : packet.body = .tc tc)
  (horiginator : packet.header.originator = net.address s)
  (h : Progress net s packet steps state) (hd : d ∈ state.inFlight)

include h in
theorem address_state (v : Fin n) : (state.nodes v).address = net.address v :=
  (h.descends v).address

include h in
theorem one_lt_ttl (httl : n < packet.header.ttl.toNat) (hd : d ∈ state.inFlight)
    (hreceiver : d.receiver ≠ s) (hnot : d.receiver ∉ state.sentOn) :
    1 < d.packet.header.ttl.toNat := by
  -- the copy lost at most one hop to each node that sent it on, and two more nodes did not
  have hnodup : (d.receiver :: s :: state.sentOn).Nodup := by
    refine List.nodup_cons.2 ⟨?_, List.nodup_cons.2 ⟨h.source_not_mem, h.sentOn_nodup⟩⟩
    rw [List.mem_cons, not_or]
    exact ⟨hreceiver, hnot⟩
  have hcard := hnodup.length_le_card
  rw [Fintype.card_fin, List.length_cons, List.length_cons] at hcard
  obtain ⟨-, -, hhops⟩ := h.copies d hd
  omega

include hnet hbody horiginator h hd in
theorem tcHandled_delivery (hreceiver : d.receiver ≠ s) :
    (state.nodes d.receiver).handsOver net.now d.packet (net.address d.sender)
        = !(state.nodes d.receiver).hasSeen net.now packet
      ∧ (state.nodes d.receiver).TcHandled net.now d.packet tc (net.address d.sender)
        ((state.nodes d.receiver).receivePacket net.now d.packet (net.address d.sender)).1
        ((state.nodes d.receiver).receivePacket net.now d.packet (net.address d.sender)).2 := by
  obtain ⟨hadj, hcopy, -⟩ := h.copies d hd
  -- neither the originator nor the sender is the receiver
  have hforeign : d.packet.header.originator ≠ (state.nodes d.receiver).address := by
    rw [hcopy.originator, horiginator, address_state h]
    intro heq
    exact hreceiver (hnet.address_injective _ _ heq).symm
  have hother : net.address d.sender ≠ (state.nodes d.receiver).address := by
    rw [address_state h]
    intro heq
    exact hadj.ne (hnet.address_injective _ _ heq)
  constructor
  · unfold Node.handsOver
    rw [hcopy.body, hbody, decide_eq_true hforeign, decide_eq_true hother, hcopy.hasSeen_eq]
    rfl
  · exact Node.tcHandled_receivePacket net.now (hcopy.body.trans hbody) hforeign hother

include hnet h hd in
theorem sent_eq_of_tcHandled (httl : n < packet.header.ttl.toNat) (hreceiver : d.receiver ≠ s)
    {sent : Option Packet} {node : Node}
    (hhandled : (state.nodes d.receiver).TcHandled net.now d.packet tc (net.address d.sender) sent
      node) :
    if d.receiver ∉ state.sentOn ∧ net.isRelayOf d.receiver d.sender = true then
      ∃ next, sent = some next ∧ next.IsCopyOf packet
        ∧ next.header.ttl.toNat + 1 = d.packet.header.ttl.toNat
    else sent = none := by
  obtain ⟨hadj, hcopy, -⟩ := h.copies d hd
  have hsent := hhandled.sent_eq
  rw [relaysFor_descendant hnet ((h.descends _).tcHandled hhandled) hadj.symm,
    hcopy.hasSentOn_eq] at hsent
  have hiff := h.hasSentOn_iff d.receiver hreceiver
  split
  · rename_i hrelay
    have hfirst : (state.nodes d.receiver).hasSentOn net.now packet = false := by
      rw [← Bool.not_eq_true]
      exact mt hiff.1 hrelay.1
    rw [hfirst, hrelay.2] at hsent
    obtain ⟨next, hnext, hnextCopy, hhops⟩ :=
      hcopy.forwarded? (one_lt_ttl h httl hd hreceiver hrelay.1)
    exact ⟨next, hsent.trans hnext, hnextCopy, hhops⟩
  · rename_i hquiet
    rw [hsent, if_neg]
    rw [Bool.and_eq_true, Bool.not_eq_true', ← Bool.not_eq_true, hiff]
    exact hquiet

include hnet hbody horiginator h hd in
theorem arrival_deliver (httl : n < packet.header.ttl.toNat) (hreceiver : d.receiver ≠ s) :
    ∃ sent, Arrival net packet state others d sent (net.deliver state others d) := by
  obtain ⟨hadj, hcopy, -⟩ := h.copies d hd
  have haddress : (state.nodes d.sender).address = net.address d.sender := address_state h _
  obtain ⟨hhandsOver, hhandled⟩ := tcHandled_delivery hnet hbody horiginator h hd hreceiver
  refine ⟨((state.nodes d.receiver).receivePacket net.now d.packet (net.address d.sender)).1,
    ⟨tc, ?_⟩, fun v hv => Function.update_of_ne hv _ _, ?_, ?_, ?_,
    sent_eq_of_tcHandled hnet h hd httl hreceiver hhandled⟩
  · show Node.TcHandled _ _ _ _ _ _ (Function.update state.nodes d.receiver _ d.receiver)
    rw [Function.update_self, haddress]
    exact hhandled
  · rw [← haddress]
    rfl
  · rw [← haddress]
    rfl
  · -- a copy from a neighbor is handed over unless it was seen
    have hsymmetric := isSymmetricNeighbor_descendant hnet (h.descends d.receiver) hadj.symm
    show (if (state.nodes d.receiver).handsOver net.now d.packet (state.nodes d.sender).address
      then ⟨d.receiver, d.packet.body, (state.nodes d.receiver).isSymmetricNeighbor net.now
        (state.nodes d.sender).address⟩ :: state.handed else state.handed) = _
    rw [haddress, hhandsOver, hsymmetric, hcopy.body]
    cases (state.nodes d.receiver).hasSeen net.now packet <;> rfl

include horiginator h hd in
theorem deliver_to_source (hreceiver : d.receiver = s) :
    net.deliver state others d = { state with inFlight := others } := by
  obtain ⟨-, hcopy, -⟩ := h.copies d hd
  have hown : d.packet.header.originator = (state.nodes d.receiver).address := by
    rw [hcopy.originator, horiginator, address_state h, hreceiver]
  unfold deliver
  dsimp only
  rw [Node.receivePacket_own net.now (.inl hown)]
  have hquiet : (state.nodes d.receiver).handsOver net.now d.packet
      (state.nodes d.sender).address = false := by
    unfold Node.handsOver
    rw [decide_eq_false (not_not_intro hown), Bool.and_false, Bool.false_and, Bool.false_and]
  simp only [hquiet, Function.update_eq_self, Option.toList_none, List.flatMap_nil,
    List.append_nil, Option.isSome_none, Bool.false_eq_true, if_false]

end Delivery

namespace Arrival

variable {steps : ℕ} {state state' : Flood n} {d : Delivery n} {others : List (Delivery n)}
  {sent : Option Packet} (a : Arrival net packet state others d sent state')
  (h : Progress net s packet steps state)

include a in
theorem mem_sentOn {v : Fin n} :
    v ∈ state'.sentOn ↔ v ∈ state.sentOn ∨ sent.isSome = true ∧ v = d.receiver := by
  rw [a.sentOn]
  cases sent with
  | none => simp
  | some next => simp [or_comm]

include a h in
theorem mem_handlers (hreceiver : d.receiver ≠ s) {v : Fin n} :
    v ∈ state'.handlers ↔ v ∈ state.handlers ∨ v = d.receiver := by
  have hiff := h.hasSeen_iff d.receiver hreceiver
  unfold Flood.handlers at hiff ⊢
  rw [a.handed]
  cases hseen : (state.nodes d.receiver).hasSeen net.now packet with
  | true =>
    rw [if_pos rfl]
    constructor
    · exact .inl
    · rintro (hv | rfl)
      · exact hv
      · exact hiff.1 hseen
  | false =>
    rw [if_neg Bool.false_ne_true, List.map_cons, List.mem_cons, or_comm]

include a in
theorem receiver_not_mem_of_sent {next : Packet} (hnext : sent = some next) :
    d.receiver ∉ state.sentOn := by
  have hsent := a.sent_eq
  split at hsent
  · rename_i hrelay
    exact hrelay.1
  · rw [hnext] at hsent
    nomatch hsent

include a h in
theorem sentOn_nodup (hreceiver : d.receiver ≠ s) :
    state'.sentOn.Nodup ∧ s ∉ state'.sentOn := by
  rw [a.sentOn]
  cases hsent : sent with
  | none =>
    rw [Option.isSome_none, if_neg Bool.false_ne_true]
    exact ⟨h.sentOn_nodup, h.source_not_mem⟩
  | some next =>
    rw [Option.isSome_some, if_pos rfl]
    refine ⟨List.nodup_cons.2 ⟨a.receiver_not_mem_of_sent hsent, h.sentOn_nodup⟩, ?_⟩
    rw [List.mem_cons, not_or]
    exact ⟨hreceiver.symm, h.source_not_mem⟩

include a h in
theorem marks (hreceiver : d.receiver ≠ s) (hcopy : d.packet.IsCopyOf packet)
    (hremembers : (net.nodes d.receiver).duplicates.holdTime ≠ 0) (v : Fin n) (hv : v ≠ s) :
    ((state'.nodes v).hasSentOn net.now packet = true ↔ v ∈ state'.sentOn)
      ∧ ((state'.nodes v).hasSeen net.now packet = true ↔ v ∈ state'.handlers) := by
  rw [a.mem_sentOn, a.mem_handlers h hreceiver]
  by_cases heq : v = d.receiver
  · subst heq
    obtain ⟨tc, hhandled⟩ := a.handled
    have hremembers : decide ((state.nodes d.receiver).duplicates.holdTime ≠ 0) = true := by
      rw [(h.descends d.receiver).holdTime]
      exact decide_eq_true hremembers
    have hsentOn := hhandled.hasSentOn_eq
    have hseen := hhandled.hasSeen_eq
    rw [hcopy.hasSentOn_eq, hcopy.hasSentOn_eq, hremembers, Bool.true_and] at hsentOn
    rw [hcopy.hasSeen_eq, hcopy.hasSentOn_eq, hremembers, Bool.or_true] at hseen
    rw [hsentOn, hseen, Bool.or_eq_true, h.hasSentOn_iff d.receiver hreceiver]
    simp
  · rw [a.bystanders v heq, h.hasSentOn_iff v hv, h.hasSeen_iff v hv]
    simp [heq]

include a h in
theorem copies (hothers : ∀ e ∈ others, e ∈ state.inFlight) (hd : d ∈ state.inFlight)
    (e : Delivery n) (he : e ∈ state'.inFlight) :
    net.graph.Adj e.sender e.receiver ∧ e.packet.IsCopyOf packet
      ∧ packet.header.ttl.toNat ≤ e.packet.header.ttl.toNat + state'.sentOn.length := by
  rw [a.inFlight, List.mem_append] at he
  rw [a.sentOn]
  rcases he with he | he
  · -- an old copy has as many hops left as before
    obtain ⟨hadj, hcopy, hhops⟩ := h.copies e (hothers e he)
    refine ⟨hadj, hcopy, ?_⟩
    split
    · rw [List.length_cons]
      omega
    · exact hhops
  · -- a new copy has one hop less than the delivered one, but one more node has sent it on
    obtain ⟨next, hnext, he⟩ := List.mem_flatMap.1 he
    rw [Option.mem_toList] at hnext
    obtain ⟨hsender, rfl, hadj⟩ := mem_transmit.1 he
    have hsent := a.sent_eq
    split at hsent
    · obtain ⟨next', hnext', hcopy, hhops⟩ := hsent
      rw [hnext] at hnext'
      cases hnext'
      refine ⟨hsender ▸ hadj, hcopy, ?_⟩
      rw [hnext, Option.isSome_some, if_pos rfl, List.length_cons]
      obtain ⟨-, -, hbefore⟩ := h.copies d hd
      omega
    · rw [hnext] at hsent
      nomatch hsent

include a h in
theorem heard (hperm : (d :: others).Perm state.inFlight) (hreceiver : d.receiver ≠ s) (t : Fin n)
    (ht : Transmitted s state' t) (x : Fin n) (hadj : net.graph.Adj t x) (hx : x ≠ s) :
    (∃ e ∈ state'.inFlight, e.sender = t ∧ e.receiver = x)
      ∨ x ∈ state'.handlers ∧ (net.isRelayOf x t = true → x ∈ state'.sentOn) := by
  by_cases hold : Transmitted s state t
  · rcases h.heard t hold x hadj hx with ⟨e, he, hsender, heq⟩ | ⟨hhandler, hrelay⟩
    · rcases List.mem_cons.1 (hperm.symm.subset he) with rfl | he
      · -- this was the delivery to `x`
        right
        refine ⟨(a.mem_handlers h hreceiver).2 (.inr heq.symm), ?_⟩
        intro hrelay
        rw [a.mem_sentOn]
        by_cases hmem : x ∈ state.sentOn
        · exact .inl hmem
        · have hsent := a.sent_eq
          rw [heq, hsender, if_pos ⟨hmem, hrelay⟩] at hsent
          obtain ⟨next, rfl, -⟩ := hsent
          exact .inr ⟨rfl, heq.symm⟩
      · left
        refine ⟨e, ?_, hsender, heq⟩
        rw [a.inFlight]
        exact List.mem_append_left _ he
    · right
      exact ⟨(a.mem_handlers h hreceiver).2 (.inl hhandler),
        fun hx => a.mem_sentOn.2 (.inl (hrelay hx))⟩
  · -- the receiver transmitted just now
    have hnew : sent.isSome = true ∧ t = d.receiver := by
      rcases ht with ht | ht
      · exact absurd (.inl ht) hold
      · exact (a.mem_sentOn.1 ht).resolve_left fun hmem => hold (.inr hmem)
    obtain ⟨hsome, rfl⟩ := hnew
    obtain ⟨next, rfl⟩ := Option.isSome_iff_exists.1 hsome
    left
    refine ⟨⟨d.receiver, x, next⟩, ?_, rfl, rfl⟩
    rw [a.inFlight, Option.toList_some, List.flatMap_singleton]
    exact List.mem_append_right _ (mem_transmit.2 ⟨rfl, rfl, hadj⟩)

include a h in
theorem handlers_nodup (hreceiver : d.receiver ≠ s) : state'.handlers.Nodup := by
  have hiff := h.hasSeen_iff d.receiver hreceiver
  unfold Flood.handlers at hiff ⊢
  rw [a.handed]
  split
  · exact h.handlers_nodup
  · rename_i hseen
    rw [List.map_cons, List.nodup_cons]
    exact ⟨mt hiff.2 hseen, h.handlers_nodup⟩

include a h in
theorem symmetric_of_mem_handed (hreceiver : d.receiver ≠ s) (handover : Handover n)
    (hmem : handover ∈ state'.handed) :
    handover.receiver ≠ s ∧ handover.body = packet.body ∧ handover.symmetric = true := by
  rw [a.handed] at hmem
  split at hmem
  · exact h.handed handover hmem
  · rcases List.mem_cons.1 hmem with rfl | hmem
    · exact ⟨hreceiver, rfl, rfl⟩
    · exact h.handed handover hmem

include a h in
theorem deliveries_le (hperm : (d :: others).Perm state.inFlight) :
    steps + 1 + state'.inFlight.length ≤ (state'.sentOn.length + 1) * n := by
  have hlength := hperm.length_eq
  have hbefore := h.deliveries
  rw [List.length_cons] at hlength
  rw [a.inFlight, a.sentOn, List.length_append]
  cases sent with
  | none =>
    rw [Option.isSome_none, if_neg Bool.false_ne_true]
    show steps + 1 + (others.length + 0) ≤ _
    omega
  | some next =>
    -- one more transmission pays for the deliveries that it makes
    have hnew := length_transmit_le net d.receiver next
    rw [Option.isSome_some, if_pos rfl, List.length_cons, Option.toList_some,
      List.flatMap_singleton, Nat.succ_mul]
    omega

include a h in
theorem descends (v : Fin n) : (net.nodes v).Descends (state'.nodes v) := by
  by_cases heq : v = d.receiver
  · obtain ⟨tc, hhandled⟩ := a.handled
    rw [heq]
    exact (h.descends _).tcHandled hhandled
  · rw [a.bystanders v heq]
    exact h.descends v

include a h in
theorem progress (hperm : (d :: others).Perm state.inFlight) (hreceiver : d.receiver ≠ s)
    (hremembers : (net.nodes d.receiver).duplicates.holdTime ≠ 0) :
    Progress net s packet (steps + 1) state' := by
  have hd : d ∈ state.inFlight := hperm.subset List.mem_cons_self
  obtain ⟨-, hcopy, -⟩ := h.copies d hd
  have hmarks := a.marks h hreceiver hcopy hremembers
  obtain ⟨hnodup, hsource⟩ := a.sentOn_nodup h hreceiver
  exact
    { descends := a.descends h
      sentOn_nodup := hnodup
      source_not_mem := hsource
      hasSentOn_iff := fun v hv => (hmarks v hv).1
      handlers_nodup := a.handlers_nodup h hreceiver
      hasSeen_iff := fun v hv => (hmarks v hv).2
      handed := a.symmetric_of_mem_handed h hreceiver
      copies := a.copies h (fun e he => hperm.subset (List.mem_cons_of_mem d he)) hd
      heard := a.heard h hperm hreceiver
      deliveries := a.deliveries_le h hperm }

end Arrival

/-- Every delivery preserves the invariant. -/
theorem progress_deliver (hnet : net.Consistent) {tc : Tc} (hbody : packet.body = .tc tc)
    (horiginator : packet.header.originator = net.address s)
    (httl : n < packet.header.ttl.toNat)
    (hremembers : ∀ v, v ≠ s → (net.nodes v).duplicates.holdTime ≠ 0) {steps : ℕ}
    {state : Flood n} {d : Delivery n} {others : List (Delivery n)}
    (h : Progress net s packet steps state) (hperm : (d :: others).Perm state.inFlight) :
    Progress net s packet (steps + 1) (net.deliver state others d) := by
  have hd : d ∈ state.inFlight := hperm.subset List.mem_cons_self
  by_cases hreceiver : d.receiver = s
  · rw [deliver_to_source horiginator h hd hreceiver]
    have hlength := hperm.length_eq
    rw [List.length_cons] at hlength
    have hbefore := h.deliveries
    refine { h with copies := ?_, heard := ?_, deliveries := ?_ }
    · intro e he
      exact h.copies e (hperm.subset (List.mem_cons_of_mem d he))
    · intro t ht x hadj hx
      rcases h.heard t ht x hadj hx with ⟨e, he, hsender, heq⟩ | hdone
      · rcases List.mem_cons.1 (hperm.symm.subset he) with rfl | he
        · exact absurd (heq.symm.trans hreceiver) hx
        · exact .inl ⟨e, he, hsender, heq⟩
      · exact .inr hdone
    · show steps + 1 + others.length ≤ (state.sentOn.length + 1) * n
      omega
  · obtain ⟨sent, a⟩ := arrival_deliver hnet hbody horiginator h hd httl hreceiver
    exact a.progress h hperm hreceiver (hremembers _ hreceiver)

/-! ## The log of handovers -/

/-- What a delivery comes to, as the log tells: either the handler learns from the announcement, or
it does not get it. -/
inductive Logged (net : Network n) (state : Flood n) (d : Delivery n) (tc : Tc) (next : Flood n) :
    Prop
  | handed
    (hhanded : next.handed = ⟨d.receiver, .tc tc,
      (state.nodes d.receiver).isSymmetricNeighbor net.now (state.nodes d.sender).address⟩
        :: state.handed)
    (hlearned : let node := state.nodes d.receiver
      let sender := (state.nodes d.sender).address
      node.receivePacket net.now d.packet sender =
        (node.withBase ((node.acquainted d.packet).applyTc net.now d.packet.header.originator sender
          tc d.packet.header.validity).2).forward net.now (node.messageId d.packet) d.packet sender)
  | passed (hhanded : next.handed = state.handed)
    (hpassed : let node := state.nodes d.receiver
      let sender := (state.nodes d.sender).address
      node.receivePacket net.now d.packet sender = (none, node)
        ∨ node.receivePacket net.now d.packet sender =
          (node.withBase (node.acquainted d.packet)).forward net.now (node.messageId d.packet)
            d.packet sender)

theorem logged_deliver {state : Flood n} {d : Delivery n} {tc : Tc} (hbody : d.packet.body = .tc tc)
    (others : List (Delivery n)) : Logged net state d tc (net.deliver state others d) := by
  have hhanded : (net.deliver state others d).handed =
      if (state.nodes d.receiver).handsOver net.now d.packet (state.nodes d.sender).address then
        ⟨d.receiver, d.packet.body,
          (state.nodes d.receiver).isSymmetricNeighbor net.now (state.nodes d.sender).address⟩
            :: state.handed
      else state.handed := rfl
  cases h : (state.nodes d.receiver).handsOver net.now d.packet (state.nodes d.sender).address with
  | true =>
    obtain ⟨tc', htc, hreceive⟩ := Node.receivePacket_of_handsOver h
    obtain rfl : tc = tc' := by
      rw [hbody] at htc
      exact Body.tc.inj htc
    exact .handed (by rw [hhanded, h, if_pos rfl, hbody]) hreceive
  | false =>
    exact .passed (by rw [hhanded, h, if_neg Bool.false_ne_true])
      (Node.receivePacket_of_not_handsOver hbody h)

/-! ## A flood that came to rest -/

/-- Once nothing is in flight, whoever is connected to a transmitter has handed the announcement to
its handler. Otherwise take a shortest walk from a transmitter to somebody who has not. Its second
node cannot be the end, as the end would have heard the transmitter. So there is a third node, and
it is two hops away from the transmitter or closer. -/
theorem handler_of_walk (hnet : net.Consistent) {steps : ℕ} {state : Flood n}
    (h : Progress net s packet steps state) (hquiet : state.inFlight = []) {t v : Fin n}
    (ht : Transmitted s state t) (walk : net.graph.Walk t v) (hv : v ≠ s) : v ∈ state.handlers := by
  -- nothing is about to be heard
  have hheard : ∀ t, Transmitted s state t → ∀ x, net.graph.Adj t x → x ≠ s →
      x ∈ state.handlers ∧ (net.isRelayOf x t = true → x ∈ state.sentOn) := by
    intro t ht x hadj hx
    rcases h.heard t ht x hadj hx with ⟨e, he, -⟩ | hdone
    · rw [hquiet] at he
      exact absurd he List.not_mem_nil
    · exact hdone
  induction hlength : walk.length using Nat.strong_induction_on generalizing t with
  | _ length ih =>
    subst hlength
    match walk with
    | .nil =>
      -- a transmitter other than the source has handed over what it sent on
      have hsentOn := ht.resolve_left hv
      rw [← h.hasSeen_iff _ hv]
      exact Duplicates.seen_of_retransmitted ((h.hasSentOn_iff _ hv).2 hsentOn)
    | .cons hadj .nil => exact (hheard t ht _ hadj hv).1
    | .cons (v := x) hx (.cons (v := y) hy rest) =>
      simp only [SimpleGraph.Walk.length_cons] at ih
      by_cases hback : y = t
      · subst hback
        exact ih rest.length (by omega) ht rest rfl
      by_cases hnear : net.graph.Adj t y
      · exact ih (rest.length + 1) (by omega) ht (.cons hnear rest) rfl
      · -- a relay of the transmitter hears `y`, and it is a transmitter itself
        obtain ⟨m, hm, hmy⟩ := hnet.covered t x y hx hy hback hnear
        have hrelay : Transmitted s state m := by
          by_cases hms : m = s
          · exact .inl hms
          · exact .inr ((hheard t ht m (hnet.adj_of_isRelayOf t m hm) hms).2 hm)
        exact ih (rest.length + 1) (by omega) hrelay (.cons hmy rest) rfl

theorem filter_handed_eq_singleton {handed : List (Handover n)} {handover : Handover n}
    (hnodup : (handed.map Handover.receiver).Nodup) (hmem : handover ∈ handed) :
    (handed.filter fun other => other.receiver = handover.receiver) = [handover] := by
  induction handed with
  | nil => nomatch hmem
  | cons first rest ih =>
    rw [List.map_cons, List.nodup_cons] at hnodup
    obtain ⟨hfirst, hrest⟩ := hnodup
    rcases List.mem_cons.1 hmem with rfl | hmem
    · have hothers : (rest.filter fun other => other.receiver = handover.receiver) = [] := by
        rw [List.filter_eq_nil_iff]
        intro other hother heq
        exact hfirst (List.mem_map.2 ⟨other, hother, of_decide_eq_true heq⟩)
      rw [List.filter_cons, if_pos (decide_eq_true rfl), hothers]
    · have hne : first.receiver ≠ handover.receiver := by
        intro heq
        exact hfirst (List.mem_map.2 ⟨handover, hmem, heq.symm⟩)
      rw [List.filter_cons, if_neg (by simpa using hne), ih hrest hmem]

/-- **Flooding reaches everybody.** In a consistent network whose nodes remember what they handled,
let `s` transmit an announcement of its own that nobody else has seen, with more hops to go than
there are nodes. Along every schedule: there are at most `n * n` deliveries, what is in flight
included, so the flood comes to rest; nobody sends the announcement on twice; and if it came to
rest, everybody connected to `s` has handed the announcement to its handler exactly once, from a
symmetric neighbor. Whatever is delivered next, the log tells whether the handler learns from it. -/
theorem flood_reaches_all (hnet : net.Consistent) {tc : Tc} (hbody : packet.body = .tc tc)
    (horiginator : packet.header.originator = net.address s)
    (hfresh : ∀ v, v ≠ s → (net.nodes v).hasSeen net.now packet = false)
    (httl : n < packet.header.ttl.toNat)
    (hremembers : ∀ v, v ≠ s → (net.nodes v).duplicates.holdTime ≠ 0)
    (schedule : List ℕ) (state : Flood n) (hflood : net.flood? s packet schedule = some state) :
    schedule.length + state.inFlight.length ≤ n * n
      ∧ state.sentOn.Nodup ∧ s ∉ state.sentOn
      ∧ (state.inFlight = [] → ∀ v, v ≠ s → net.graph.Reachable s v →
          ∃ handover : Handover n,
            state.handed.filter (fun handover => handover.receiver = v) = [handover]
              ∧ handover.body = packet.body ∧ handover.symmetric = true)
      ∧ ∀ d ∈ state.inFlight, ∀ others, Logged net state d tc (net.deliver state others d) := by
  have h : Progress net s packet schedule.length state := by
    refine net.flood?_induction (progress_emit hfresh) ?_ hflood
    intro steps state k d hprogress hd
    obtain ⟨hk, rfl⟩ := List.getElem?_eq_some_iff.1 hd
    exact progress_deliver hnet hbody horiginator httl hremembers hprogress
      (List.getElem_cons_eraseIdx_perm hk)
  refine ⟨?_, h.sentOn_nodup, h.source_not_mem, ?_, fun d hd others => ?_⟩
  · have hnodup : (s :: state.sentOn).Nodup := List.nodup_cons.2 ⟨h.source_not_mem, h.sentOn_nodup⟩
    have hcard := hnodup.length_le_card
    rw [Fintype.card_fin, List.length_cons] at hcard
    exact h.deliveries.trans (Nat.mul_le_mul_right n hcard)
  · intro hquiet v hv hconnected
    obtain ⟨walk⟩ := hconnected
    have hmem := handler_of_walk hnet h hquiet (.inl rfl) walk hv
    obtain ⟨handover, hhandover, hreceiver⟩ := List.mem_map.1 hmem
    obtain ⟨-, hsame, hsymmetric⟩ := h.handed handover hhandover
    refine ⟨handover, ?_, hsame, hsymmetric⟩
    rw [← hreceiver]
    exact filter_handed_eq_singleton h.handlers_nodup hhandover
  · obtain ⟨-, hcopy, -⟩ := h.copies d hd
    exact logged_deliver (hcopy.body.trans hbody) others

/-! ## Four hosts in a line -/

/-- A line of four. -/
def lineGraph : SimpleGraph (Fin 4) where
  Adj i j := i.val + 1 = j.val ∨ j.val + 1 = i.val
  symm := ⟨fun _ _ h => Or.symm h⟩
  loopless := ⟨fun i h => by omega⟩

instance : DecidableRel lineGraph.Adj :=
  fun i j => inferInstanceAs (Decidable (i.val + 1 = j.val ∨ j.val + 1 = i.val))

def lineAddress (i : Fin 4) : Address :=
  ⟨0x0a000001 + UInt32.ofNat i.val⟩

def lineNeighbors (i : Fin 4) : List (Fin 4) :=
  (List.finRange 4).filter fun j => lineGraph.Adj i j

/-- The greeting of a host in the line. The two hosts in the middle are the relays of their
neighbors. -/
def lineGreeting (i : Fin 4) : Packet where
  header :=
    { validity := ⟨0xe8⟩, originator := lineAddress i, ttl := 1, hopCount := 0, seq := ⟨0⟩ }
  body := .hello ((lineNeighbors i).foldl (fun hello j =>
    hello.list ⟨.symmetric, if j = 1 ∨ j = 2 then .relay else .symmetric⟩ [lineAddress j]) {})

/-- Every host hears the greetings of its neighbors and chooses its relays. -/
def line (config : Config) : Network 4 where
  graph := lineGraph
  nodes i := ((Moment.start (lineAddress i) config 0).run
    ((lineNeighbors i).map (fun j => .receivePacket (lineGreeting j) (lineAddress j))
      ++ [.recompute])).node
  now := 0

/-- An announcement of the host at one end. -/
def linePacket : Packet where
  header :=
    { validity := ⟨0xe8⟩, originator := lineAddress 0, ttl := 5, hopCount := 0, seq := ⟨100⟩ }
  body := .tc { ansn := ⟨1⟩ }

/-- Hosts that remember: five deliveries, and everybody else has handed the announcement over. -/
theorem flood_reaches_line :
    ∃ state, (line {}).flood? 0 linePacket [0, 0, 0, 0, 0] = some state ∧ state.inFlight = []
      ∧ state.sentOn.Nodup
      ∧ ∃ handover : Handover 4,
          state.handed.filter (fun handover => handover.receiver = 3) = [handover]
            ∧ handover.symmetric = true := by
  have hnet : (line {}).Consistent :=
    { address_injective := by decide +kernel
      symmetric_iff := by decide +kernel
      adj_of_isRelayOf := by decide +kernel
      covered := by decide +kernel
      isSelectorOf_eq := by decide +kernel }
  have hquiet : ((line {}).flood? 0 linePacket [0, 0, 0, 0, 0]).map Flood.inFlight = some [] := by
    decide +kernel
  obtain ⟨state, hflood, hquiet⟩ := Option.map_eq_some_iff.1 hquiet
  have hconnected : (line {}).graph.Reachable 0 3 :=
    ⟨.cons (v := 1) (by decide) (.cons (v := 2) (by decide) (.cons (by decide) .nil))⟩
  obtain ⟨-, hnodup, -, hreached, -⟩ := flood_reaches_all hnet rfl rfl (by decide +kernel) (by decide)
    (by decide +kernel) [0, 0, 0, 0, 0] state hflood
  obtain ⟨handover, hhandover, -, hsymmetric⟩ := hreached hquiet 3 (by decide) hconnected
  exact ⟨state, hflood, hquiet, hnodup, handover, hhandover, hsymmetric⟩

/-- Hosts that remember nothing: the first relay hands the announcement over and sends it on twice,
before everything is delivered. -/
theorem forgetful_flood_repeats :
    (line { duplicateHoldTime := 0 }).Consistent
      ∧ linePacket.header.originator = (line { duplicateHoldTime := 0 }).address 0
      ∧ (∀ v, v ≠ 0 → ((line { duplicateHoldTime := 0 }).nodes v).hasSeen 0 linePacket = false)
      ∧ 4 < linePacket.header.ttl.toNat
      ∧ ∃ state, (line { duplicateHoldTime := 0 }).flood? 0 linePacket [0, 1, 1] = some state
          ∧ state.sentOn = [1, 2, 1] ∧ state.handlers = [1, 2, 1] := by
  have hnet : (line { duplicateHoldTime := 0 }).Consistent :=
    { address_injective := by decide +kernel
      symmetric_iff := by decide +kernel
      adj_of_isRelayOf := by decide +kernel
      covered := by decide +kernel
      isSelectorOf_eq := by decide +kernel }
  have htwice : ((line { duplicateHoldTime := 0 }).flood? 0 linePacket [0, 1, 1]).map
      (fun state => (state.sentOn, state.handlers)) = some ([1, 2, 1], [1, 2, 1]) := by
    decide +kernel
  obtain ⟨state, hflood, hstate⟩ := Option.map_eq_some_iff.1 htwice
  rw [Prod.mk.injEq] at hstate
  exact ⟨hnet, rfl, by decide +kernel, by decide, state, hflood, hstate⟩

end Network

end Meshcast
