import Meshcast.Node.Control
import Meshcast.Proofs.Announcements
import Meshcast.Proofs.Identity

/-!
# Meshcast — handling an announcement, step by step

Two questions are asked of the marks when an announcement comes in: whether it was handled before,
and whether it was sent on before. This module says what becomes of the marks, of the links and
memberships and of the announcement itself.

* **`Duplicates.get?_mark`** — marks after a message was marked.
* **`receivePacket_tc`** — handling an announcement is to learn from it, unless it was seen, and
  then to consider sending it on.
* **`receivePacket_of_handsOver`**, **`receivePacket_of_not_handsOver`** — what the node learns, and
  when it learns nothing but who is speaking.
* **`TcHandled`**, **`tcHandled_receivePacket`** — what can be relied on afterwards.
* **`Received`**, **`received_receivePacket`** — what any packet that comes in makes of a node.
-/

namespace Meshcast

/-! ## Marks -/

namespace Duplicates

theorem slots_mark (d : Duplicates) (now : Nat) (id : MessageId) (retransmitted : Bool) :
    (d.mark now id retransmitted).marks.slots = d.marks.slots.insert id
      ⟨retransmitted || d.retransmitted now id, deadline now d.holdTime⟩ :=
  Transaction.slots_insert _ _ _ _

/-- A marked message is remembered, unless nothing is ever remembered. -/
theorem get?_mark (d : Duplicates) (now : Nat) (id other : MessageId) (retransmitted : Bool) :
    (d.mark now id retransmitted).marks.get? now other =
      if id = other then
        if d.holdTime = 0 then none else some (retransmitted || d.retransmitted now id)
      else d.marks.get? now other := by
  have hinsert := Transaction.get?_insert (d.marks.transaction now) id other
    (retransmitted || d.retransmitted now id) d.holdTime
  have hnow : ((d.marks.transaction now).insert id (retransmitted || d.retransmitted now id)
      d.holdTime).2.now = now := by
    unfold Transaction.insert
    split <;> rfl
  unfold Transaction.get? at hinsert
  rw [hnow] at hinsert
  exact hinsert

theorem seen_mark (d : Duplicates) (now : Nat) (id other : MessageId) (retransmitted : Bool) :
    (d.mark now id retransmitted).seen now other =
      if id = other then decide (d.holdTime ≠ 0) else d.seen now other := by
  unfold seen ExpiringTable.contains
  rw [get?_mark]
  split
  · by_cases h : d.holdTime = 0
    · rw [if_pos h, decide_eq_false (not_not_intro h)]
      rfl
    · rw [if_neg h, decide_eq_true h]
      rfl
  · rfl

theorem retransmitted_mark (d : Duplicates) (now : Nat) (id other : MessageId)
    (retransmitted : Bool) :
    (d.mark now id retransmitted).retransmitted now other =
      if id = other then decide (d.holdTime ≠ 0) && (retransmitted || d.retransmitted now id)
      else d.retransmitted now other := by
  show ((d.mark now id retransmitted).marks.get? now other).getD false = _
  rw [get?_mark]
  split
  · by_cases h : d.holdTime = 0
    · rw [if_pos h, decide_eq_false (not_not_intro h)]
      rfl
    · rw [if_neg h, decide_eq_true h]
      rfl
  · rfl

theorem seen_of_retransmitted {d : Duplicates} {now : Nat} {id : MessageId}
    (h : d.retransmitted now id = true) : d.seen now id = true := by
  unfold retransmitted at h
  unfold seen ExpiringTable.contains
  cases hget : d.marks.get? now id with
  | none =>
    rw [hget] at h
    nomatch h
  | some _ => rfl

end Duplicates

/-! ## Neighbors and newly known participants -/

namespace InformationBase

/-- Whoever has an entry among the neighbors is known. -/
def NeighborsKnown (base : InformationBase) : Prop :=
  ∀ id ∈ base.neighbors.table.slots, ∃ a, base.registry.address? id = some a

theorem isSymmetricNeighbor_of_extends {base base' : InformationBase} {now : Nat} {a : Address}
    (hregistry : base.registry.Extends base'.registry)
    (hneighbors : base'.neighbors = base.neighbors)
    (h : base.isSymmetricNeighbor now a = true) : base'.isSymmetricNeighbor now a = true := by
  unfold isSymmetricNeighbor at h ⊢
  rw [Option.any_eq_true] at h ⊢
  obtain ⟨id, hid, hsymmetric⟩ := h
  exact ⟨id, hregistry a id hid, hneighbors ▸ hsymmetric⟩

theorem NeighborsKnown.grows {base base' : InformationBase} (h : base.NeighborsKnown)
    (hgrows : Grows base base') : base'.NeighborsKnown := by
  intro id hid
  rcases hgrows.neighbors id hid with hold | ⟨-, hknown⟩
  · obtain ⟨a, ha⟩ := h id hold
    exact ⟨a, hgrows.registry.address? ha⟩
  · exact hknown

/-- If all neighbors are known, whoever is one under some identifier was known under it before. -/
theorem NeighborsKnown.lookup?_eq {base : InformationBase} (hknown : base.NeighborsKnown)
    {registry : Registry} (hregistry : base.registry.Extends registry) {now : Nat} {a : Address}
    {id : NodeId} (hid : registry.lookup? a = some id)
    (hsymmetric : base.neighbors.isSymmetric now id = true) : base.registry.lookup? a = some id := by
  -- the entry has an owner that was known before, and that can only be `a`
  obtain ⟨b, hb⟩ := hknown id (Neighborhood.mem_of_isSymmetric hsymmetric)
  have hab : registry.address? id = some b := hregistry.address? hb
  rw [Registry.lookup?_eq_some_iff] at hid
  rw [hid] at hab
  cases hab
  exact (Registry.lookup?_eq_some_iff _ _ _).2 hb

/-- If all neighbors are known, nobody becomes a neighbor by becoming known. -/
theorem isSymmetricNeighbor_eq {base base' : InformationBase} {now : Nat} {a : Address}
    (hknown : base.NeighborsKnown) (hregistry : base.registry.Extends base'.registry)
    (hneighbors : base'.neighbors = base.neighbors) :
    base'.isSymmetricNeighbor now a = base.isSymmetricNeighbor now a := by
  rw [Bool.eq_iff_iff]
  refine ⟨?_, isSymmetricNeighbor_of_extends hregistry hneighbors⟩
  intro h
  unfold isSymmetricNeighbor at h ⊢
  rw [Option.any_eq_true] at h ⊢
  obtain ⟨id, hid, hsymmetric⟩ := h
  rw [hneighbors] at hsymmetric
  exact ⟨id, hknown.lookup?_eq hregistry hid hsymmetric, hsymmetric⟩

end InformationBase

/-! ## Announcements -/

namespace Node

/-- What tells a packet from all others at this node. -/
def messageId (node : Node) (packet : Packet) : MessageId :=
  ⟨(node.registry.intern packet.header.originator).1, packet.header.seq⟩

/-- Whether a packet was handled before. -/
def hasSeen (node : Node) (now : Nat) (packet : Packet) : Bool :=
  node.duplicates.seen now (node.messageId packet)

/-- Whether a packet was sent on before. -/
def hasSentOn (node : Node) (now : Nat) (packet : Packet) : Bool :=
  node.duplicates.retransmitted now (node.messageId packet)

/-- What the node knows once it knows the originator of a packet. -/
def acquainted (node : Node) (packet : Packet) : InformationBase :=
  (node.toInformationBase.intern packet.header.originator).2

theorem isSymmetricNeighbor_acquainted {node : Node} (hknown : node.NeighborsKnown) (now : Nat)
    (packet : Packet) (a : Address) :
    (node.acquainted packet).isSymmetricNeighbor now a = node.isSymmetricNeighbor now a :=
  InformationBase.isSymmetricNeighbor_eq hknown (node.registry.extends_intern _) rfl

theorem hasSentOn_of_not_hasSeen {node : Node} {now : Nat} {packet : Packet}
    (h : node.hasSeen now packet = false) : node.hasSentOn now packet = false := by
  rw [← Bool.not_eq_true]
  intro hsentOn
  have hseen : node.hasSeen now packet = true := Duplicates.seen_of_retransmitted hsentOn
  rw [h] at hseen
  nomatch hseen

/-- What the node knows once an announcement was handled: it is learned from unless it was seen
before. -/
def baseAfter (node : Node) (now : Nat) (packet : Packet) (tc : Tc) (neighbor : Address) :
    InformationBase :=
  if node.hasSeen now packet then node.acquainted packet
  else ((node.acquainted packet).applyTc now packet.header.originator neighbor tc
    packet.header.validity).2

/-- Handling an announcement is to learn from it and then to consider sending it on. -/
theorem receivePacket_tc {node : Node} {packet : Packet} {tc : Tc} {neighbor : Address} (now : Nat)
    (hbody : packet.body = .tc tc) (horiginator : packet.header.originator ≠ node.address)
    (hneighbor : neighbor ≠ node.address) :
    node.receivePacket now packet neighbor =
      (node.withBase (node.baseAfter now packet tc neighbor)).forward now (node.messageId packet)
        packet neighbor := by
  unfold receivePacket
  rw [decide_eq_false horiginator, decide_eq_false hneighbor, Bool.or_false,
    if_neg Bool.false_ne_true]
  simp only [hbody]
  have hseen : node.duplicates.seen now
      ⟨(node.registry.intern packet.header.originator).1, packet.header.seq⟩
        = node.hasSeen now packet := rfl
  unfold baseAfter
  rw [hseen]
  cases node.hasSeen now packet <;> rfl

/-- A greeting is handled unless it was seen before. -/
theorem receivePacket_hello {node : Node} {packet : Packet} {hello : Hello} {neighbor : Address}
    (now : Nat) (hbody : packet.body = .hello hello)
    (horiginator : packet.header.originator ≠ node.address) (hneighbor : neighbor ≠ node.address) :
    node.receivePacket now packet neighbor =
      (none,
        if node.hasSeen now packet then node.withBase (node.acquainted packet)
        else (node.withBase (node.acquainted packet)).handleHello now (node.messageId packet)
          packet.header hello neighbor) := by
  unfold receivePacket
  rw [decide_eq_false horiginator, decide_eq_false hneighbor, Bool.or_false,
    if_neg Bool.false_ne_true]
  simp only [hbody]
  have hseen : node.duplicates.seen now
      ⟨(node.registry.intern packet.header.originator).1, packet.header.seq⟩
        = node.hasSeen now packet := rfl
  rw [hseen]
  cases node.hasSeen now packet <;> rfl

theorem receivePacket_own {node : Node} {packet : Packet} {neighbor : Address} (now : Nat)
    (h : packet.header.originator = node.address ∨ neighbor = node.address) :
    node.receivePacket now packet neighbor = (none, node) := by
  unfold receivePacket
  rw [if_pos (by simpa using h)]

/-- Whether an announcement that comes in is handed to its handler. -/
def handsOver (node : Node) (now : Nat) (packet : Packet) (neighbor : Address) : Bool :=
  packet.body.type = .tc && packet.header.originator ≠ node.address && neighbor ≠ node.address
    && !node.hasSeen now packet

/-- What becomes of an announcement that is handed to its handler: the handler learns from it, and
then it is considered for sending on. -/
theorem receivePacket_of_handsOver {node : Node} {packet : Packet} {neighbor : Address} {now : Nat}
    (h : node.handsOver now packet neighbor = true) :
    ∃ tc, packet.body = .tc tc ∧ node.receivePacket now packet neighbor =
      (node.withBase ((node.acquainted packet).applyTc now packet.header.originator neighbor tc
        packet.header.validity).2).forward now (node.messageId packet) packet neighbor := by
  unfold handsOver at h
  simp only [Bool.and_eq_true, decide_eq_true_eq, Bool.not_eq_true'] at h
  obtain ⟨⟨⟨htype, horiginator⟩, hneighbor⟩, hseen⟩ := h
  cases hbody : packet.body with
  | hello hello =>
    rw [hbody] at htype
    nomatch htype
  | tc tc =>
    refine ⟨tc, rfl, ?_⟩
    rw [receivePacket_tc now hbody horiginator hneighbor]
    unfold baseAfter
    rw [hseen, if_neg Bool.false_ne_true]

/-- An announcement that is not handed to its handler is dropped, or considered for sending on with
nothing learned but who its originator is. -/
theorem receivePacket_of_not_handsOver {node : Node} {packet : Packet} {tc : Tc}
    {neighbor : Address} {now : Nat} (hbody : packet.body = .tc tc)
    (h : node.handsOver now packet neighbor = false) :
    node.receivePacket now packet neighbor = (none, node)
      ∨ node.receivePacket now packet neighbor =
        (node.withBase (node.acquainted packet)).forward now (node.messageId packet) packet
          neighbor := by
  by_cases hown : packet.header.originator = node.address ∨ neighbor = node.address
  · exact .inl (receivePacket_own now hown)
  · rw [not_or] at hown
    have hseen : node.hasSeen now packet = true := by
      unfold handsOver at h
      rw [hbody, decide_eq_true hown.1, decide_eq_true hown.2] at h
      simpa [Body.type] using h
    right
    rw [receivePacket_tc now hbody hown.1 hown.2]
    unfold baseAfter
    rw [hseen, if_pos rfl]

theorem receiveControl_of_decode {node : Node} {now : Nat} {bytes : Bytes} {packet : Packet}
    {neighbor : Address} (h : Packet.decode bytes = .ok packet) :
    node.receiveControl now bytes neighbor = node.receivePacket now packet neighbor := by
  unfold receiveControl
  rw [h]

/-- What can be relied on when an announcement was handled. -/
structure TcHandled (node : Node) (now : Nat) (packet : Packet) (tc : Tc) (neighbor : Address)
    (sent : Option Packet) (node' : Node) : Prop where
  /-- Its originator is known, and whom it lists if it was learned from. -/
  registry : node'.registry =
    if !node.hasSeen now packet && (node.acquainted packet).isSymmetricNeighbor now neighbor then
      ((node.registry.intern packet.header.originator).2.internAll tc.advertised.toList).2
    else (node.registry.intern packet.header.originator).2
  neighbors : node'.neighbors = node.neighbors
  selectors : node'.selectors = node.selectors
  address : node'.address = node.address
  holdTime : node'.duplicates.holdTime = node.duplicates.holdTime
  /-- It is marked, also if it was not learned from. -/
  duplicates : node'.duplicates =
    if node.hasSentOn now packet then node.duplicates
    else node.duplicates.mark now (node.messageId packet) sent.isSome
  /-- It is sent on once, for neighbors that chose the node as a relay. -/
  sent_eq : sent =
    if !node.hasSentOn now packet && node'.relaysFor now neighbor then packet.forwarded? else none
  /-- It is learned from once, if it comes from a symmetric neighbor. -/
  learned : (node'.topology, node'.groups) =
    if !node.hasSeen now packet && (node.acquainted packet).isSymmetricNeighbor now neighbor then
      node.learn now packet.header.originator tc packet.header.validity
    else (node.topology, node.groups)

theorem forward_eq_mark (node : Node) (now : Nat) (id : MessageId) (packet : Packet)
    (neighbor : Address) :
    let result := node.forward now id packet neighbor
    result.1 = (if !node.duplicates.retransmitted now id && node.relaysFor now neighbor then
        packet.forwarded? else none)
      ∧ result.2 = { node with
          duplicates := if node.duplicates.retransmitted now id then node.duplicates
            else node.duplicates.mark now id result.1.isSome } := by
  unfold forward
  cases node.duplicates.retransmitted now id with
  | true => exact ⟨rfl, rfl⟩
  | false =>
    cases node.relaysFor now neighbor with
    | true => exact ⟨rfl, rfl⟩
    | false => exact ⟨rfl, rfl⟩

theorem baseAfter_frame (node : Node) (now : Nat) (packet : Packet) (tc : Tc) (neighbor : Address) :
    (node.baseAfter now packet tc neighbor).neighbors = node.neighbors
      ∧ (node.baseAfter now packet tc neighbor).selectors = node.selectors := by
  obtain ⟨-, hneighbors, hselectors⟩ := (node.acquainted packet).applyTc_frame now
    packet.header.originator neighbor tc packet.header.validity
  unfold baseAfter
  split
  · exact ⟨rfl, rfl⟩
  · exact ⟨hneighbors, hselectors⟩

theorem baseAfter_eq (node : Node) (now : Nat) (packet : Packet) (tc : Tc) (neighbor : Address) :
    let base := node.baseAfter now packet tc neighbor
    base.registry =
        (if !node.hasSeen now packet && (node.acquainted packet).isSymmetricNeighbor now neighbor
          then ((node.registry.intern packet.header.originator).2.internAll
            tc.advertised.toList).2
          else (node.registry.intern packet.header.originator).2)
      ∧ (base.topology, base.groups) =
        (if !node.hasSeen now packet && (node.acquainted packet).isSymmetricNeighbor now neighbor
          then node.learn now packet.header.originator tc packet.header.validity
          else (node.topology, node.groups)) := by
  have hintern : (node.acquainted packet).registry.intern packet.header.originator
      = node.registry.intern packet.header.originator :=
    Registry.intern_intern (.refl _)
  have hlearn : (node.acquainted packet).learn now packet.header.originator tc
      packet.header.validity
        = node.learn now packet.header.originator tc packet.header.validity := by
    unfold InformationBase.learn InformationBase.listed
    rw [hintern]
    rfl
  unfold baseAfter
  cases node.hasSeen now packet with
  | true => exact ⟨rfl, rfl⟩
  | false =>
    rw [if_neg Bool.false_ne_true, Bool.not_false, Bool.true_and]
    cases hsymmetric : (node.acquainted packet).isSymmetricNeighbor now neighbor with
    | true =>
      rw [← hintern, ← hlearn]
      exact (InformationBase.applyTc_of_symmetric hsymmetric).symm
    | false =>
      rw [InformationBase.applyTc_of_not_symmetric hsymmetric]
      exact ⟨rfl, rfl⟩

/-- Handling an announcement does all that, and nothing else. -/
theorem tcHandled_receivePacket {node : Node} {packet : Packet} {tc : Tc} {neighbor : Address}
    (now : Nat) (hbody : packet.body = .tc tc)
    (horiginator : packet.header.originator ≠ node.address) (hneighbor : neighbor ≠ node.address) :
    TcHandled node now packet tc neighbor (node.receivePacket now packet neighbor).1
      (node.receivePacket now packet neighbor).2 := by
  rw [receivePacket_tc now hbody horiginator hneighbor]
  obtain ⟨hneighbors, hselectors⟩ := node.baseAfter_frame now packet tc neighbor
  obtain ⟨hregistry, hlearned⟩ := node.baseAfter_eq now packet tc neighbor
  -- sending on touches the marks alone
  obtain ⟨hsent, hnode⟩ := (node.withBase (node.baseAfter now packet tc neighbor)).forward_eq_mark
    now (node.messageId packet) packet neighbor
  generalize (node.withBase (node.baseAfter now packet tc neighbor)).forward now
    (node.messageId packet) packet neighbor = result at hsent hnode
  obtain ⟨sent, node'⟩ := result
  dsimp only at hsent hnode ⊢
  subst hnode
  exact
    { registry := hregistry
      neighbors := hneighbors
      selectors := hselectors
      address := rfl
      holdTime := by
        show (if _ then node.duplicates else _).holdTime = _
        split <;> rfl
      duplicates := rfl
      sent_eq := hsent
      learned := hlearned }

/-- Only what may travel further is sent on, a hop further on its way. -/
theorem forwarded?_of_receivePacket {node : Node} {now : Nat} {packet next : Packet}
    {neighbor : Address} (h : (node.receivePacket now packet neighbor).1 = some next) :
    packet.forwarded? = some next := by
  by_cases hown : packet.header.originator = node.address ∨ neighbor = node.address
  · rw [receivePacket_own now hown] at h
    nomatch h
  · rw [not_or] at hown
    cases hbody : packet.body with
    | hello hello =>
      rw [receivePacket_hello now hbody hown.1 hown.2] at h
      nomatch h
    | tc tc =>
      rw [(tcHandled_receivePacket now hbody hown.1 hown.2).sent_eq] at h
      split at h
      · exact h
      · nomatch h

/-- What a packet that comes in makes of a node: nothing, if it claims to be the node's own; a
greeting is learned from unless it was seen before; an announcement is handled, which touches the
tables and the marks alone. -/
inductive Received (node : Node) (now : Nat) (packet : Packet) (neighbor : Address) : Node → Prop
  | own (h : packet.header.originator = node.address ∨ neighbor = node.address) :
    Received node now packet neighbor node
  | repeated (hello : Hello) (hbody : packet.body = .hello hello)
    (hseen : node.hasSeen now packet = true) :
    Received node now packet neighbor (node.withBase (node.acquainted packet))
  | greeted (hello : Hello) (hbody : packet.body = .hello hello)
    (horiginator : packet.header.originator ≠ node.address) (hneighbor : neighbor ≠ node.address)
    (hfresh : node.hasSeen now packet = false) :
    Received node now packet neighbor
      ((node.withBase (node.acquainted packet)).handleHello now (node.messageId packet)
        packet.header hello neighbor)
  | announced (tc : Tc) (sent : Option Packet) (base : InformationBase) (duplicates : Duplicates)
    (hbody : packet.body = .tc tc) (horiginator : packet.header.originator ≠ node.address)
    (hneighbor : neighbor ≠ node.address)
    (h : TcHandled node now packet tc neighbor sent
      { node with toInformationBase := base, duplicates }) :
    Received node now packet neighbor { node with toInformationBase := base, duplicates }

theorem received_receivePacket (node : Node) (now : Nat) (packet : Packet) (neighbor : Address) :
    Received node now packet neighbor (node.receivePacket now packet neighbor).2 := by
  by_cases hown : packet.header.originator = node.address ∨ neighbor = node.address
  · rw [receivePacket_own now hown]
    exact .own hown
  · rw [not_or] at hown
    cases hbody : packet.body with
    | hello hello =>
      rw [receivePacket_hello now hbody hown.1 hown.2]
      cases hseen : node.hasSeen now packet with
      | true => exact .repeated hello hbody hseen
      | false => exact .greeted hello hbody hown.1 hown.2 hseen
    | tc tc =>
      have hhandled := tcHandled_receivePacket now hbody hown.1 hown.2
      rw [receivePacket_tc now hbody hown.1 hown.2, (forward_eq_mark _ now _ packet neighbor).2]
        at hhandled ⊢
      exact .announced tc _ _ _ hbody hown.1 hown.2 hhandled

namespace TcHandled

variable {node node' : Node} {now : Nat} {packet : Packet} {tc : Tc} {neighbor : Address}
  {sent : Option Packet}

theorem extends_acquainted (h : TcHandled node now packet tc neighbor sent node') :
    (node.registry.intern packet.header.originator).2.Extends node'.registry := by
  rw [h.registry]
  split
  · exact Registry.extends_internAll _ _
  · exact .refl _

theorem messageId_eq (h : TcHandled node now packet tc neighbor sent node') :
    node'.messageId packet = node.messageId packet := by
  unfold messageId
  rw [Registry.intern_intern h.extends_acquainted]

theorem hasSeen_eq (h : TcHandled node now packet tc neighbor sent node') :
    node'.hasSeen now packet = (node.hasSentOn now packet || node.duplicates.holdTime ≠ 0) := by
  unfold hasSeen
  rw [h.messageId_eq, h.duplicates]
  cases hsent : node.hasSentOn now packet with
  | true =>
    rw [if_pos rfl, Bool.true_or]
    exact Duplicates.seen_of_retransmitted hsent
  | false => rw [if_neg Bool.false_ne_true, Duplicates.seen_mark, if_pos rfl, Bool.false_or]

theorem hasSentOn_eq (h : TcHandled node now packet tc neighbor sent node') :
    node'.hasSentOn now packet =
      (node.hasSentOn now packet || (node.duplicates.holdTime ≠ 0 && sent.isSome)) := by
  unfold hasSentOn
  rw [h.messageId_eq, h.duplicates]
  show _ = (node.hasSentOn now packet || _)
  cases hsent : node.hasSentOn now packet with
  | true =>
    rw [if_pos rfl, Bool.true_or]
    exact hsent
  | false =>
    have hmark : node.duplicates.retransmitted now (node.messageId packet) = false := hsent
    rw [if_neg Bool.false_ne_true, Duplicates.retransmitted_mark, if_pos rfl, Bool.false_or,
      hmark, Bool.or_false]

/-- If all neighbors are known, the symmetric neighbors are the same as before. -/
theorem isSymmetricNeighbor_eq (h : TcHandled node now packet tc neighbor sent node')
    (hknown : node.NeighborsKnown) (a : Address) :
    node'.isSymmetricNeighbor now a = node.isSymmetricNeighbor now a :=
  InformationBase.isSymmetricNeighbor_eq hknown
    ((node.registry.extends_intern _).trans h.extends_acquainted) h.neighbors

theorem neighborsKnown (h : TcHandled node now packet tc neighbor sent node')
    (hknown : node.NeighborsKnown) : node'.NeighborsKnown := by
  intro id hid
  rw [h.neighbors] at hid
  obtain ⟨a, ha⟩ := hknown id hid
  exact ⟨a, ((node.registry.extends_intern _).trans h.extends_acquainted).address? ha⟩

end TcHandled

end Node

end Meshcast
