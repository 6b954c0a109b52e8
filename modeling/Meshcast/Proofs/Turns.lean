import Meshcast.Proofs.Ledger

/-!
# Meshcast — what comes of a host's turn

In a round every host has two turns. In the first one it greets those that it is linked to, and
every one of them takes note. In the second one it floods an announcement, and nobody's idea of its
neighbors changes.

* **`Orderly.greet`** — the nodes and the ledger once a greeting was heard.
* **`Announcing`**, **`announcing_deliver`** — the books during the flood of an announcement.
* **`Orderly.announce`** — the books once it is over.
-/

namespace Meshcast

variable {n : ℕ} {addr : Fin n → Address} {since round : ℕ} {net net' : Network n}
  {ledger : Ledger n} {i : Fin n}

/-- What others note of the greeting of a node. -/
def Node.said (node : Node) (now : ℕ) : Heard where
  time := now
  hello := node.greeting now
  validity := node.config.helloValidity

/-! ## Greetings -/

namespace Network

/-- The nodes once those next to `i` have handled its greeting. -/
def greeted (net : Network n) (i x : Fin n) : Node :=
  if x = i then ((net.nodes i).makeHello net.now).2
  else if net.graph.Adj i x then
    ((net.nodes x).receivePacket net.now ((net.nodes i).makeHello net.now).1 (net.address i)).2
  else net.nodes x

end Network

/-- The ledger once those next to `i` have noted its greeting. -/
def Ledger.greeted (ledger : Ledger n) (addr : Fin n → Address) (net : Network n) (i : Fin n) :
    Ledger n :=
  { ledger.made i (ledger.moves i) with
    memory := fun x =>
      if net.graph.Adj i x then
        (ledger.memory x).noting (some (addr i, (net.nodes i).said net.now))
      else ledger.memory x }

/-- The greeting `packet` of `i` is on its way: everybody who hears it has handled it or is about
to. -/
structure Greeting (addr : Fin n → Address) (since round : ℕ) (ledger : Ledger n) (net : Network n)
    (i : Fin n) (packet : Packet) (g : Heard) (state : Flood n) : Prop where
  copies : ∀ d ∈ state.inFlight, d.sender = i ∧ d.packet = packet ∧ net.graph.Adj i d.receiver
  once : (state.inFlight.map Delivery.receiver).Nodup
  nodes : ∀ x, state.nodes x =
    if net.graph.Adj i x ∧ x ∉ state.inFlight.map Delivery.receiver then
      ((net.nodes x).receivePacket net.now packet (addr i)).2
    else net.nodes x
  orderly : Orderly addr since state.nodes net.now round
    { ledger with memory := fun x =>
        if net.graph.Adj i x ∧ x ∉ state.inFlight.map Delivery.receiver then
          (ledger.memory x).noting (some (addr i, g))
        else ledger.memory x }

section Greeting

variable {packet : Packet} {g : Heard} {hello : Hello}

theorem greeting_emit (h : Orderly addr since net.nodes net.now round ledger) :
    Greeting addr since round ledger net i packet g (net.emit i packet) := by
  have hall : ∀ x, ¬(net.graph.Adj i x
      ∧ x ∉ (net.emit i packet).inFlight.map Delivery.receiver) := by
    rintro x ⟨hadj, hnot⟩
    exact hnot (List.mem_map.2 ⟨⟨i, x, packet⟩, Network.mem_transmit.2 ⟨rfl, rfl, hadj⟩, rfl⟩)
  refine ⟨fun d hd => Network.mem_transmit.1 hd, ?_, fun x => (if_neg (hall x)).symm, ?_⟩
  · show ((((List.finRange n).filter fun w => net.graph.Adj i w).map
      (⟨i, ·, packet⟩)).map Delivery.receiver).Nodup
    rw [List.map_map]
    exact ((List.nodup_finRange n).filter _).map fun _ _ heq => heq
  · simp only [hall, if_false]
    exact h

/-- A greeting that is new to all is noted by whoever it is delivered to. -/
theorem greeting_deliver (net : Network n) (hinjective : Function.Injective addr)
    (hbody : packet.body = .hello hello)
    (hauthentic : Authentic addr since net.nodes net.now round ledger i packet)
    (hfresh : ∀ x, x ≠ i → (net.nodes x).hasSeen net.now packet = false)
    (hg : g = ⟨net.now, hello, packet.header.validity⟩)
    {state : Flood n} (h : Greeting addr since round ledger net i packet g state)
    {d : Delivery n} {others : List (Delivery n)} (hperm : (d :: others).Perm state.inFlight) :
    Greeting addr since round ledger net i packet g (net.deliver state others d) := by
  obtain ⟨hsender, hpacket, hadj⟩ := h.copies d (hperm.subset List.mem_cons_self)
  have hreceivers := hperm.map Delivery.receiver
  have hmem : ∀ x, x ∈ state.inFlight.map Delivery.receiver ↔
      x = d.receiver ∨ x ∈ others.map Delivery.receiver := by
    intro x
    rw [← hreceivers.mem_iff, List.map_cons, List.mem_cons]
  have honce := hreceivers.nodup_iff.2 h.once
  rw [List.map_cons, List.nodup_cons] at honce
  have hreceiver := h.nodes d.receiver
  rw [if_neg fun hheard => hheard.2 ((hmem _).2 (.inl rfl))] at hreceiver
  have haddress : ∀ x, (state.nodes x).address = addr x := fun x =>
    (h.orderly.resident x).address_eq
  have hforeign : packet.header.originator ≠ (state.nodes d.receiver).address := by
    rw [haddress, hauthentic.originator_eq]
    exact hinjective.ne hadj.ne
  have hother : addr i ≠ (state.nodes d.receiver).address := by
    rw [haddress]
    exact hinjective.ne hadj.ne
  -- it is the first time that the receiver hears of it
  have hnote : (state.nodes d.receiver).heardFrom? net.now packet (addr i) = some g := by
    rw [hg]
    exact Node.heardFrom?_hello hbody hforeign hother (hreceiver ▸ hfresh _ hadj.ne')
  have hnodes := Network.nodes_deliver net state others d
  rw [haddress, hsender, hpacket] at hnodes
  have hinFlight : (net.deliver state others d).inFlight = others := by
    have hanswer : ((state.nodes d.receiver).receivePacket net.now packet (addr i)).1 = none := by
      rw [Node.receivePacket_hello net.now hbody hforeign hother]
    rw [Network.inFlight_deliver, haddress, hsender, hpacket, hanswer]
    exact List.append_nil _
  have hstill : Authentic addr since state.nodes net.now round
      { ledger with memory := fun x =>
          if net.graph.Adj i x ∧ x ∉ state.inFlight.map Delivery.receiver then
            (ledger.memory x).noting (some (addr i, g))
          else ledger.memory x } i packet :=
    { hauthentic with
      tc := fun tc htc => by
        rw [hbody] at htc
        nomatch htc }
  have hreceive := h.orderly.receive hstill d.receiver i
  refine ⟨?_, ?_, ?_, ?_⟩
  · intro e he
    rw [hinFlight] at he
    exact h.copies e (hperm.subset (List.mem_cons_of_mem d he))
  · rw [hinFlight]
    exact honce.2
  · intro x
    rw [hnodes, hinFlight]
    by_cases hx : x = d.receiver
    · subst hx
      rw [Function.update_self, if_pos ⟨hadj, honce.1⟩, hreceiver]
    · rw [Function.update_of_ne hx, h.nodes x]
      simp only [hmem, hx, false_or]
  · rw [hnodes, hinFlight]
    convert hreceive using 2
    funext x
    by_cases hx : x = d.receiver
    · subst hx
      rw [Function.update_self, if_pos ⟨hadj, honce.1⟩, hnote]
      dsimp only
      rw [if_neg fun hheard => hheard.2 ((hmem _).2 (.inl rfl))]
      rfl
    · rw [Function.update_of_ne hx]
      simp only [hmem, hx, false_or]

end Greeting

/-- The greeting of a host that is about to have its first turn of a round. -/
theorem Orderly.authentic_hello (h : Orderly addr since net.nodes net.now round ledger)
    {nodes : Fin n → Node} :
    Authentic addr since nodes net.now round (ledger.made i (ledger.moves i)) i
      ((net.nodes i).makeHello net.now).1 where
  originator_eq := (h.resident i).address_eq
  seq_eq := by
    refine ⟨ledger.sent i, (h.resident i).nextSeq_eq, ?_, ?_⟩
    · show ledger.sent i < Function.update ledger.sent i (ledger.sent i + 1) i
      rw [Function.update_self]
      exact Nat.lt_succ_self _
    · have hround := h.le_sent i
      have hnow := h.now_eq
      unfold madeAt Mesh.roundLength at *
      omega
  mentions a ha := by
    rcases ha with rfl | ⟨code, hlisted⟩
    · exact ⟨i, (h.resident i).address_eq.symm⟩
    · obtain ⟨id, -, -, hid, -⟩ := Node.mem_listedUnder_greeting.1 hlisted
      exact (h.resident i).known a id ((Registry.lookup?_eq_some_iff _ _ _).2 hid)
  hello _ _ := congrArg Config.helloValidity (h.resident i).config_eq
  tc _ htc := nomatch htc

/-- **Once a host has greeted, everybody next to it has taken note**, and nobody else. -/
theorem Orderly.greet (h : Orderly addr since net.nodes net.now round ledger)
    (hinjective : Function.Injective addr) (hround : ledger.sent i < 2 * round)
    (hemits : net.Emits (·.makeHello net.now) i net') :
    net' = net.withNodes (net.greeted i)
      ∧ Orderly addr since (net.greeted i) net.now round (ledger.greeted addr net i) := by
  obtain ⟨state, hfloods, hquiet, rfl⟩ := hemits
  let made := net.withNodes (Function.update net.nodes i ((net.nodes i).makeHello net.now).2)
  let packet := ((net.nodes i).makeHello net.now).1
  have hmade : ∀ x, x ≠ i → made.nodes x = net.nodes x := fun x hx => Function.update_of_ne hx _ _
  have hfresh : ∀ x, x ≠ i → (made.nodes x).hasSeen net.now packet = false := by
    intro x hx
    rw [hmade x hx]
    exact h.hasSeen_eq_false hinjective (h.resident i).address_eq (h.resident i).nextSeq_eq
      (le_refl _) hround.le x
  have hend : Greeting addr since round (ledger.made i (ledger.moves i)) made i packet
      ((net.nodes i).said net.now) state := by
    refine hfloods.induction (greeting_emit (h.makeHello hround)) ?_
    intro state d others hstate hperm
    exact greeting_deliver made hinjective rfl h.authentic_hello hfresh rfl hstate hperm
  -- nothing is in flight any more, so everybody next to the sender has handled it
  have hnodes : state.nodes = net.greeted i := by
    funext x
    rw [hend.nodes x, hquiet]
    unfold Network.greeted
    by_cases hx : x = i
    · subst hx
      rw [if_pos rfl, if_neg fun hheard => hheard.1.ne rfl]
      exact Function.update_self _ _ _
    · rw [if_neg hx, hmade x hx]
      simp only [List.map_nil, List.not_mem_nil, not_false_eq_true, and_true]
      rw [show net.address i = addr i from (h.resident i).address_eq]
      rfl
  have horderly := hend.orderly
  rw [hnodes, hquiet] at horderly
  simp only [List.map_nil, List.not_mem_nil, not_false_eq_true, and_true] at horderly
  exact ⟨by rw [hnodes], horderly⟩

/-! ## Announcements -/

/-- The announcement of `i` is on its way. -/
structure Announcing (addr : Fin n → Address) (since round : ℕ) (ledger : Ledger n)
    (net : Network n) (i : Fin n) (state : Flood n) : Prop where
  orderly : Orderly addr since state.nodes net.now round ledger
  source : state.nodes i = net.nodes i
  copies : ∀ d ∈ state.inFlight, (∃ tc, d.packet.body = .tc tc)
    ∧ Authentic addr since state.nodes net.now round ledger i d.packet

theorem Authentic.of_source {nodes nodes' : Fin n → Node} {now : ℕ} {packet : Packet}
    (h : Authentic addr since nodes now round ledger i packet) (hsource : nodes' i = nodes i) :
    Authentic addr since nodes' now round ledger i packet :=
  { h with tc := by rw [hsource]; exact h.tc }

theorem Authentic.forwarded? {nodes : Fin n → Node} {now : ℕ} {packet next : Packet}
    (h : Authentic addr since nodes now round ledger i packet)
    (hnext : packet.forwarded? = some next) :
    next.body = packet.body ∧ Authentic addr since nodes now round ledger i next := by
  unfold Packet.forwarded? at hnext
  split at hnext
  · nomatch hnext
  · cases hnext
    exact ⟨rfl, h.originator_eq, h.seq_eq, h.mentions, h.hello, h.tc⟩

theorem announcing_deliver {state : Flood n} (h : Announcing addr since round ledger net i state)
    {d : Delivery n} {others : List (Delivery n)} (hperm : (d :: others).Perm state.inFlight) :
    Announcing addr since round ledger net i (net.deliver state others d) := by
  obtain ⟨⟨tc, hbody⟩, hauthentic⟩ := h.copies d (hperm.subset List.mem_cons_self)
  have haddress : ∀ x, (state.nodes x).address = addr x :=
    fun x => (h.orderly.resident x).address_eq
  have hreceive := h.orderly.receive hauthentic d.receiver d.sender
  have hnodes := Network.nodes_deliver net state others d
  have hinFlight := Network.inFlight_deliver net state others d
  rw [haddress] at hnodes hinFlight
  -- an announcement is no greeting to take note of
  have hnone : (state.nodes d.receiver).heardFrom? net.now d.packet (addr d.sender) = none := by
    unfold Node.heardFrom?
    rw [hbody]
  rw [hnone, ← hnodes] at hreceive
  have hmemory : Function.update ledger.memory d.receiver
      ((ledger.memory d.receiver).noting (Option.map (addr d.sender, ·) none)) = ledger.memory :=
    Function.update_eq_self _ _
  rw [hmemory] at hreceive
  have hsource : (net.deliver state others d).nodes i = state.nodes i := by
    rw [hnodes]
    by_cases hi : i = d.receiver
    · have hown : d.packet.header.originator = (state.nodes d.receiver).address := by
        rw [haddress, ← hi]
        exact hauthentic.originator_eq
      rw [Node.receivePacket_own net.now (.inl hown), Function.update_eq_self]
    · exact Function.update_of_ne hi _ _
  refine ⟨hreceive, hsource.trans h.source, ?_⟩
  intro e he
  rw [hinFlight] at he
  rcases List.mem_append.1 he with hold | hnew
  · obtain ⟨hkind, hold⟩ := h.copies e (hperm.subset (List.mem_cons_of_mem d hold))
    exact ⟨hkind, hold.of_source hsource⟩
  · obtain ⟨next, hnext, he⟩ := List.mem_flatMap.1 hnew
    obtain ⟨-, rfl, -⟩ := Network.mem_transmit.1 he
    obtain ⟨hsame, hcopy⟩ :=
      hauthentic.forwarded? (Node.forwarded?_of_receivePacket (Option.mem_toList.1 hnext))
    exact ⟨⟨tc, hsame.trans hbody⟩, hcopy.of_source hsource⟩

/-- The network in which `i` is about to transmit its announcement. -/
def Network.announcing (net : Network n) (i : Fin n) : Network n :=
  net.withNodes (Function.update net.nodes i (net.nodes i).makeTc.2)

/-- The announcement of a host that is about to have its second turn of a round. -/
theorem Orderly.announcing_emit (h : Orderly addr since net.nodes net.now round ledger)
    (hround : ledger.sent i + 1 = 2 * round) :
    Announcing addr since round (ledger.made i (ledger.movesOf i (net.nodes i)))
      (net.announcing i) i ((net.announcing i).emit i (net.nodes i).makeTc.1) := by
  have hmade := h.makeTc hround
  have hi := h.resident i
  refine ⟨hmade, rfl, ?_⟩
  intro d hd
  obtain ⟨-, hpacket, -⟩ := Network.mem_transmit.1 hd
  rw [hpacket]
  have hnode : (net.announcing i).nodes i = (net.nodes i).makeTc.2 := Function.update_self _ _ _
  refine ⟨⟨_, rfl⟩, hi.address_eq, ⟨ledger.sent i, hi.nextSeq_eq, ?_, ?_⟩, ?_, nofun, ?_⟩
  · show ledger.sent i < Function.update ledger.sent i (ledger.sent i + 1) i
    rw [Function.update_self]
    exact Nat.lt_succ_self _
  · have hnow := h.now_eq
    show net.now ≤ _
    unfold madeAt Mesh.roundLength at *
    omega
  · rintro a (rfl | ha)
    · exact ⟨i, hi.address_eq.symm⟩
    · obtain ⟨id, -, hid⟩ := List.mem_filterMap.1 (mem_ofList.1 ha)
      exact hi.known a id ((Registry.lookup?_eq_some_iff _ _ _).2 hid)
  · intro tc htc
    cases htc
    refine ⟨congrArg Config.tcValidity hi.config_eq, ?_, ?_, ?_, ?_, ?_⟩
    · have hansn := (hmade.resident i).ansn_eq
      rw [Function.update_self] at hansn
      exact hansn
    · show (net.nodes i).groups.rows[(net.nodes i).self]?.getD ∅ = ∅
      rw [hi.rows_eq]
      rfl
    · show Function.update ledger.sent i (ledger.sent i + 1) i = 2 * round
      rw [Function.update_self]
      exact hround
    · show ((net.announcing i).nodes i).selectors.set.changed = false
      rw [hnode]
      rfl
    · intro a
      rw [show ((net.announcing i).emit i (net.nodes i).makeTc.1).nodes i = _ from hnode]
      refine mem_ofList.trans ?_
      unfold Registry.addresses Node.HasSelector
      rw [List.mem_filterMap]
      constructor
      · rintro ⟨id, hmem, hid⟩
        exact ⟨id, (Registry.lookup?_eq_some_iff _ _ _).2 hid, Std.ExtTreeSet.mem_toList.1 hmem⟩
      · rintro ⟨id, hid, hmem⟩
        exact ⟨id, Std.ExtTreeSet.mem_toList.2 hmem, (Registry.lookup?_eq_some_iff _ _ _).1 hid⟩

/-- **Once an announcement was flooded, the books are in order**, and nobody noted a greeting. -/
theorem Orderly.announce (h : Orderly addr since net.nodes net.now round ledger)
    (hround : ledger.sent i + 1 = 2 * round) (hemits : net.Emits Node.makeTc i net') :
    ∃ nodes, net' = net.withNodes nodes
      ∧ Orderly addr since nodes net.now round
        (ledger.made i (ledger.movesOf i (net.nodes i))) := by
  obtain ⟨state, hfloods, -, rfl⟩ := hemits
  have hend : Announcing addr since round (ledger.made i (ledger.movesOf i (net.nodes i)))
      (net.announcing i) i state :=
    hfloods.induction (h.announcing_emit hround)
      fun _ _ _ hstate hperm => announcing_deliver hstate hperm
  exact ⟨state.nodes, rfl, hend.orderly⟩

end Meshcast
