import Meshcast.Proofs.Selection

/-!
# Meshcast — everybody learns who relays for whom

Once relays know that they are relays, the hosts are a consistent network, so floods reach
everybody. What somebody learns from an announcement is then the whole truth about its originator:
links that it announced under the same number before are among those that it announces now.

* **`Node.Attuned`**, **`consistent_of_attuned`** — relays and selectors that agree with each other.
* **`Node.Learned`** — the links that a node knows of another one are those to its selectors.
* **`learned_receivePacket`** — the first copy of an announcement teaches them.
* **`Teaching`**, **`teaching_deliver`** — the flood of an announcement.
* **`learned_of_emits`** — what everybody knows after it.
-/

namespace Meshcast

variable {n : ℕ} {addr : Fin n → Address} {G : SimpleGraph (Fin n)} {now : ℕ} {x y m : Fin n}
  {node node' : Node} {chosen : Fin n → Fin n → Prop}

/-! ## Attuned nodes -/

namespace Node

/-- From `node` to `node'` only participants, links and marks of messages were added. -/
structure Abides (node node' : Node) : Prop where
  registry : node.registry.Extends node'.registry
  neighbors : node'.neighbors = node.neighbors
  selectors : node'.selectors.members = node.selectors.members
  relays : node'.relays = node.relays

theorem Abides.refl (node : Node) : Abides node node :=
  ⟨.refl _, rfl, rfl, rfl⟩

theorem Abides.trans {node₁ node₂ node₃ : Node} (h₁ : Abides node₁ node₂)
    (h₂ : Abides node₂ node₃) : Abides node₁ node₃ :=
  ⟨h₁.registry.trans h₂.registry, h₂.neighbors.trans h₁.neighbors,
    h₂.selectors.trans h₁.selectors, h₂.relays.trans h₁.relays⟩

theorem abides_makeTc (node : Node) : Abides node node.makeTc.2 :=
  ⟨.refl _, rfl, rfl, rfl⟩

/-- A node knows its surroundings, its relays are the chosen ones, and its selectors are those who
chose it. -/
structure Attuned (addr : Fin n → Address) (G : SimpleGraph (Fin n))
    (chosen : Fin n → Fin n → Prop) (now : ℕ) (x : Fin n) (node : Node) : Prop where
  surveys : node.Surveys addr G now x
  hasRelay_iff : ∀ y, node.HasRelay (addr y) ↔ chosen x y
  hasSelector_iff : ∀ y, node.HasSelector (addr y) ↔ chosen y x
  symmetric : ∀ id ∈ node.selectors.members, id ∈ node.neighbors.symmetric now

theorem Surveys.abides (h : node.Surveys addr G now x) (ha : node.Abides node') :
    node'.Surveys addr G now x where
  self := by
    show _ = some node'.neighbors.self
    rw [ha.neighbors]
    exact ha.registry _ _ h.self
  near y hadj := by
    rw [h.lookup?_near ha.registry hadj]
    exact h.near y hadj
  far y z hxy hyz := by
    rw [h.lookup?_far ha.registry hxy hyz]
    exact h.far y z hxy hyz
  mem_symmetric id := by
    rw [ha.neighbors, h.mem_symmetric]
    refine exists_congr fun y => and_congr_right fun hadj => ?_
    rw [h.lookup?_near ha.registry hadj]
  mem_arcs arc := by
    rw [ha.neighbors, h.mem_arcs]
    refine exists_congr fun y => exists_congr fun z => and_congr_right fun hxy =>
      and_congr_right fun hyz => and_congr_right fun _ => ?_
    rw [h.lookup?_near ha.registry hxy, h.lookup?_far ha.registry hxy hyz]
  relays_eq := by
    show _ = selectRelays node'.neighbors.self _ _
    rw [ha.relays, ha.neighbors]
    exact h.relays_eq
  marks id entry := by
    rw [ha.relays, ha.neighbors]
    exact h.marks id entry

theorem Attuned.abides (h : node.Attuned addr G chosen now x)
    (hinjective : Function.Injective addr) (ha : node.Abides node') :
    node'.Attuned addr G chosen now x where
  surveys := h.surveys.abides ha
  hasRelay_iff y := by
    rw [← h.hasRelay_iff y]
    exact h.surveys.hasRelay_eq (h.surveys.abides ha) ha.registry hinjective
  hasSelector_iff y := by
    rw [← h.hasSelector_iff y]
    constructor
    · rintro ⟨id, hid, hmem⟩
      rw [ha.selectors] at hmem
      obtain ⟨z, hadj, hz⟩ := (h.surveys.mem_symmetric id).1 (h.symmetric id hmem)
      obtain rfl := hinjective (Registry.lookup?_injective (ha.registry _ id hz) hid)
      exact ⟨id, hz, hmem⟩
    · rintro ⟨id, hid, hmem⟩
      exact ⟨id, ha.registry _ id hid, ha.selectors ▸ hmem⟩
  symmetric id hid := by
    rw [ha.selectors] at hid
    rw [ha.neighbors]
    exact h.symmetric id hid

theorem Surveys.isSymmetricNeighbor_iff (h : node.Surveys addr G now x)
    (hinjective : Function.Injective addr) :
    node.isSymmetricNeighbor now (addr y) = true ↔ G.Adj x y := by
  unfold InformationBase.isSymmetricNeighbor
  have hsymmetric : ∀ id, node.neighbors.isSymmetric now id = true ↔
      ∃ y, G.Adj x y ∧ node.registry.lookup? (addr y) = some id := by
    intro id
    rw [← h.mem_symmetric, Neighborhood.mem_symmetric]
    unfold Neighborhood.isSymmetric
    rw [Option.any_eq_true]
  rw [Option.any_eq_true]
  constructor
  · rintro ⟨id, hid, hmem⟩
    obtain ⟨z, hadj, hz⟩ := (hsymmetric id).1 hmem
    exact hinjective (Registry.lookup?_injective hz hid) ▸ hadj
  · intro hadj
    obtain ⟨id, hid⟩ := h.near y hadj
    exact ⟨id, hid, (hsymmetric id).2 ⟨y, hadj, hid⟩⟩

end Node

section Consistent

variable {net : Network n} (hinjective : Function.Injective addr)
  (haddress : ∀ x, net.address x = addr x)
  (h : ∀ x, (net.nodes x).Attuned addr net.graph chosen net.now x)

include haddress in
theorem isRelayOf_iff : net.isRelayOf m x = true ↔ (net.nodes x).HasRelay (addr m) := by
  unfold Network.isRelayOf Node.HasRelay
  rw [haddress, Option.any_eq_true]
  simp only [Std.ExtTreeSet.contains_iff_mem]

include haddress in
theorem isSelectorOf_iff : net.isSelectorOf x m = true ↔ (net.nodes m).HasSelector (addr x) := by
  unfold Network.isSelectorOf Node.HasSelector
  rw [haddress, Option.any_eq_true]
  simp only [Std.ExtTreeSet.contains_iff_mem]

include hinjective haddress h in
/-- Attuned nodes know each other as floods require. -/
theorem consistent_of_attuned : net.Consistent where
  address_injective v w heq := by
    rw [haddress, haddress] at heq
    exact hinjective heq
  symmetric_iff w v := by
    rw [haddress]
    exact (h w).surveys.isSymmetricNeighbor_iff hinjective
  adj_of_isRelayOf w m hrelay :=
    (h w).surveys.adj_of_hasRelay hinjective ((isRelayOf_iff haddress).1 hrelay)
  covered w x y hwx hxy hyw hwy := by
    obtain ⟨m, hm, hmy⟩ := (h w).surveys.covered hinjective hwx hxy hyw hwy
    exact ⟨m, (isRelayOf_iff haddress).2 hm, hmy⟩
  isSelectorOf_eq w m := by
    rw [Bool.eq_iff_iff, isSelectorOf_iff haddress, isRelayOf_iff haddress,
      (h m).hasSelector_iff, (h w).hasRelay_iff]

end Consistent

/-! ## What is learned -/

/-- A node knows of `m` the links to those who chose `m` as a relay, and no others. -/
structure Node.Learned (addr : Fin n → Address) (chosen : Fin n → Fin n → Prop) (now : ℕ)
    (m : Fin n) (node : Node) : Prop where
  known : ∃ id, node.registry.lookup? (addr m) = some id
  targets : ∀ u, chosen u m → ∃ id, node.registry.lookup? (addr u) = some id
  links : ∀ arc : Arc, node.registry.lookup? (addr m) = some arc.source →
    ((node.topology.get? now arc).isSome = true ↔
      ∃ u, chosen u m ∧ node.registry.lookup? (addr u) = some arc.target)

/-- It is not forgotten as long as nothing happens to these links. -/
theorem Node.Learned.keep (h : node.Learned addr chosen now m)
    (hregistry : node.registry.Extends node'.registry)
    (hlinks : ∀ arc : Arc, node.registry.lookup? (addr m) = some arc.source →
      node'.topology.get? now arc = node.topology.get? now arc) :
    node'.Learned addr chosen now m where
  known := by
    obtain ⟨id, hid⟩ := h.known
    exact ⟨id, hregistry _ id hid⟩
  targets u hu := by
    obtain ⟨id, hid⟩ := h.targets u hu
    exact ⟨id, hregistry _ id hid⟩
  links arc harc := by
    obtain ⟨id, hid⟩ := h.known
    rw [hregistry.lookup?_eq hid] at harc
    rw [hlinks arc harc, h.links arc harc]
    refine exists_congr fun u => and_congr_right fun hu => ?_
    obtain ⟨id, hid⟩ := h.targets u hu
    rw [hregistry.lookup?_eq hid]

namespace Node

variable {packet : Packet} {tc : Tc} {neighbor : Address} {sent : Option Packet}

/-- An announcement is about the links of its originator, if it is about any. -/
theorem TcHandled.links_of_other (h : TcHandled node now packet tc neighbor sent node') {arc : Arc}
    {a : Address} (ha : node.registry.lookup? a = some arc.source)
    (hother : a ≠ packet.header.originator) :
    node'.topology.table.slots[arc]? = node.topology.table.slots[arc]? := by
  have hlearned := h.learned
  split at hlearned
  · have htopology : node'.topology = _ := congrArg Prod.fst hlearned
    rw [htopology]
    unfold InformationBase.learn
    dsimp only
    split
    · rfl
    · rename_i hnewer
      rw [Bool.not_eq_true] at hnewer
      have hsource : arc.source ≠ (node.registry.intern packet.header.originator).1 := by
        intro heq
        have horiginator : (node.registry.intern packet.header.originator).2.lookup?
            packet.header.originator = some arc.source := by
          rw [Registry.lookup?_intern, if_pos rfl, heq]
        exact hother (Registry.lookup?_injective (node.registry.extends_intern _ _ _ ha)
          horiginator)
      rw [Topology.getElem?_record hnewer packet.header.validity.millis_pos,
        if_neg fun hannounced => hsource hannounced.1]
      cases node.topology.table.slots[arc]? with
      | none => rfl
      | some slot => exact Option.filter_some_pos (by simp [hsource])
  · rw [show node'.topology = _ from congrArg Prod.fst hlearned]

/-- An announcement was learned from. Everybody in it is known, and so are the links of `origin`
that it says, and of the others those that are not older. -/
structure TcTaken (node : Node) (now : ℕ) (packet : Packet) (tc : Tc) (origin : NodeId)
    (node' : Node) : Prop where
  originator : node'.registry.lookup? packet.header.originator = some origin
  advertised : ∀ a ∈ tc.advertised, ∃ id, node'.registry.lookup? a = some id
  links : ∀ arc : Arc, arc.source = origin → ((node'.topology.get? now arc).isSome = true ↔
    (∃ a ∈ tc.advertised, node'.registry.lookup? a = some arc.target)
      ∨ ∃ known, node.topology.get? now arc = some known ∧ known.isOlderThan tc.ansn = false)

/-- The first copy of an announcement is learned from, if it comes in from a symmetric neighbor and
nothing newer is known. -/
theorem tcTaken_receivePacket (hbody : packet.body = .tc tc)
    (hforeign : packet.header.originator ≠ node.address) (hother : neighbor ≠ node.address)
    (hsymmetric : node.isSymmetricNeighbor now neighbor = true)
    (hfresh : node.hasSeen now packet = false)
    (hnewer : node.topology.knowsNewer now (node.registry.intern packet.header.originator).1
      tc.ansn = false) :
    node.TcTaken now packet tc (node.registry.intern packet.header.originator).1
      (node.receivePacket now packet neighbor).2 := by
  have hhandled := tcHandled_receivePacket now hbody hforeign hother
  have hlearned := hhandled.learned
  have hregistry := hhandled.registry
  have hacquainted : (node.acquainted packet).isSymmetricNeighbor now neighbor = true :=
    InformationBase.isSymmetricNeighbor_of_extends (node.registry.extends_intern _) rfl hsymmetric
  rw [hfresh, hacquainted, Bool.not_false, Bool.true_and, if_pos rfl] at hlearned hregistry
  generalize (node.receivePacket now packet neighbor).2 = node'
    at hhandled hlearned hregistry ⊢
  have horiginator : node'.registry.lookup? packet.header.originator =
      some (node.registry.intern packet.header.originator).1 := by
    refine hhandled.extends_acquainted _ _ ?_
    rw [Registry.lookup?_intern, if_pos rfl]
  have hadvertised : ∀ a ∈ tc.advertised, ∃ id, node'.registry.lookup? a = some id := by
    intro a ha
    rw [hregistry]
    exact Registry.exists_lookup?_internAll _ (Std.ExtTreeSet.mem_toList.2 ha)
  refine ⟨horiginator, hadvertised, ?_⟩
  intro arc harc
  have hlisted : arc.target ∈ node.listed packet.header.originator tc ↔
      ∃ a ∈ tc.advertised, node'.registry.lookup? a = some arc.target := by
    simp only [hregistry, ← Std.ExtTreeSet.mem_toList]
    exact Registry.mem_internAll _
  have htopology : node'.topology = _ := congrArg Prod.fst hlearned
  rw [htopology, ← hlisted]
  unfold InformationBase.learn
  dsimp only
  rw [if_neg (by rw [hnewer]; exact Bool.false_ne_true)]
  exact Topology.isSome_get?_record hnewer packet.header.validity.millis_pos harc

end Node

section Orderly

variable {since round : ℕ} {nodes : Fin n → Node} {ledger : Ledger n}
  (ho : Orderly addr since nodes now round ledger) (hinjective : Function.Injective addr)

include ho hinjective

/-- A live link of `m` was announced a few rounds ago at most. -/
theorem Orderly.link_of_live {arc : Arc} {slot : Slot SeqNum}
    (hsource : (nodes x).registry.lookup? (addr m) = some arc.source)
    (hslot : (nodes x).topology.table.slots[arc]? = some slot) (hlive : slot.isLive now = true) :
    ∃ t k, (nodes x).registry.lookup? (addr t) = some arc.target ∧ slot.value = .count k
      ∧ k ≤ ledger.moves m ∧ ledger.moves m ≤ k + 7
      ∧ (k = ledger.moves m → (nodes m).selectors.set.changed = false →
        (nodes m).HasSelector (addr t)) := by
  obtain ⟨m', t, k, u, hm', ht, hdated, hcurrent⟩ := ho.links x arc slot hslot
  rw [(Registry.lookup?_eq_some_iff _ _ _).1 hsource, Option.some.injEq] at hm'
  obtain rfl := hinjective hm'
  refine ⟨t, k, (Registry.lookup?_eq_some_iff _ _ _).2 ht, hdated.number_eq, hdated.number_le, ?_,
    hcurrent⟩
  have hnow := ho.now_eq
  have hsent := ho.sent_le m
  have hmoves := hdated.moves_le
  have hexpires := hdated.expiresAt_le
  simp only [Slot.isLive, decide_eq_true_eq] at hlive
  unfold Mesh.roundLength at *
  omega

/-- What somebody else announces is never older than what is known of it. -/
theorem Orderly.knowsNewer_eq_false {id : NodeId}
    (hid : ∀ a, (nodes x).registry.address? id = some a → a = addr m) :
    (nodes x).topology.knowsNewer now id (.count (ledger.moves m)) = false := by
  rw [Topology.knowsNewer_eq_false_iff]
  rintro arc known hknown rfl
  obtain ⟨slot, hslot, hlive, rfl⟩ := ExpiringTable.get?_eq_some_iff.1 hknown
  obtain ⟨m', -, -, -, hm', -⟩ := ho.links x arc slot hslot
  have hsource := hm'
  rw [hid _ hm', ← Registry.lookup?_eq_some_iff] at hsource
  obtain ⟨-, k, -, hnumber, hle, hnear, -⟩ := ho.link_of_live hinjective hsource hslot hlive
  rw [hnumber]
  exact SeqNum.not_isNewerThan_count hle (by omega)

/-- **The first copy of an announcement that comes in from a neighbor tells the truth.** Older links
of the originator are given up, and those under the same number are among the announced ones. -/
theorem learned_receivePacket {packet : Packet} {tc : Tc} {w : Fin n}
    (hauthentic : Authentic addr since nodes now round ledger m packet)
    (hbody : packet.body = .tc tc) (hmx : m ≠ x) (hwx : w ≠ x)
    (hselectors : ∀ u, (nodes m).HasSelector (addr u) ↔ chosen u m)
    (hsymmetric : (nodes x).isSymmetricNeighbor now (addr w) = true)
    (hfresh : (nodes x).hasSeen now packet = false) :
    ((nodes x).receivePacket now packet (addr w)).2.Learned addr chosen now m := by
  obtain ⟨hvalidity, hansn, -, -, hquiet, hadvertised⟩ := hauthentic.tc tc hbody
  have haddress := (ho.resident x).address_eq
  have hforeign : packet.header.originator ≠ (nodes x).address := by
    rw [haddress, hauthentic.originator_eq]
    exact hinjective.ne hmx
  have hother : addr w ≠ (nodes x).address := by
    rw [haddress]
    exact hinjective.ne hwx
  have hgrows := (Node.grows_receivePacket (nodes x) now packet (addr w)).base.registry
  have horigin : ((nodes x).registry.intern packet.header.originator).2.lookup? (addr m) =
      some ((nodes x).registry.intern packet.header.originator).1 := by
    rw [Registry.lookup?_intern, if_pos hauthentic.originator_eq]
  have hnewer : (nodes x).topology.knowsNewer now
      ((nodes x).registry.intern packet.header.originator).1 tc.ansn = false := by
    rw [hansn]
    refine ho.knowsNewer_eq_false hinjective ?_
    intro a ha
    have hintern := ((nodes x).registry.extends_intern packet.header.originator).address? ha
    rw [(Registry.lookup?_eq_some_iff _ _ _).1 horigin, Option.some.injEq] at hintern
    exact hintern.symm
  have htaken := Node.tcTaken_receivePacket hbody hforeign hother hsymmetric hfresh hnewer
  generalize ((nodes x).registry.intern packet.header.originator).1 = origin
    at horigin hnewer htaken
  have hknown := htaken.originator
  rw [hauthentic.originator_eq] at hknown
  refine ⟨⟨_, hknown⟩, ?_, ?_⟩
  · intro u hu
    exact htaken.advertised _ ((hadvertised _).2 ((hselectors u).2 hu))
  · intro arc harc
    rw [hknown, Option.some.injEq] at harc
    rw [htaken.links arc harc.symm]
    constructor
    · rintro (⟨a, ha, htarget⟩ | ⟨known, hget, holder⟩)
      · obtain ⟨u, rfl⟩ := hauthentic.mentions a (.inr (by rw [hbody]; exact ha))
        exact ⟨u, (hselectors u).1 ((hadvertised _).1 ha), htarget⟩
      · -- a link that stayed has the same number, so it is one to a selector
        have hsame := SeqNum.eq_of_age
          (Topology.knowsNewer_eq_false_iff.1 hnewer arc known hget harc.symm) holder
        obtain ⟨slot, hslot, hlive, rfl⟩ := ExpiringTable.get?_eq_some_iff.1 hget
        have hsource : (nodes x).registry.lookup? (addr m) = some arc.source := by
          obtain ⟨m', -, -, -, hm', -⟩ := ho.links x arc slot hslot
          have hm := hgrows.address? hm'
          rw [← harc, (Registry.lookup?_eq_some_iff _ _ _).1 hknown, Option.some.injEq] at hm
          rw [hm]
          exact (Registry.lookup?_eq_some_iff _ _ _).2 hm'
        obtain ⟨t, k, ht, hnumber, hle, hnear, hcurrent⟩ :=
          ho.link_of_live hinjective hsource hslot hlive
        have hk : k = ledger.moves m := by
          rw [hnumber, hansn, SeqNum.count_eq_iff] at hsame
          omega
        exact ⟨t, (hselectors t).1 (hcurrent hk hquiet), hgrows _ _ ht⟩
    · rintro ⟨u, hu, hid⟩
      exact .inl ⟨addr u, (hadvertised _).2 ((hselectors u).2 hu), hid⟩

end Orderly

/-! ## The flood of an announcement -/

section Teaching

variable {since round steps : ℕ} {net : Network n} {ledger : Ledger n} {i : Fin n}
  {packet : Packet} {state : Flood n}

/-- The announcement of `i` is on its way through a consistent network. Whoever handed it over has
learned from it, and what was learned of others is not forgotten. -/
structure Teaching (addr : Fin n → Address) (since round : ℕ) (ledger : Ledger n)
    (chosen : Fin n → Fin n → Prop) (net : Network n) (i : Fin n) (packet : Packet) (steps : ℕ)
    (state : Flood n) : Prop where
  announcing : Announcing addr since round ledger net i state
  progress : Network.Progress net i packet steps state
  relays : ∀ x, (state.nodes x).relays = (net.nodes x).relays
  learned : ∀ x ∈ state.handlers, (state.nodes x).Learned addr chosen net.now i
  kept : ∀ x m, m ≠ i → (net.nodes x).Learned addr chosen net.now m →
    (state.nodes x).Learned addr chosen net.now m

/-- What a delivery does to what its receiver has learned. -/
theorem Teaching.learn (hnet : net.Consistent) (hinjective : Function.Injective addr)
    (haddress : ∀ x, net.address x = addr x)
    (hselectors : ∀ u, (net.nodes i).HasSelector (addr u) ↔ chosen u i)
    (h : Teaching addr since round ledger chosen net i packet steps state) {d : Delivery n}
    (hd : d ∈ state.inFlight) (hreceiver : d.receiver ≠ i) {node' : Node}
    (hnode' : node' = ((state.nodes d.receiver).receivePacket net.now d.packet
      (addr d.sender)).2) :
    node'.Learned addr chosen net.now i
      ∧ ∀ m, m ≠ i → (state.nodes d.receiver).Learned addr chosen net.now m →
        node'.Learned addr chosen net.now m := by
  obtain ⟨hadj, hcopy, -⟩ := h.progress.copies d hd
  obtain ⟨⟨tc, hbody⟩, hauthentic⟩ := h.announcing.copies d hd
  have hgrows := (Node.grows_receivePacket (state.nodes d.receiver) net.now d.packet
    (addr d.sender)).base.registry
  have hown := (h.announcing.orderly.resident d.receiver).address_eq
  have hforeign : d.packet.header.originator ≠ (state.nodes d.receiver).address := by
    rw [hown, hauthentic.originator_eq]
    exact hinjective.ne hreceiver.symm
  have hother : addr d.sender ≠ (state.nodes d.receiver).address := by
    rw [hown]
    exact hinjective.ne hadj.ne
  have hhandled := Node.tcHandled_receivePacket net.now hbody hforeign hother
  rw [← hnode'] at hgrows hhandled
  constructor
  · cases hseen : (state.nodes d.receiver).hasSeen net.now packet with
    | true =>
      -- the receiver learned from an earlier copy
      have hlearned := hhandled.learned
      rw [hcopy.hasSeen_eq, hseen, Bool.not_true, Bool.false_and,
        if_neg Bool.false_ne_true] at hlearned
      refine (h.learned d.receiver ((h.progress.hasSeen_iff _ hreceiver).1 hseen)).keep hgrows ?_
      intro arc _
      rw [show node'.topology = _ from congrArg Prod.fst hlearned]
    | false =>
      rw [hnode']
      refine learned_receivePacket h.announcing.orderly hinjective hauthentic hbody hreceiver.symm
        hadj.ne ?_ ?_ (hcopy.hasSeen_eq _ _ ▸ hseen)
      · rw [h.announcing.source]
        exact hselectors
      · rw [← haddress]
        exact Network.isSymmetricNeighbor_descendant hnet (h.progress.descends _) hadj.symm
  · intro m hm hlearned
    refine hlearned.keep hgrows fun arc harc => ?_
    have hslots := hhandled.links_of_other harc (by
      rw [hauthentic.originator_eq]
      exact hinjective.ne hm)
    unfold Topology.get? ExpiringTable.get?
    rw [hslots]

theorem teaching_deliver (hnet : net.Consistent) (hinjective : Function.Injective addr)
    (haddress : ∀ x, net.address x = addr x) {tc : Tc} (hbody : packet.body = .tc tc)
    (horiginator : packet.header.originator = addr i) (httl : n < packet.header.ttl.toNat)
    (hremembers : ∀ x, (net.nodes x).duplicates.holdTime ≠ 0)
    (hselectors : ∀ u, (net.nodes i).HasSelector (addr u) ↔ chosen u i)
    (h : Teaching addr since round ledger chosen net i packet steps state) {d : Delivery n}
    {others : List (Delivery n)} (hperm : (d :: others).Perm state.inFlight) :
    Teaching addr since round ledger chosen net i packet (steps + 1)
      (net.deliver state others d) := by
  have hd : d ∈ state.inFlight := hperm.subset List.mem_cons_self
  have horiginator' : packet.header.originator = net.address i := by rw [haddress, horiginator]
  have hsource := fun x => (h.announcing.orderly.resident x).address_eq
  have hnodes := Network.nodes_deliver net state others d
  rw [hsource] at hnodes
  have hothers : ∀ x, x ≠ d.receiver → (net.deliver state others d).nodes x = state.nodes x := by
    intro x hx
    rw [hnodes, Function.update_of_ne hx]
  have hself : (net.deliver state others d).nodes d.receiver =
      ((state.nodes d.receiver).receivePacket net.now d.packet (addr d.sender)).2 := by
    rw [hnodes, Function.update_self]
  have hrelays : ∀ x, ((net.deliver state others d).nodes x).relays = (net.nodes x).relays := by
    intro x
    rw [← h.relays x]
    by_cases hx : x = d.receiver
    · subst hx
      rw [hself]
      exact (Node.tablesNoted_receivePacket _ _ _ _).relays
    · rw [hothers x hx]
  have hlast : (∀ x ∈ (net.deliver state others d).handlers,
        ((net.deliver state others d).nodes x).Learned addr chosen net.now i)
      ∧ ∀ x m, m ≠ i → (net.nodes x).Learned addr chosen net.now m →
        ((net.deliver state others d).nodes x).Learned addr chosen net.now m := by
    by_cases hreceiver : d.receiver = i
    · -- nothing happens
      rw [Network.deliver_to_source horiginator' h.progress hd hreceiver]
      exact ⟨h.learned, h.kept⟩
    · obtain ⟨hlearned, hkept⟩ :=
        h.learn hnet hinjective haddress hselectors hd hreceiver hself
      obtain ⟨sent, a⟩ : ∃ sent, Network.Arrival net packet state others d sent
          (net.deliver state others d) :=
        Network.arrival_deliver hnet hbody horiginator' h.progress hd httl hreceiver
      constructor
      · intro x hmem
        by_cases hx : x = d.receiver
        · exact hx ▸ hlearned
        · rw [hothers x hx]
          exact h.learned x (((a.mem_handlers h.progress hreceiver).1 hmem).resolve_right hx)
      · intro x m hm hbefore
        by_cases hx : x = d.receiver
        · subst hx
          exact hkept m hm (h.kept d.receiver m hm hbefore)
        · rw [hothers x hx]
          exact h.kept x m hm hbefore
  exact ⟨announcing_deliver h.announcing hperm, Network.progress_deliver hnet hbody horiginator'
    httl (fun x _ => hremembers x) h.progress hperm, hrelays, hlast.1, hlast.2⟩

/-- **Once an announcement was flooded, everybody who can be reached has learned from it.** -/
theorem learned_of_emits (net : Network n) (ho : Orderly addr since net.nodes net.now round ledger)
    (hinjective : Function.Injective addr) (hn : n ≤ 254) (hround : ledger.sent i + 1 = 2 * round)
    (hattuned : ∀ x, (net.nodes x).Attuned addr net.graph chosen net.now x)
    {nodes : Fin n → Node} (hemits : net.Emits Node.makeTc i (net.withNodes nodes)) :
    (∀ x, (net.nodes x).Abides (nodes x))
      ∧ (∀ x, x ≠ i → net.graph.Reachable i x → (nodes x).Learned addr chosen net.now i)
      ∧ ∀ x m, m ≠ i → (net.nodes x).Learned addr chosen net.now m →
        (nodes x).Learned addr chosen net.now m := by
  obtain ⟨state, hfloods, hquiet, hnodes⟩ := hemits
  obtain rfl : nodes = state.nodes := congrArg Network.nodes hnodes
  let made := net.announcing i
  let packet := (net.nodes i).makeTc.1
  have hmade : ∀ x, (net.nodes x).Abides (made.nodes x) := by
    intro x
    by_cases hx : x = i
    · subst hx
      rw [show made.nodes x = _ from Function.update_self _ _ _]
      exact Node.abides_makeTc _
    · rw [show made.nodes x = _ from Function.update_of_ne hx _ _]
      exact .refl _
  have hattuned' : ∀ x, (made.nodes x).Attuned addr made.graph chosen made.now x :=
    fun x => (hattuned x).abides hinjective (hmade x)
  have hstart := ho.announcing_emit hround
  have hresident := fun x => hstart.orderly.resident x
  have haddress : ∀ x, made.address x = addr x := fun x => (hresident x).address_eq
  have hnet := consistent_of_attuned hinjective haddress hattuned'
  have horiginator : packet.header.originator = addr i := (ho.resident i).address_eq
  have httl : n < packet.header.ttl.toNat := by
    show n < (net.nodes i).config.maxTtl.toNat
    rw [(ho.resident i).config_eq]
    exact Nat.lt_of_le_of_lt hn (by decide)
  have hfresh : ∀ x, x ≠ i → (made.nodes x).hasSeen made.now packet = false := by
    intro x hx
    rw [show made.nodes x = _ from Function.update_of_ne hx _ _]
    exact ho.hasSeen_eq_false hinjective horiginator (ho.resident i).nextSeq_eq (le_refl _)
      (by omega) x
  have hremembers : ∀ x, (made.nodes x).duplicates.holdTime ≠ 0 := by
    intro x
    rw [show (made.nodes x).duplicates.holdTime = 30000 from (hresident x).holdTime_eq]
    decide
  obtain ⟨steps, hend⟩ : ∃ steps, Teaching addr since round
      (ledger.made i (ledger.movesOf i (net.nodes i))) chosen made i packet steps state := by
    refine hfloods.induction (P := fun state => ∃ steps, Teaching addr since round
      (ledger.made i (ledger.movesOf i (net.nodes i))) chosen made i packet steps state) ?_ ?_
    · exact ⟨0, hstart, Network.progress_emit hfresh, fun _ => rfl,
        fun _ hmem => absurd hmem List.not_mem_nil, fun _ _ _ => id⟩
    · rintro state d others ⟨steps, h⟩ hperm
      exact ⟨steps + 1, teaching_deliver hnet hinjective haddress rfl horiginator httl hremembers
        (hattuned' i).hasSelector_iff h hperm⟩
  refine ⟨?_, ?_, ?_⟩
  · intro x
    have hdescends := hend.progress.descends x
    exact (hmade x).trans ⟨hdescends.registry, hdescends.neighbors,
      congrArg Selectors.members hdescends.selectors, hend.relays x⟩
  · rintro x hx ⟨walk⟩
    exact hend.learned x (Network.handler_of_walk hnet hend.progress hquiet (.inl rfl) walk hx)
  · intro x m hm hlearned
    refine hend.kept x m hm (hlearned.keep (hmade x).registry fun arc _ => ?_)
    by_cases hx : x = i
    · subst hx
      rw [show made.nodes x = _ from Function.update_self _ _ _]
      rfl
    · rw [show made.nodes x = _ from Function.update_of_ne hx _ _]

end Teaching

end Meshcast
