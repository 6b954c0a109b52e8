import Mathlib.Algebra.Group.Nat.Defs
import Mathlib.Data.List.Nodup
import Meshcast.Agent
import Meshcast.Proofs.Advertisers
import Meshcast.Proofs.ControlCode
import Meshcast.Proofs.Exchange

/-!
# Meshcast — nodes that fall silent

A node lists whom it knows, however many these are, but each list is counted in one octet. In a
crowd its packets cannot be written any more; then they are given up, and nothing is sent.

* **`Packet.Sent`**, **`Packet.GivenUp`**, **`Packet.sent_or_givenUp`** — the two things that may
  become of a node's own packet.
* **`Node.size_listedUnder_greeting`**, **`Node.size_selectorAddresses`** — how long the lists are.
* **`heard_unless_crowded`** — which packets of a node are sent, in every state it can get into.
* **`Moment.Meets`** — the invariant of a node that hears first greetings only;
  **`givenUp_among_strangers`** — it falls silent when there are too many of them.
-/

namespace Meshcast

/-! ## Packets that are sent or given up -/

namespace Packet

/-- The packet is put on the transport, in bytes that are read as the packet. -/
def Sent (packet : Packet) : Prop :=
  ∃ bytes, packet.encode = .ok bytes ∧ Packet.decode bytes = .ok packet
    ∧ Agent.floodEvents packet = [.flooded bytes]

/-- The packet has a list that is too long to be counted, which is the error; nothing is put on the
transport. -/
def GivenUp (packet : Packet) : Prop :=
  ∃ list length, packet.body.Counts list length ∧ 255 < length
    ∧ packet.encode = .error (.tooManyEntries list length) ∧ Agent.floodEvents packet = []

variable {packet : Packet}

theorem sent_or_givenUp (h : packet.body.Legible) : packet.Sent ∨ packet.GivenUp := by
  cases hencode : packet.encode with
  | ok bytes =>
    refine .inl ⟨bytes, hencode, decode_of_encode h hencode, ?_⟩
    unfold Agent.floodEvents
    rw [hencode]
  | error e =>
    obtain ⟨list, length, hcounts, hmany, rfl⟩ := exists_of_encode_eq_error hencode
    refine .inr ⟨list, length, hcounts, hmany, hencode, ?_⟩
    unfold Agent.floodEvents
    rw [hencode]

/-- A packet is sent exactly if all its lists can be counted. -/
theorem sent_iff (h : packet.body.Legible) :
    packet.Sent ↔ ∀ list length, packet.body.Counts list length → length ≤ 255 := by
  constructor
  · rintro ⟨bytes, hencode, -⟩ list length
    exact le_of_encode_eq_ok hencode
  · intro hshort
    refine (sent_or_givenUp h).resolve_right ?_
    rintro ⟨list, length, hcounts, hmany, -⟩
    have := hshort list length hcounts
    omega

end Packet

theorem Hello.sent_iff {hello : Hello} (h : hello.Legible) (header : Header) :
    Packet.Sent ⟨header, .hello hello⟩ ↔ ∀ code, (hello.listedUnder code).size ≤ 255 := by
  rw [@Packet.sent_iff ⟨header, .hello hello⟩ h]
  constructor
  · intro hshort code
    unfold listedUnder
    cases hgroup : hello.groups[code]? with
    | none => simp
    | some addresses => exact hshort _ _ (.neighbors hgroup)
  · intro hshort list length hcounts
    cases hcounts with
    | @neighbors _ code addresses hgroup =>
      have hsize := hshort code
      unfold listedUnder at hsize
      rwa [hgroup] at hsize

theorem Tc.sent_iff (tc : Tc) (header : Header) :
    Packet.Sent ⟨header, .tc tc⟩ ↔ tc.advertised.size ≤ 255 ∧ tc.groups.size ≤ 255 := by
  rw [@Packet.sent_iff ⟨header, .tc tc⟩ trivial]
  constructor
  · exact fun hshort => ⟨hshort _ _ (.advertised tc), hshort _ _ (.groups tc)⟩
  · rintro ⟨hadvertised, hgroups⟩ list length hcounts
    cases hcounts with
    | advertised => exact hadvertised
    | groups => exact hgroups

/-! ## How long the lists are -/

/-- Different participants have different addresses. -/
theorem Registry.size_eq_length {r : Registry} {ids : List NodeId} {addresses : AddressSet}
    (hnodup : ids.Nodup) (hknown : ∀ id ∈ ids, ∃ a, r.address? id = some a)
    (h : ∀ a, a ∈ addresses ↔ ∃ id ∈ ids, r.address? id = some a) :
    addresses.size = ids.length := by
  -- what the registry answers is compared, so that none of the two lists is filtered
  have hids : (ids.map r.address?).Nodup := by
    refine hnodup.map_on fun i hi j _ heq => ?_
    obtain ⟨a, ha⟩ := hknown i hi
    exact address?_injective ha (heq ▸ ha)
  have haddresses : (addresses.toList.map some).Nodup :=
    (nodup_toList addresses).map fun _ _ => Option.some.inj
  have hsame : (addresses.toList.map some).Perm (ids.map r.address?) := by
    rw [List.perm_ext_iff_of_nodup haddresses hids]
    intro found
    simp only [List.mem_map, Std.ExtTreeSet.mem_toList]
    constructor
    · rintro ⟨a, ha, rfl⟩
      exact (h a).1 ha
    · rintro ⟨id, hid, rfl⟩
      obtain ⟨a, ha⟩ := hknown id hid
      exact ⟨a, (h a).2 ⟨id, hid, ha⟩, ha.symm⟩
  have hlength := hsame.length_eq
  rwa [List.length_map, List.length_map, Std.ExtTreeSet.length_toList] at hlength

namespace Node

/-- A greeting lists all neighbors of a kind, if they are known. -/
theorem size_listedUnder_greeting (node : Node) (now : Nat)
    (hknown : ∀ id ∈ node.neighbors.table.slots, ∃ a, node.registry.address? id = some a)
    (status : NeighborType) :
    ((node.greeting now).listedUnder (.forNeighbor status)).size =
      ((node.neighbors.entries now).filter (·.2.status = status)).length := by
  let kind := (node.neighbors.entries now).filter (·.2.status = status)
  have hkind {id : NodeId} {entry : Neighbor} : (id, entry) ∈ kind ↔
      node.neighbors.get? now id = some entry ∧ entry.status = status := by
    rw [List.mem_filter, Neighborhood.mem_entries, decide_eq_true_eq]
  have hnodup : (kind.map Prod.fst).Nodup := by
    rw [List.Nodup, List.pairwise_map]
    exact (Std.ExtTreeMap.distinct_keys_toList.filter _).imp fun hne heq =>
      hne (Std.compare_eq_iff_eq.2 heq)
  rw [Registry.size_eq_length hnodup, List.length_map]
  · intro id hid
    obtain ⟨⟨id, entry⟩, hmem, rfl⟩ := List.mem_map.1 hid
    obtain ⟨slot, hslot, -, -⟩ := ExpiringTable.get?_eq_some_iff.1 (hkind.1 hmem).1
    exact hknown id (mem_iff_exists_getElem?.2 ⟨slot, hslot⟩)
  · intro a
    rw [mem_listedUnder_greeting]
    constructor
    · rintro ⟨id, entry, hget, ha, hcode⟩
      have hstatus : entry.status = status := congrArg LinkCode.neighbor hcode
      exact ⟨id, List.mem_map.2 ⟨(id, entry), hkind.2 ⟨hget, hstatus⟩, rfl⟩, ha⟩
    · rintro ⟨id, hid, ha⟩
      obtain ⟨⟨id, entry⟩, hmem, rfl⟩ := List.mem_map.1 hid
      obtain ⟨hget, rfl⟩ := hkind.1 hmem
      exact ⟨id, entry, hget, ha, rfl⟩

/-- An announcement lists all selectors, if they are known. -/
theorem size_selectorAddresses {node : Node}
    (hknown : ∀ id ∈ node.selectors.members, ∃ a, node.registry.address? id = some a) :
    node.selectorAddresses.size = node.selectors.members.size := by
  rw [Registry.size_eq_length (nodup_toList node.selectors.members), Std.ExtTreeSet.length_toList]
  · exact fun id hid => hknown id (Std.ExtTreeSet.mem_toList.1 hid)
  · intro a
    rw [mem_selectorAddresses]
    simp only [Std.ExtTreeSet.mem_toList]

/-- Whatever happens to a node, its selectors are known. -/
theorem exists_advertises_run (address : Address) (config : Config) (since : Nat)
    (ops : List Operation) :
    ∃ moves, ((Moment.start address config since).run ops).node.Advertises moves :=
  Moment.run_induction (P := fun m => ∃ moves, m.node.Advertises moves)
    ⟨0, advertises_start address config⟩
    (fun _ op ⟨_, h⟩ => ⟨_, Moment.advertises_occur h (.operation op)⟩) ops

end Node

/-! ## Which packets are sent -/

/-- **A node is heard unless it is crowded.** In every state that a node can get into, the greeting
that it makes is sent exactly if it has at most 255 live neighbors of each status, and the
announcement exactly if it has at most 255 selectors and joined at most 255 groups. What is sent is
read as it was made. Otherwise the packet is given up, with an error that tells which list is too
long and how long it is. -/
theorem heard_unless_crowded (address : Address) (config : Config) (since : Nat)
    (ops : List Operation) :
    let m := (Moment.start address config since).run ops
    let greeting := (m.node.makeHello m.now).1
    let announcement := m.node.makeTc.1
    (greeting.Sent ∨ greeting.GivenUp) ∧ (announcement.Sent ∨ announcement.GivenUp)
      ∧ (greeting.Sent ↔ ∀ status,
        ((m.node.neighbors.entries m.now).filter (·.2.status = status)).length ≤ 255)
      ∧ (announcement.Sent ↔ m.node.selectors.members.size ≤ 255
        ∧ (m.node.groups.joined m.node.self).size ≤ 255) := by
  intro m greeting announcement
  have hlegible := m.node.legible_greeting m.now
  have hneighbors := m.node.size_listedUnder_greeting m.now fun id hid =>
    (Node.neighbor_run rfl hid).2
  obtain ⟨moves, hadvertises⟩ := Node.exists_advertises_run address config since ops
  have hselectors := Node.size_selectorAddresses hadvertises.selectors_known
  refine ⟨Packet.sent_or_givenUp hlegible, Packet.sent_or_givenUp trivial, ?_, ?_⟩
  · refine (Hello.sent_iff hlegible _).trans ⟨fun hshort status => ?_, fun hfew code => ?_⟩
    · rw [← hneighbors status]
      exact hshort _
    · exact Nat.le_trans (m.node.size_listedUnder_greeting_le m.now code) (hfew code.neighbor)
  · refine (Tc.sent_iff _ _).trans ?_
    rw [← hselectors]
    exact Iff.rfl

/-! ## Crowds -/

theorem Address.nodup_advance (a : Address) {n : ℕ} (h : n ≤ 2 ^ 32) :
    ((List.range n).map a.advance).Nodup := by
  refine List.nodup_range.map_on fun i hi j hj heq => ?_
  have hbits : UInt32.ofNat i = UInt32.ofNat j := by
    simpa [Address.advance] using heq
  have hi := List.mem_range.1 hi
  have hj := List.mem_range.1 hj
  have hvalue := congrArg UInt32.toNat hbits
  rw [UInt32.toNat_ofNat', UInt32.toNat_ofNat', Nat.mod_eq_of_lt (by omega),
    Nat.mod_eq_of_lt (by omega)] at hvalue
  exact hvalue

/-- The first greeting of a host, which knows nobody yet. -/
def firstGreeting (host : Address) (config : Config) : Packet :=
  ((Node.start host config).makeHello 0).1

namespace Moment

/-- A node has met nobody but these, whose first greetings it has heard just now. -/
structure Meets (m : Moment) (own : Address) (config : Config) (met : List Address) : Prop where
  address_eq : m.node.address = own
  marks_known : m.node.MarksKnown
  known : ∀ a id, m.node.registry.lookup? a = some id → a = own ∨ a ∈ met
  recalls : ∃ memory, m.node.Recalls memory m.now
    ∧ ∀ a ∈ met, memory a = some ⟨m.now, {}, config.helloValidity⟩

variable {own : Address} {config : Config}

theorem meets_start (own : Address) (ownConfig config : Config) (since : Nat) :
    (start own ownConfig since).Meets own config [] where
  address_eq := rfl
  marks_known _ hid := absurd hid Std.ExtTreeMap.not_mem_empty
  known a id hid := by
    rcases Registry.lookup?_of_intern (r := .empty) hid with hnone | rfl
    · simp [Registry.empty, Registry.lookup?] at hnone
    · exact .inl rfl
  recalls := ⟨_, Node.recalls_start own ownConfig since, nofun⟩

variable {m : Moment} {met : List Address}

/-- A stranger is taken note of. -/
theorem Meets.meet (h : m.Meets own config met) {a : Address} (hown : a ≠ own) (hnew : a ∉ met) :
    (m.step (.receivePacket (firstGreeting a config) a)).Meets own config (a :: met) := by
  let packet := firstGreeting a config
  let op : Operation := .receivePacket packet a
  obtain ⟨memory, hrecalls, hmet⟩ := h.recalls
  have hother : a ≠ m.node.address := h.address_eq ▸ hown
  -- who is not known has sent nothing that is marked
  have hfresh : m.node.hasSeen m.now packet = false := by
    refine Node.hasSeen_of_marksOf? h.marks_known fun marks hmarks => ?_
    obtain ⟨id, hid, -⟩ := Option.map_eq_some_iff.1 hmarks
    rcases h.known a id hid with heq | hmem
    · exact absurd heq hown
    · exact absurd hmem hnew
  have hheard : m.node.heardFrom? m.now packet a
      = some ⟨m.now, {}, config.helloValidity⟩ :=
    Node.heardFrom?_hello rfl hother hother hfresh
  refine ⟨?_, h.marks_known.perform m.now op, ?_, _, hrecalls.perform op, ?_⟩
  · exact (Node.grows_perform m.node m.now op).address_eq.trans h.address_eq
  · intro b id hid
    rcases Node.mentioned_of_lookup? hid with hknown | rfl | rfl | ⟨code, hlisted⟩
    · exact (h.known b id hknown).imp_right (List.mem_cons_of_mem a)
    · exact .inr List.mem_cons_self
    · exact .inr List.mem_cons_self
    · exact absurd hlisted Std.ExtTreeSet.not_mem_empty
  · intro b hb
    have hgreeting : m.node.greetingOf? m.now op = some (a, ⟨m.now, {}, config.helloValidity⟩) :=
      congrArg (Option.map (a, ·)) hheard
    rw [hgreeting]
    by_cases heq : b = a
    · rw [heq]
      exact memory.noting_self a _
    · exact (memory.noting_of_ne _ heq).trans (hmet b ((List.mem_cons.1 hb).resolve_left heq))

/-- Strangers are met one after the other. -/
theorem Meets.run (h : m.Meets own config met) {strangers : List Address}
    (hnodup : strangers.Nodup) (hnew : ∀ a ∈ strangers, a ≠ own ∧ a ∉ met) :
    (m.run (strangers.map fun a => .receivePacket (firstGreeting a config) a)).Meets own config
      (strangers.reverse ++ met) := by
  induction strangers generalizing m met with
  | nil => exact h
  | cons a rest ih =>
    obtain ⟨ha, hrest⟩ := List.nodup_cons.1 hnodup
    obtain ⟨hown, hmet⟩ := hnew a List.mem_cons_self
    have hmeet := ih (h.meet hown hmet) hrest fun b hb => by
      obtain ⟨hbown, hbmet⟩ := hnew b (List.mem_cons_of_mem a hb)
      refine ⟨hbown, fun hmem => ?_⟩
      rcases List.mem_cons.1 hmem with rfl | hmem
      · exact ha hb
      · exact hbmet hmem
    rw [List.reverse_cons, List.append_assoc]
    exact hmeet

/-- Whoever was met is listed as no neighbor, since it did not say that it hears the node. -/
theorem Meets.mem_listedUnder (h : m.Meets own config met) {a : Address} (ha : a ∈ met) :
    a ∈ (m.node.greeting m.now).listedUnder (.forNeighbor .notNeighbor) := by
  obtain ⟨memory, hrecalls, hmet⟩ := h.recalls
  obtain ⟨id, slot, hid, hslot, hlive, hconveys, -⟩ := hrecalls.exists_slot (hmet a ha)
    (Nat.lt_add_of_pos_right config.helloValidity.millis_pos)
  have hstatus : slot.value.status = .notNeighbor := by
    cases hstatus : slot.value.status with
    | notNeighbor => rfl
    | symmetric | relay =>
      have hsymmetric : slot.value.isSymmetric = true := by
        unfold Neighbor.isSymmetric
        rw [hstatus]
        rfl
      obtain ⟨code, hcode, -⟩ := hconveys.symmetric.1 hsymmetric
      simp [Hello.GreatestCode, Hello.listedUnder] at hcode
  refine Node.mem_listedUnder_greeting.2
    ⟨id, slot.value, ?_, (Registry.lookup?_eq_some_iff _ _ _).1 hid, ?_⟩
  · exact ExpiringTable.get?_eq_some_iff.2 ⟨slot, hslot, hlive, rfl⟩
  · rw [hstatus]

end Moment

/-- A node that is greeted by more than 255 hosts which have just been switched on has no greeting
to send. -/
theorem givenUp_among_strangers (own : Address) (ownConfig config : Config) (since : Nat)
    {strangers : List Address} (hnodup : strangers.Nodup) (hown : own ∉ strangers)
    (hmany : 255 < strangers.length) :
    let m := (Moment.start own ownConfig since).run
      (strangers.map fun a => .receivePacket (firstGreeting a config) a)
    (m.node.makeHello m.now).1.GivenUp := by
  intro m
  have hmeets : m.Meets own config (strangers.reverse ++ []) :=
    (Moment.meets_start own ownConfig config since).run hnodup fun a ha =>
      ⟨fun heq => hown (heq ▸ ha), List.not_mem_nil⟩
  have hlegible := m.node.legible_greeting m.now
  refine Or.resolve_left (Packet.sent_or_givenUp hlegible) fun hsent => ?_
  have hshort := (Hello.sent_iff hlegible _).1 hsent (.forNeighbor .notNeighbor)
  have hsubset : strangers ⊆
      ((m.node.greeting m.now).listedUnder (.forNeighbor .notNeighbor)).toList := by
    intro a ha
    rw [Std.ExtTreeSet.mem_toList]
    exact hmeets.mem_listedUnder (by simpa using ha)
  have hle := (hnodup.subperm hsubset).length_le
  rw [Std.ExtTreeSet.length_toList] at hle
  omega

/-- Among 256 hosts that have just been switched on, a host cannot greet any more. -/
theorem silent_among_256 :
    let strangers := (List.range 256).map (⟨0x0a000100⟩ : Address).advance
    let m := (Moment.start ⟨0x0a000001⟩ {} 0).run
      (strangers.map fun a => .receivePacket (firstGreeting a {}) a)
    (¬∃ bytes, (m.node.makeHello m.now).1.encode = .ok bytes)
      ∧ (Agent.perform { node := m.node } m.now .hello).1 = [] := by
  intro strangers m
  have hgivenUp : (m.node.makeHello m.now).1.GivenUp :=
    givenUp_among_strangers _ _ _ _ (Address.nodup_advance _ (by omega)) (by decide +kernel)
      (by simp [strangers])
  clear_value m
  obtain ⟨list, length, -, -, herror, hsilent⟩ := hgivenUp
  refine ⟨?_, hsilent⟩
  rintro ⟨bytes, hbytes⟩
  rw [herror] at hbytes
  nomatch hbytes

end Meshcast
