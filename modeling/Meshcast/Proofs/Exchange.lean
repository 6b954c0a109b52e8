import Meshcast.Proofs.HoldTime
import Meshcast.Proofs.OwnPackets

/-!
# Meshcast — one greeting over the wire

A greeting goes from one node's table of neighbors, through link codes, groups and octets, into the
table of another node, which has identifiers of its own. What arrives is the neighborhood of the
sender.

* **`Node.entryOf?`** — the entry of a participant, looked up by its address.
* **`Node.reports_greeting`**, **`Node.confirms_greeting`**, **`Node.chooses_greeting`** — what the
  greeting of a node says.
* **`Node.travels_greeting`** — it can be written, if there are not too many neighbors of a kind.
* **`Node.MarksKnown`**, **`Node.hasSeen_of_marksOf?`** — whether a packet was seen is a question
  about addresses.
* **`neighborhood_conveyed`** — the result.
-/

namespace Meshcast

namespace Node

/-! ## What a greeting says -/

/-- The live entry of a participant among the neighbors. -/
def entryOf? (node : Node) (now : Nat) (a : Address) : Option Neighbor :=
  (node.registry.lookup? a).bind (node.neighbors.get? now)

section Greeting

variable {node : Node} {now : Nat} {a : Address}

theorem entryOf?_eq_some_iff {entry : Neighbor} :
    node.entryOf? now a = some entry ↔
      ∃ id, node.neighbors.get? now id = some entry ∧ node.registry.address? id = some a := by
  unfold entryOf?
  simp only [Option.bind_eq_some_iff, Registry.lookup?_eq_some_iff, and_comm]

theorem isSymmetricNeighbor_iff_entryOf? :
    node.isSymmetricNeighbor now a = true ↔
      ∃ entry, node.entryOf? now a = some entry ∧ entry.isSymmetric = true := by
  unfold InformationBase.isSymmetricNeighbor entryOf? Neighborhood.isSymmetric
  cases node.registry.lookup? a with
  | none => simp
  | some id => simp [Option.any_eq_true]

theorem mem_listedUnder_greeting_iff {code : LinkCode} :
    a ∈ (node.greeting now).listedUnder code ↔
      ∃ entry, node.entryOf? now a = some entry ∧ .forNeighbor entry.status = code := by
  rw [mem_listedUnder_greeting]
  constructor
  · rintro ⟨id, entry, hget, ha, hcode⟩
    exact ⟨entry, entryOf?_eq_some_iff.2 ⟨id, hget, ha⟩, hcode⟩
  · rintro ⟨entry, hentry, hcode⟩
    obtain ⟨id, hget, ha⟩ := entryOf?_eq_some_iff.1 hentry
    exact ⟨id, entry, hget, ha, hcode⟩

/-- A greeting reports the symmetric neighbors. -/
theorem reports_greeting :
    (node.greeting now).Reports a ↔ node.isSymmetricNeighbor now a = true := by
  rw [isSymmetricNeighbor_iff_entryOf?]
  have hkind : ∀ entry : Neighbor, (LinkCode.forNeighbor entry.status).neighbor ≠ .notNeighbor ↔
      entry.isSymmetric = true := by
    intro entry
    show entry.status ≠ .notNeighbor ↔ entry.status.isSymmetric = true
    cases entry.status <;> decide
  constructor
  · rintro ⟨code, hlisted, hcode⟩
    obtain ⟨entry, hentry, rfl⟩ := mem_listedUnder_greeting_iff.1 hlisted
    exact ⟨entry, hentry, (hkind entry).1 hcode⟩
  · rintro ⟨entry, hentry, hsymmetric⟩
    exact ⟨_, mem_listedUnder_greeting_iff.2 ⟨entry, hentry, rfl⟩, (hkind entry).2 hsymmetric⟩

variable {time : Nat} {validity : ValidityTime}

/-- It confirms the link to every neighbor, whatever its status. -/
theorem confirms_greeting :
    Heard.Confirms ⟨time, node.greeting now, validity⟩ a ↔ (node.entryOf? now a).isSome = true := by
  unfold Heard.Confirms
  simp only [greatestCode_greeting, Option.isSome_iff_exists]
  constructor
  · rintro ⟨code, hlisted, -⟩
    obtain ⟨entry, hentry, -⟩ := mem_listedUnder_greeting_iff.1 hlisted
    exact ⟨entry, hentry⟩
  · rintro ⟨entry, hentry⟩
    refine ⟨_, mem_listedUnder_greeting_iff.2 ⟨entry, hentry, rfl⟩, ?_⟩
    cases entry.status <;> decide

/-- It chooses those neighbors that are relays. -/
theorem chooses_greeting :
    Heard.Chooses ⟨time, node.greeting now, validity⟩ a ↔
      ∃ entry, node.entryOf? now a = some entry ∧ entry.status = .relay := by
  unfold Heard.Chooses
  simp only [greatestCode_greeting]
  constructor
  · rintro ⟨code, hlisted, hrelay⟩
    obtain ⟨entry, hentry, rfl⟩ := mem_listedUnder_greeting_iff.1 hlisted
    exact ⟨entry, hentry, hrelay⟩
  · rintro ⟨entry, hentry, hrelay⟩
    exact ⟨_, mem_listedUnder_greeting_iff.2 ⟨entry, hentry, rfl⟩, hrelay⟩

/-- Under a code there are no more addresses than neighbors of that kind. -/
theorem size_listedUnder_greeting_le (node : Node) (now : Nat) (code : LinkCode) :
    ((node.greeting now).listedUnder code).size ≤
      ((node.neighbors.entries now).filter (·.2.status = code.neighbor)).length := by
  let addresses := ((node.neighbors.entries now).filter (·.2.status = code.neighbor)).filterMap
    fun neighbor => node.registry.address? neighbor.1
  have hsubset : ((node.greeting now).listedUnder code).toList ⊆ addresses := by
    intro a ha
    obtain ⟨id, entry, hget, hid, rfl⟩ :=
      mem_listedUnder_greeting.1 (Std.ExtTreeSet.mem_toList.1 ha)
    refine List.mem_filterMap.2 ⟨(id, entry), List.mem_filter.2 ⟨?_, ?_⟩, hid⟩
    · exact Neighborhood.mem_entries.2 hget
    · exact decide_eq_true rfl
  calc ((node.greeting now).listedUnder code).size
      = ((node.greeting now).listedUnder code).toList.length := Std.ExtTreeSet.length_toList.symm
    _ ≤ addresses.length := ((nodup_toList _).subperm hsubset).length_le
    _ ≤ _ := List.length_filterMap_le _ _

/-- With at most 255 neighbors of each kind, a greeting can be written and read. -/
theorem travels_greeting
    (hfew : ∀ status, ((node.neighbors.entries now).filter (·.2.status = status)).length ≤ 255) :
    (node.makeHello now).1.body.Travels := by
  refine Hello.travels (node.legible_greeting now) fun code => ?_
  have hsize := node.size_listedUnder_greeting_le now code
  have hkind := hfew code.neighbor
  omega

end Greeting

/-! ## Marks and addresses -/

/-- Whatever is marked has a known originator. -/
def MarksKnown (node : Node) : Prop :=
  ∀ id ∈ node.duplicates.marks.slots, ∃ a, node.registry.address? id.originator = some a

theorem MarksKnown.perform {node : Node} (h : node.MarksKnown) (now : Nat) (op : Operation) :
    (node.perform now op).MarksKnown := by
  have hold : ∀ id ∈ node.duplicates.marks.slots,
      ∃ a, (node.perform now op).registry.address? id.originator = some a := by
    intro id hid
    obtain ⟨a, ha⟩ := h id hid
    exact ⟨a, (grows_perform node now op).base.registry.address? ha⟩
  intro id hid
  rcases node.duplicates_perform now op with hsame | hswept | ⟨marked, sent, hmark, hknown⟩
  · rw [hsame] at hid
    exact hold id hid
  · rw [hswept] at hid
    exact hold id (Std.ExtTreeMap.mem_of_mem_filter hid)
  · rw [hmark, Duplicates.slots_mark, Std.ExtTreeMap.mem_insert, Std.compare_eq_iff_eq] at hid
    rcases hid with rfl | hid
    · exact hknown
    · exact hold id hid

theorem marksKnown_run (address : Address) (config : Config) (since : Nat) (ops : List Operation) :
    ((Moment.start address config since).run ops).node.MarksKnown :=
  Moment.run_induction (P := fun m => m.node.MarksKnown)
    (fun _ hid => absurd hid Std.ExtTreeMap.not_mem_empty) (fun m op h => h.perform m.now op) ops

/-- A packet that is not marked under the address of its originator was not seen. -/
theorem hasSeen_of_marksOf? {node : Node} {now : Nat} {packet : Packet} (hknown : node.MarksKnown)
    (h : ∀ marks, node.marksOf? now packet.header.originator packet.header.seq = some marks →
      marks.1 = false) : node.hasSeen now packet = false := by
  by_contra hseen
  rw [Bool.not_eq_false] at hseen
  obtain ⟨mark, hmark⟩ := Option.isSome_iff_exists.1
    (show (node.duplicates.marks.get? now (node.messageId packet)).isSome = true from hseen)
  obtain ⟨slot, hslot, -, -⟩ := ExpiringTable.get?_eq_some_iff.1 hmark
  obtain ⟨a, ha⟩ := hknown _ (mem_iff_exists_getElem?.2 ⟨slot, hslot⟩)
  -- the marked identifier belongs to the originator, as it does once the originator is known
  have horiginator : (node.registry.intern packet.header.originator).2.lookup?
      packet.header.originator = some (node.messageId packet).originator := by
    rw [Registry.lookup?_intern, if_pos rfl]
    rfl
  rw [← Registry.lookup?_eq_some_iff] at ha
  obtain rfl : a = packet.header.originator :=
    Registry.lookup?_injective (node.registry.extends_intern _ _ _ ha) horiginator
  have hmarks := h _ (by unfold marksOf?; rw [ha]; rfl)
  dsimp only at hmarks
  rw [show (⟨(node.messageId packet).originator, packet.header.seq⟩ : MessageId)
    = node.messageId packet from rfl, show node.duplicates.seen now (node.messageId packet) = true
    from hseen] at hmarks
  nomatch hmarks

end Node

/-! ## From one table to another -/

/-- **One greeting conveys the neighborhood of its sender.** Let two nodes with different addresses
be in any states that they can get into, the sender with at most 255 live neighbors of each status,
and let the receiver not have marked the number that the sender gives its next packet. Then the
greeting that the sender makes can be written, and once the receiver got the octets, the sender has
a live entry there. It has reported exactly its live symmetric neighbors other than the receiver; it
is symmetric exactly if the receiver is a live neighbor of it, whatever its status; it is a selector
exactly if it takes the receiver for a relay; and the entries of all others are as they were. -/
theorem neighborhood_conveyed {a b : Address} {config config' : Config} {since since' : Nat}
    {ops ops' : List Operation} {m m' : Moment} (hm : (Moment.start a config since).run ops = m)
    (hm' : (Moment.start b config' since').run ops' = m') (hab : a ≠ b)
    (hfew : ∀ status,
      ((m.node.neighbors.entries m.now).filter (·.2.status = status)).length ≤ 255)
    (hfresh : ∀ marks, m'.node.marksOf? m'.now a m.node.origin.nextSeq = some marks →
      marks.1 = false) :
    ∃ bytes, (m.node.makeHello m.now).1.encode = .ok bytes ∧
      let node := (m'.node.receiveControl m'.now bytes a).2
      ∃ id entry, node.registry.lookup? a = some id
        ∧ node.neighbors.get? m'.now id = some entry
        ∧ (∀ t ∈ entry.twoHop, ∃ c, node.registry.address? t = some c)
        ∧ (∀ c, (∃ t ∈ entry.twoHop, node.registry.address? t = some c) ↔
          c ≠ b ∧ m.node.isSymmetricNeighbor m.now c = true)
        ∧ (entry.isSymmetric = true ↔ (m.node.entryOf? m.now b).isSome = true)
        ∧ (id ∈ node.selectors.members ↔
          ∃ known, m.node.entryOf? m.now b = some known ∧ known.status = .relay)
        ∧ ∀ other, other ≠ id →
          node.neighbors.get? m'.now other = m'.node.neighbors.get? m'.now other := by
  let packet := (m.node.makeHello m.now).1
  let g : Heard :=
    { time := m'.now, hello := m.node.greeting m.now, validity := m.node.config.helloValidity }
  have haddress : m.node.address = a := Node.address_run (congrArg Moment.node hm)
  have haddress' : m'.node.address = b := Node.address_run (congrArg Moment.node hm')
  have hself : m'.node.registry.lookup? m'.node.address = some m'.node.self := by
    rw [haddress']
    exact Node.lookup?_address_run (congrArg Moment.node hm')
  have horiginator : packet.header.originator = a := haddress
  have hseen : m'.node.hasSeen m'.now packet = false := by
    refine Node.hasSeen_of_marksOf? (hm' ▸ Node.marksKnown_run b config' since' ops') ?_
    rw [horiginator]
    exact hfresh
  have hheard : m'.node.heardFrom? m'.now packet a = some g :=
    Node.heardFrom?_hello rfl (by rwa [horiginator, haddress']) (by rwa [haddress']) hseen
  obtain ⟨bytes, hencode, hdecode⟩ := Packet.exists_bytes (Node.travels_greeting hfew)
  have hreceived : m'.node.receiveControl m'.now bytes a = m'.node.receivePacket m'.now packet a := by
    unfold Node.receiveControl
    rw [hdecode]
  refine ⟨bytes, hencode, ?_⟩
  rw [hreceived]
  obtain ⟨id, slot, htaken⟩ := Node.helloTaken_receivePacket hself hheard
  generalize (m'.node.receivePacket m'.now packet a).2 = node at htaken
  have hslots := htaken.getElem?_slots
  obtain ⟨hsource, -, hconveys, hselectors⟩ := htaken
  rw [haddress'] at hconveys hselectors
  have hlive : slot.isLive m'.now = true := by
    rw [hconveys.isLive_iff]
    exact Nat.lt_add_of_pos_right g.validity.millis_pos
  have hget : node.neighbors.get? m'.now id = some slot.value :=
    ExpiringTable.get?_eq_some_iff.2
      ⟨slot, (hslots id).trans (if_pos rfl), hlive, rfl⟩
  have hsymmetric : slot.value.isSymmetric = true ↔ (m.node.entryOf? m.now b).isSome = true :=
    hconveys.symmetric.trans Node.confirms_greeting
  refine ⟨id, slot.value, hsource, hget, ?_, ?_, hsymmetric, ?_, ?_⟩
  · intro t ht
    obtain ⟨c, hc, -⟩ := (hconveys.twoHop t).1 ht
    exact ⟨c, (Registry.lookup?_eq_some_iff _ _ _).1 hc⟩
  · intro c
    constructor
    · rintro ⟨t, ht, htc⟩
      obtain ⟨c', hc', hreports, hnotOwn, -⟩ := (hconveys.twoHop t).1 ht
      rw [(Registry.lookup?_eq_some_iff _ _ _).1 hc', Option.some.injEq] at htc
      subst htc
      exact ⟨hnotOwn, Node.reports_greeting.1 hreports⟩
    · rintro ⟨hnotOwn, hneighbor⟩
      have hreports : g.hello.Reports c := Node.reports_greeting.2 hneighbor
      -- nobody is a neighbor of itself
      have hnotSource : c ≠ a := by
        rintro rfl
        rw [Node.isSymmetricNeighbor_address_run (congrArg Moment.node hm)] at hneighbor
        nomatch hneighbor
      obtain ⟨t, ht⟩ := hconveys.reported c hreports
      exact ⟨t, (hconveys.twoHop t).2 ⟨c, ht, hreports, hnotOwn, hnotSource⟩,
        (Registry.lookup?_eq_some_iff _ _ _).1 ht⟩
  · rw [hselectors, if_pos rfl, Neighborhood.mem_symmetric, Node.chooses_greeting]
    constructor
    · exact fun h => h.1
    · rintro ⟨known, hknown, hrelay⟩
      refine ⟨⟨known, hknown, hrelay⟩, slot.value, hget, hsymmetric.2 ?_⟩
      rw [hknown]
      rfl
  · intro other hother
    show (node.neighbors.table.slots[other]?.filter _).map _ = _
    rw [hslots, if_neg (Ne.symm hother)]
    rfl

/-- The first host is a symmetric neighbor of the second and the third one. The second one, just
switched on, hears from the first and knows of the third. -/
theorem neighborhood_conveyed_hosts :
    let greeting (sender : Address) : Packet :=
      { header := { validity := ⟨0xe8⟩, originator := sender, ttl := 1, hopCount := 0, seq := ⟨0⟩ }
        body := .hello (.list {} ⟨.symmetric, .symmetric⟩ [⟨0x0a000001⟩]) }
    let m := (Moment.start ⟨0x0a000001⟩ {} 0).run
      [.receivePacket (greeting ⟨0x0a000002⟩) ⟨0x0a000002⟩,
        .receivePacket (greeting ⟨0x0a000003⟩) ⟨0x0a000003⟩]
    let m' := Moment.start ⟨0x0a000002⟩ {} 0
    ∃ bytes, (m.node.makeHello m.now).1.encode = .ok bytes ∧
      let node := (m'.node.receiveControl m'.now bytes ⟨0x0a000001⟩).2
      ∃ entry, node.entryOf? m'.now ⟨0x0a000001⟩ = some entry ∧ entry.isSymmetric = true
        ∧ ∃ t ∈ entry.twoHop, node.registry.address? t = some ⟨0x0a000003⟩ := by
  intro greeting m m'
  have hm' : (Moment.start ⟨0x0a000002⟩ {} 0).run [] = m' := rfl
  have hfew : ∀ status,
      ((m.node.neighbors.entries m.now).filter (·.2.status = status)).length ≤ 255 := by
    intro status
    cases status <;> decide +kernel
  have hunknown : m'.node.marksOf? m'.now ⟨0x0a000001⟩ m.node.origin.nextSeq = none := by
    decide +kernel
  have hfresh : ∀ marks, m'.node.marksOf? m'.now ⟨0x0a000001⟩ m.node.origin.nextSeq = some marks →
      marks.1 = false := by
    simp [hunknown]
  have hm : (Moment.start ⟨0x0a000001⟩ {} 0).run _ = m := rfl
  obtain ⟨bytes, hencode, id, entry, hid, hget, -, htwoHop, hsymmetric, -⟩ :=
    neighborhood_conveyed hm hm' (by decide) hfew hfresh
  refine ⟨bytes, hencode, entry, ?_, hsymmetric.2 (by decide +kernel),
    (htwoHop _).2 ⟨by decide, by decide +kernel⟩⟩
  exact Node.entryOf?_eq_some_iff.2 ⟨id, hget, (Registry.lookup?_eq_some_iff _ _ _).1 hid⟩

end Meshcast
