import Meshcast.Proofs.Handling
import Meshcast.Proofs.Maintenance
import Meshcast.Proofs.MeshNetwork
import Meshcast.Proofs.OwnPackets

/-!
# Meshcast — the books of a mesh

Sequence numbers wrap, so what a host remembers of old packets could be mistaken for something new.
It is not, as hosts forget in time: in a mesh in which every host makes a greeting and an
announcement a round, whatever is alive dates from the last few rounds. To say so, a ledger counts
what has happened since the start.

* **`Ledger`** — packets made, numbers moved on, greetings heard.
* **`Orderly`** — the invariant: every mark and every link is accounted for in the ledger.
* **`Orderly.hasSeen_eq_false`** — a new packet is new to everybody.
* **`Orderly.receive`**, **`Orderly.makeHello`**, **`Orderly.makeTc`**, **`Orderly.upkeep`** — what
  happens in a round preserves the invariant.
-/

namespace Meshcast

variable {n : ℕ}

theorem millis_helloValidity : ({} : Config).helloValidity.millis = 6000 := by
  decide +kernel

theorem millis_tcValidity : ({} : Config).tcValidity.millis = 15000 := by
  decide +kernel

/-! ## The invariant -/

/-- What nobody in a mesh keeps a record of. -/
structure Ledger (n : ℕ) where
  /-- How many packets each host has made. -/
  sent : Fin n → ℕ
  /-- How often each host has moved on the number of its announcements. -/
  moves : Fin n → ℕ
  /-- What each host heard last of whom. -/
  memory : Fin n → Memory

/-- When a host makes its packet number `k`: it makes two in a round. -/
def madeAt (since k : ℕ) : ℕ :=
  since + Mesh.roundLength * (k / 2 + 1)

/-- A host of a mesh with default parameters. -/
structure Resident (addr : Fin n → Address) (now sent moves : ℕ) (memory : Memory) (x : Fin n)
    (node : Node) : Prop where
  address_eq : node.address = addr x
  config_eq : node.config = {}
  holdTime_eq : node.duplicates.holdTime = 30000
  nextSeq_eq : node.origin.nextSeq = .count sent
  ansn_eq : node.selectors.ansn = .count moves
  upToDate : node.UpToDate now
  recalls : node.Recalls memory now
  /-- Nobody is known but the hosts of the mesh. -/
  known : ∀ a id, node.registry.lookup? a = some id → ∃ j, addr j = a
  rows_eq : node.groups.rows = ∅
  heard : ∀ a g, memory a = some g → g.validity = ({} : Config).helloValidity ∧ g.time ≤ now

/-- A mark is one of a packet that was made, and it was made when the packet was. -/
def MarkAccounted (addr : Fin n → Address) (since : ℕ) (ledger : Ledger n) (node : Node)
    (id : MessageId) (slot : Slot Bool) : Prop :=
  ∃ j k, node.registry.address? id.originator = some (addr j) ∧ id.seq = .count k
    ∧ k < ledger.sent j ∧ slot.expiresAt ≤ madeAt since k + 30000

/-- A link was announced under the number `k`, the last time in round `u`. The number has not moved
on more often since than once a round. -/
structure Dated (since sent moves k u : ℕ) (slot : Slot SeqNum) : Prop where
  number_eq : slot.value = .count k
  number_le : k ≤ moves
  round_le : u ≤ sent / 2
  expiresAt_le : slot.expiresAt ≤ since + Mesh.roundLength * u + 15000
  moves_le : moves ≤ k + (sent / 2 - u)

/-- A link was announced by a host `m`; if its number is the current one and the selectors of `m`
have not changed since, then it is one of these. -/
def LinkAccounted (addr : Fin n → Address) (since : ℕ) (nodes : Fin n → Node) (ledger : Ledger n)
    (node : Node) (arc : Arc) (slot : Slot SeqNum) : Prop :=
  ∃ m t k u, node.registry.address? arc.source = some (addr m)
    ∧ node.registry.address? arc.target = some (addr t)
    ∧ Dated since (ledger.sent m) (ledger.moves m) k u slot
    ∧ (k = ledger.moves m → (nodes m).selectors.set.changed = false →
      (nodes m).HasSelector (addr t))

/-- The hosts of a mesh, in a round. -/
structure Orderly (addr : Fin n → Address) (since : ℕ) (nodes : Fin n → Node) (now round : ℕ)
    (ledger : Ledger n) : Prop where
  now_eq : now = since + Mesh.roundLength * round
  sent_le : ∀ j, ledger.sent j ≤ 2 * round
  le_sent : ∀ j, 2 * round ≤ ledger.sent j + 2
  resident : ∀ x, Resident addr now (ledger.sent x) (ledger.moves x) (ledger.memory x) x (nodes x)
  marks : ∀ x (id : MessageId) (slot : Slot Bool),
    (nodes x).duplicates.marks.slots[id]? = some slot →
      MarkAccounted addr since ledger (nodes x) id slot
  links : ∀ x (arc : Arc) (slot : Slot SeqNum),
    (nodes x).topology.table.slots[arc]? = some slot →
      LinkAccounted addr since nodes ledger (nodes x) arc slot

variable {addr : Fin n → Address} {since now round : ℕ} {nodes nodes' : Fin n → Node}
  {ledger ledger' : Ledger n}

theorem MarkAccounted.mono {node node' : Node} {id : MessageId} {slot : Slot Bool}
    (h : MarkAccounted addr since ledger node id slot)
    (hregistry : node.registry.Extends node'.registry)
    (hsent : ∀ j, ledger.sent j ≤ ledger'.sent j) :
    MarkAccounted addr since ledger' node' id slot := by
  obtain ⟨j, k, hj, hk, hmade, hexpires⟩ := h
  exact ⟨j, k, hregistry.address? hj, hk, Nat.lt_of_lt_of_le hmade (hsent j), hexpires⟩

theorem Node.HasSelector.mono {node node' : Node} {a : Address} (h : node.HasSelector a)
    (hregistry : node.registry.Extends node'.registry)
    (hselectors : node'.selectors.members = node.selectors.members) : node'.HasSelector a := by
  obtain ⟨id, hid, hmem⟩ := h
  exact ⟨id, hregistry a id hid, hselectors ▸ hmem⟩

theorem LinkAccounted.mono {node node' : Node} {arc : Arc} {slot : Slot SeqNum}
    (h : LinkAccounted addr since nodes ledger node arc slot)
    (hregistry : node.registry.Extends node'.registry)
    (hsent : ∀ j, ledger.sent j ≤ ledger'.sent j) (hmoves : ledger'.moves = ledger.moves)
    (hothers : ∀ m, (nodes m).registry.Extends (nodes' m).registry)
    (hselectors : ∀ m, (nodes m).selectors.Noted (nodes' m).selectors) :
    LinkAccounted addr since nodes' ledger' node' arc slot := by
  obtain ⟨m, t, k, u, hm, ht, hdated, hcurrent⟩ := h
  have hhalf := Nat.div_le_div_right (c := 2) (hsent m)
  refine ⟨m, t, k, u, hregistry.address? hm, hregistry.address? ht, ⟨hdated.number_eq, ?_, ?_,
    hdated.expiresAt_le, ?_⟩, ?_⟩
  · rw [hmoves]
    exact hdated.number_le
  · exact hdated.round_le.trans hhalf
  · rw [hmoves]
    have := hdated.moves_le
    omega
  · rw [hmoves]
    intro hk hquiet
    have hsame := (hselectors m).quiet hquiet
    rw [hsame] at hquiet
    exact (hcurrent hk hquiet).mono (hothers m) (by rw [hsame])

/-! ## New packets -/

/-- **A new packet is new to everybody.** Marks of the packets whose numbers are the same, as the
numbers wrap, have been dead for long. -/
theorem Orderly.hasSeen_eq_false (h : Orderly addr since nodes now round ledger)
    (hinjective : Function.Injective addr) {s : Fin n} {packet : Packet} {k : ℕ}
    (horiginator : packet.header.originator = addr s) (hseq : packet.header.seq = .count k)
    (hnew : ledger.sent s ≤ k) (hround : k ≤ 2 * round) (x : Fin n) :
    (nodes x).hasSeen now packet = false := by
  rw [← Bool.not_eq_true]
  intro hseen
  obtain ⟨mark, hmark⟩ := Option.isSome_iff_exists.1 hseen
  obtain ⟨slot, hslot, hlive, -⟩ := ExpiringTable.get?_eq_some_iff.1 hmark
  obtain ⟨j, k', hj, hk', hmade, hexpires⟩ := h.marks x _ slot hslot
  -- the mark is one of the same originator
  have hj' := ((nodes x).registry.extends_intern packet.header.originator).address? hj
  have hs : ((nodes x).registry.intern packet.header.originator).2.address?
      ((nodes x).messageId packet).originator = some packet.header.originator := by
    rw [← Registry.lookup?_eq_some_iff, Registry.lookup?_intern, if_pos rfl]
    rfl
  rw [hj', Option.some.injEq, horiginator] at hs
  obtain rfl := hinjective hs
  -- it is alive, so it is not a whole turn older
  have hcount : SeqNum.count k' = SeqNum.count k := hk'.symm.trans hseq
  rw [SeqNum.count_eq_iff] at hcount
  have hnow := h.now_eq
  simp only [Slot.isLive, decide_eq_true_eq] at hlive
  unfold madeAt Mesh.roundLength at *
  omega

/-! ## What happens to a host -/

theorem Resident.perform {sent moves : ℕ} {memory : Memory} {x : Fin n} {node : Node}
    (h : Resident addr now sent moves memory x node) (op : Operation)
    (hkeeps : node.KeepsOwn (node.perform now op))
    (hknown : ∀ a id, (node.perform now op).registry.lookup? a = some id → ∃ j, addr j = a)
    (hrows : (node.perform now op).groups.rows = ∅)
    (hheard : ∀ a g, node.greetingOf? now op = some (a, g) →
      g.validity = ({} : Config).helloValidity ∧ g.time ≤ now) :
    Resident addr now sent moves (memory.noting (node.greetingOf? now op)) x
      (node.perform now op) where
  address_eq := (Node.grows_perform node now op).address_eq.trans h.address_eq
  config_eq := hkeeps.config_eq.trans h.config_eq
  holdTime_eq := (Node.grows_perform node now op).holdTime_eq.trans h.holdTime_eq
  nextSeq_eq := (congrArg Origin.nextSeq hkeeps.origin_eq).trans h.nextSeq_eq
  ansn_eq := hkeeps.selectors.ansn_eq.trans h.ansn_eq
  upToDate := Node.upToDate_perform h.upToDate op
  recalls := h.recalls.perform op
  known := hknown
  rows_eq := hrows
  heard a g hg := by
    cases hgreeting : node.greetingOf? now op with
    | none =>
      rw [hgreeting] at hg
      exact h.heard a g hg
    | some greeting =>
      obtain ⟨sender, g'⟩ := greeting
      rw [hgreeting] at hg
      have hg : (if a = sender then some g' else memory a) = some g := hg
      split at hg
      · obtain rfl := Option.some.inj hg
        exact hheard sender g' hgreeting
      · exact h.heard a g hg

/-- A packet that is on its way was made by a host of the mesh in this round, and an announcement
says what the selectors of its originator are. -/
structure Authentic (addr : Fin n → Address) (since : ℕ) (nodes : Fin n → Node) (now round : ℕ)
    (ledger : Ledger n) (s : Fin n) (packet : Packet) : Prop where
  originator_eq : packet.header.originator = addr s
  seq_eq : ∃ k, packet.header.seq = .count k ∧ k < ledger.sent s ∧ now ≤ madeAt since k
  mentions : ∀ a, packet.Mentions a → ∃ j, addr j = a
  hello : ∀ hello, packet.body = .hello hello →
    packet.header.validity = ({} : Config).helloValidity
  tc : ∀ tc, packet.body = .tc tc → packet.header.validity = ({} : Config).tcValidity
    ∧ tc.ansn = .count (ledger.moves s) ∧ tc.groups = ∅ ∧ ledger.sent s = 2 * round
    ∧ (nodes s).selectors.set.changed = false
    ∧ ∀ a, a ∈ tc.advertised ↔ (nodes s).HasSelector a

/-- A change of one host that leaves what is accounted for accounted for. -/
theorem Orderly.update (h : Orderly addr since nodes now round ledger) {x : Fin n} {node : Node}
    {memory : Memory}
    (hresident : Resident addr now (ledger.sent x) (ledger.moves x) memory x node)
    (hgrows : (nodes x).registry.Extends node.registry)
    (hselectors : (nodes x).selectors.Noted node.selectors)
    (hmarks : ∀ (id : MessageId) (slot : Slot Bool),
      node.duplicates.marks.slots[id]? = some slot →
        (nodes x).duplicates.marks.slots[id]? = some slot
          ∨ MarkAccounted addr since ledger node id slot)
    (hlinks : ∀ (arc : Arc) (slot : Slot SeqNum), node.topology.table.slots[arc]? = some slot →
      (nodes x).topology.table.slots[arc]? = some slot
        ∨ LinkAccounted addr since (Function.update nodes x node) ledger node arc slot) :
    Orderly addr since (Function.update nodes x node) now round
      { ledger with memory := Function.update ledger.memory x memory } := by
  have hothers : ∀ m, (nodes m).registry.Extends (Function.update nodes x node m).registry := by
    intro m
    by_cases hm : m = x
    · subst hm
      rwa [Function.update_self]
    · rw [Function.update_of_ne hm]
      exact .refl _
  have hnoted : ∀ m, (nodes m).selectors.Noted (Function.update nodes x node m).selectors := by
    intro m
    by_cases hm : m = x
    · subst hm
      rwa [Function.update_self]
    · rw [Function.update_of_ne hm]
      exact .refl _
  refine ⟨h.now_eq, h.sent_le, h.le_sent, ?_, ?_, ?_⟩
  · intro y
    by_cases hy : y = x
    · subst hy
      simp only [Function.update_self]
      exact hresident
    · simp only [Function.update_of_ne hy]
      exact h.resident y
  · intro y id slot hslot
    by_cases hy : y = x
    · subst hy
      rw [Function.update_self] at hslot ⊢
      rcases hmarks id slot hslot with hold | hnew
      · exact (h.marks y id slot hold).mono hgrows fun _ => le_refl _
      · exact hnew
    · rw [Function.update_of_ne hy] at hslot ⊢
      exact h.marks y id slot hslot
  · intro y arc slot hslot
    by_cases hy : y = x
    · subst hy
      rw [Function.update_self] at hslot ⊢
      rcases hlinks arc slot hslot with hold | hnew
      · exact (h.links y arc slot hold).mono hgrows (fun _ => le_refl _) rfl hothers hnoted
      · exact hnew
    · rw [Function.update_of_ne hy] at hslot ⊢
      exact (h.links y arc slot hslot).mono (.refl _) (fun _ => le_refl _) rfl hothers hnoted

/-- Handling a packet that is on its way keeps the books in order. -/
theorem Orderly.receive (h : Orderly addr since nodes now round ledger) {s : Fin n}
    {packet : Packet}
    (hp : Authentic addr since nodes now round ledger s packet) (x w : Fin n) :
    Orderly addr since
      (Function.update nodes x ((nodes x).receivePacket now packet (addr w)).2) now round
      { ledger with memory := Function.update ledger.memory x ((ledger.memory x).noting
        (((nodes x).heardFrom? now packet (addr w)).map (addr w, ·))) } := by
  have hx := h.resident x
  have hextends := (Node.grows_receivePacket (nodes x) now packet (addr w)).base.registry
  have hkeeps := Node.keepsOwn_receivePacket (nodes x) now packet (addr w)
  refine h.update ?_ hextends hkeeps.selectors ?_ ?_
  · refine hx.perform (.receivePacket packet (addr w)) hkeeps ?_ ?_ ?_
    · intro a id hid
      rcases Node.mentioned_of_lookup? hid with hold | rfl | hmentioned
      · exact hx.known a id hold
      · exact ⟨w, rfl⟩
      · exact hp.mentions a hmentioned
    · exact Node.rows_receivePacket now (addr w) hx.rows_eq fun tc htc => (hp.tc tc htc).2.2.1
    · intro a g hg
      obtain ⟨g', hg', heq⟩ := Option.map_eq_some_iff.1 hg
      obtain ⟨rfl, rfl⟩ := Prod.mk.inj heq
      unfold Node.heardFrom? at hg'
      split at hg'
      · rename_i hello hbody
        split at hg'
        · nomatch hg'
        · cases hg'
          exact ⟨hp.hello hello hbody, le_refl _⟩
      · nomatch hg'
  · intro id slot hslot
    refine (Node.marked_of_slot hslot).imp_right ?_
    rintro ⟨rfl, horiginator, hexpires⟩
    obtain ⟨k, hk, hmade, hnow⟩ := hp.seq_eq
    refine ⟨s, k, ?_, hk, hmade, ?_⟩
    · rw [horiginator, hp.originator_eq]
    · rw [hexpires, hx.holdTime_eq]
      show now + 30000 ≤ _
      omega
  · intro arc slot hslot
    refine (Node.announced_of_slot hslot).imp_right ?_
    rintro ⟨tc, htc, hforeign, hsource, ⟨a, ha, htarget⟩, rfl⟩
    obtain ⟨hvalidity, hansn, -, hsent, hquiet, hadvertised⟩ := hp.tc tc htc
    have hs : s ≠ x := by
      rintro rfl
      exact hforeign (hp.originator_eq.trans hx.address_eq.symm)
    obtain ⟨t, rfl⟩ := hp.mentions a (.inr (by rw [htc]; exact ha))
    refine ⟨s, t, ledger.moves s, round, ?_, htarget, ?_, ?_⟩
    · rw [hsource, hp.originator_eq]
    · rw [hvalidity, millis_tcValidity]
      refine ⟨hansn, le_refl _, by omega, ?_, Nat.le_add_right _ _⟩
      show now + 15000 ≤ _
      rw [h.now_eq]
    · intro _ _
      rw [Function.update_of_ne hs]
      exact (hadvertised _).1 ha

/-! ## A host makes a packet -/

/-- One more packet of a host, and perhaps one more move of its number. -/
def Ledger.made (ledger : Ledger n) (i : Fin n) (moves : ℕ) : Ledger n :=
  { ledger with
    sent := Function.update ledger.sent i (ledger.sent i + 1)
    moves := Function.update ledger.moves i moves }

/-- A host that makes a packet changes nothing but its own numbers. -/
theorem Orderly.make (h : Orderly addr since nodes now round ledger) {i : Fin n} {node : Node}
    {moves : ℕ}
    (hresident : Resident addr now (ledger.sent i + 1) moves (ledger.memory i) i node)
    (hround : ledger.sent i < 2 * round) (hregistry : node.registry = (nodes i).registry)
    (hduplicates : node.duplicates = (nodes i).duplicates)
    (htopology : node.topology = (nodes i).topology)
    (hselectors : node.selectors.members = (nodes i).selectors.members)
    (hmoves : moves = ledger.moves i
        ∧ (node.selectors.set.changed = false → (nodes i).selectors.set.changed = false)
      ∨ moves = ledger.moves i + 1 ∧ (ledger.sent i + 1) / 2 = ledger.sent i / 2 + 1) :
    Orderly addr since (Function.update nodes i node) now round (ledger.made i moves) := by
  have hsame : ∀ x, (Function.update nodes i node x).registry = (nodes x).registry
      ∧ (Function.update nodes i node x).duplicates = (nodes x).duplicates
      ∧ (Function.update nodes i node x).topology = (nodes x).topology := by
    intro x
    by_cases hx : x = i
    · subst hx
      rw [Function.update_self]
      exact ⟨hregistry, hduplicates, htopology⟩
    · rw [Function.update_of_ne hx]
      exact ⟨rfl, rfl, rfl⟩
  have hextends : ∀ x, (nodes x).registry.Extends (Function.update nodes i node x).registry := by
    intro x
    rw [(hsame x).1]
    exact .refl _
  have hsent : ∀ j, ledger.sent j ≤ (ledger.made i moves).sent j := by
    intro j
    show ledger.sent j ≤ Function.update ledger.sent i (ledger.sent i + 1) j
    by_cases hj : j = i
    · subst hj
      rw [Function.update_self]
      exact Nat.le_succ _
    · rw [Function.update_of_ne hj]
  refine ⟨h.now_eq, ?_, fun j => (h.le_sent j).trans (Nat.add_le_add_right (hsent j) 2), ?_, ?_, ?_⟩
  · intro j
    show Function.update ledger.sent i (ledger.sent i + 1) j ≤ 2 * round
    by_cases hj : j = i
    · subst hj
      rw [Function.update_self]
      exact hround
    · rw [Function.update_of_ne hj]
      exact h.sent_le j
  · intro x
    show Resident addr now (Function.update ledger.sent i (ledger.sent i + 1) x)
      (Function.update ledger.moves i moves x) _ x _
    by_cases hx : x = i
    · subst hx
      simp only [Function.update_self]
      exact hresident
    · simp only [Function.update_of_ne hx]
      exact h.resident x
  · intro x id slot hslot
    rw [(hsame x).2.1] at hslot
    exact (h.marks x id slot hslot).mono (hextends x) hsent
  · intro x arc slot hslot
    rw [(hsame x).2.2] at hslot
    obtain ⟨m, t, k, u, hm, ht, hdated, hcurrent⟩ := h.links x arc slot hslot
    refine ⟨m, t, k, u, (hextends x).address? hm, (hextends x).address? ht, ?_⟩
    show Dated since (Function.update ledger.sent i (ledger.sent i + 1) m)
      (Function.update ledger.moves i moves m) k u slot
        ∧ (k = Function.update ledger.moves i moves m → _)
    by_cases hmi : m = i
    · subst hmi
      simp only [Function.update_self]
      have hle := hdated.number_le
      have hround := hdated.round_le
      have hmovesLe := hdated.moves_le
      rcases hmoves with ⟨rfl, hquiet⟩ | ⟨rfl, hhalf⟩
      · refine ⟨⟨hdated.number_eq, hle, by omega, hdated.expiresAt_le, by omega⟩, ?_⟩
        intro hk hchanged
        exact (hcurrent hk (hquiet hchanged)).mono (hregistry ▸ .refl _) hselectors
      · refine ⟨⟨hdated.number_eq, by omega, by omega, hdated.expiresAt_le, by omega⟩, ?_⟩
        intro hk
        omega
    · simp only [Function.update_of_ne hmi]
      exact ⟨hdated, hcurrent⟩

theorem Orderly.makeHello (h : Orderly addr since nodes now round ledger) {i : Fin n}
    (hround : ledger.sent i < 2 * round) :
    Orderly addr since (Function.update nodes i ((nodes i).makeHello now).2) now round
      (ledger.made i (ledger.moves i)) := by
  have hi := h.resident i
  refine h.make ⟨hi.address_eq, hi.config_eq, hi.holdTime_eq, ?_, hi.ansn_eq,
    Node.upToDate_perform hi.upToDate .makeHello, hi.recalls.perform .makeHello, hi.known,
    hi.rows_eq, hi.heard⟩ hround rfl rfl rfl rfl (.inl ⟨rfl, id⟩)
  show (nodes i).origin.nextSeq.next = _
  rw [hi.nextSeq_eq, SeqNum.next_count]

/-- What a host's number has moved on to when it makes an announcement. -/
def Ledger.movesOf (ledger : Ledger n) (i : Fin n) (node : Node) : ℕ :=
  if node.selectors.set.changed then ledger.moves i + 1 else ledger.moves i

theorem Orderly.makeTc (h : Orderly addr since nodes now round ledger) {i : Fin n}
    (hround : ledger.sent i + 1 = 2 * round) :
    Orderly addr since (Function.update nodes i (nodes i).makeTc.2) now round
      (ledger.made i (ledger.movesOf i (nodes i))) := by
  have hi := h.resident i
  have hansn : (nodes i).makeTc.2.selectors.ansn = .count (ledger.movesOf i (nodes i)) := by
    show (if (nodes i).selectors.set.changed then (nodes i).selectors.ansn.next
      else (nodes i).selectors.ansn) = _
    unfold Ledger.movesOf
    rw [hi.ansn_eq, SeqNum.next_count]
    split <;> rfl
  refine h.make ⟨hi.address_eq, hi.config_eq, hi.holdTime_eq, ?_, hansn,
    Node.upToDate_perform hi.upToDate .makeTc, hi.recalls.perform .makeTc, hi.known, hi.rows_eq,
    hi.heard⟩ (by omega) rfl rfl rfl rfl ?_
  · show (nodes i).origin.nextSeq.next = _
    rw [hi.nextSeq_eq, SeqNum.next_count]
  · unfold Ledger.movesOf
    cases hchanged : (nodes i).selectors.set.changed with
    | true => exact .inr ⟨rfl, by omega⟩
    | false => exact .inl ⟨rfl, fun _ => rfl⟩

/-! ## Maintenance -/

namespace Node

theorem keepsOwn_upkeep (node : Node) (now : Nat) : KeepsOwn node (node.upkeep now) := by
  have htick : KeepsOwn ((node.sweep now).2.recompute now).2 (node.upkeep now) :=
    ⟨rfl, rfl, .refl _⟩
  exact ((keepsOwn_sweep node now).trans (keepsOwn_recompute _ now)).trans htick

/-- Maintenance forgets marks and links, and nobody. -/
theorem upkeep_frame (node : Node) (now : Nat) :
    (node.upkeep now).registry = node.registry
      ∧ (∀ (id : MessageId) (slot : Slot Bool),
        (node.upkeep now).duplicates.marks.slots[id]? = some slot →
          node.duplicates.marks.slots[id]? = some slot)
      ∧ (∀ arc : Arc, (node.upkeep now).topology.table.slots[arc]? =
          node.topology.table.slots[arc]?.filter (·.isLive now))
      ∧ (node.groups.rows = ∅ → (node.upkeep now).groups.rows = ∅) := by
  obtain ⟨hregistry, hduplicates, htopology, hgroups⟩ := (node.sweep now).2.recompute_frame now
  refine ⟨hregistry, ?_, ?_, ?_⟩
  · intro id slot hslot
    have hslot : ((node.sweep now).2.recompute now).2.duplicates.marks.slots[id]? = some slot :=
      hslot
    rw [hduplicates] at hslot
    have hslot : (node.duplicates.marks.slots.filter fun _ slot => slot.isLive now)[id]?
        = some slot := hslot
    rw [Std.ExtTreeMap.getElem?_filter', Option.filter_eq_some_iff] at hslot
    exact hslot.1
  · intro arc
    show ((node.sweep now).2.recompute now).2.topology.table.slots[arc]? = _
    rw [htopology]
    exact Std.ExtTreeMap.getElem?_filter'
  · intro hrows
    show ((node.sweep now).2.recompute now).2.groups.rows = ∅
    rw [hgroups]
    show node.groups.rows.filter _ = ∅
    rw [hrows]
    rfl

end Node

theorem Resident.upkeep {sent moves : ℕ} {memory : Memory} {x : Fin n} {node : Node}
    (h : Resident addr now sent moves memory x node) :
    Resident addr now sent moves memory x (node.upkeep now) := by
  have hsweep := h.perform .sweep (Node.keepsOwn_sweep node now) h.known
    (by
      show node.groups.rows.filter _ = ∅
      rw [h.rows_eq]
      rfl)
    nofun
  obtain ⟨hregistry, -, -, hgroups⟩ := (node.sweep now).2.recompute_frame now
  have hrecompute := hsweep.perform .recompute (Node.keepsOwn_recompute _ now)
    (fun a id hid => hsweep.known a id (by
      have hid : ((node.sweep now).2.recompute now).2.registry.lookup? a = some id := hid
      rw [hregistry] at hid
      exact hid))
    (hgroups.trans hsweep.rows_eq) nofun
  exact hrecompute.perform .tickGrace ⟨rfl, rfl, .refl _⟩ hrecompute.known hrecompute.rows_eq nofun

/-- Maintenance everywhere keeps the books in order. -/
theorem Orderly.upkeep (h : Orderly addr since nodes now round ledger) :
    Orderly addr since (fun x => (nodes x).upkeep now) now round ledger where
  now_eq := h.now_eq
  sent_le := h.sent_le
  le_sent := h.le_sent
  resident x := (h.resident x).upkeep
  marks x id slot hslot := by
    obtain ⟨hregistry, hmarks, -, -⟩ := (nodes x).upkeep_frame now
    exact (h.marks x id slot (hmarks id slot hslot)).mono (hregistry ▸ .refl _) fun _ => le_refl _
  links x arc slot hslot := by
    obtain ⟨hregistry, -, hlinks, -⟩ := (nodes x).upkeep_frame now
    rw [hlinks, Option.filter_eq_some_iff] at hslot
    refine (h.links x arc slot hslot.1).mono (hregistry ▸ .refl _) (fun _ => le_refl _) rfl ?_
      fun m => ((nodes m).keepsOwn_upkeep now).selectors
    intro m
    rw [((nodes m).upkeep_frame now).1]
    exact .refl _

/-! ## Time passes -/

theorem Resident.of_le {later sent moves : ℕ} {memory : Memory} {x : Fin n} {node : Node}
    (h : Resident addr now sent moves memory x node) (hle : now ≤ later) :
    Resident addr later sent moves memory x node :=
  { h with
    upToDate := h.upToDate.of_le hle
    recalls := h.recalls.of_le hle
    heard := fun a g hg => (h.heard a g hg).imp_right fun htime => htime.trans hle }

theorem Orderly.advance (h : Orderly addr since nodes now round ledger)
    (hsent : ∀ j, ledger.sent j = 2 * round) :
    Orderly addr since nodes (now + Mesh.roundLength) (round + 1) ledger where
  now_eq := by
    rw [h.now_eq, Nat.mul_succ, Nat.add_assoc]
  sent_le j := by
    have := hsent j
    omega
  le_sent j := by
    have := hsent j
    omega
  resident x := (h.resident x).of_le (Nat.le_add_right _ _)
  marks := h.marks
  links := h.links

/-- Nothing was made and nothing was heard yet. -/
def Ledger.blank : Ledger n where
  sent _ := 0
  moves _ := 0
  memory _ _ := none

theorem orderly_start (addr : Fin n → Address) (since : ℕ) :
    Orderly addr since (fun x => Node.start (addr x) {}) since 0 .blank where
  now_eq := rfl
  sent_le _ := le_refl _
  le_sent _ := Nat.zero_le _
  resident x :=
    { address_eq := rfl
      config_eq := rfl
      holdTime_eq := rfl
      nextSeq_eq := rfl
      ansn_eq := rfl
      upToDate := Node.upToDate_start _ _ _
      recalls := Node.recalls_start _ _ _
      known := by
        intro a id hid
        have hid : (Registry.empty.intern (addr x)).2.lookup? a = some id := hid
        rcases Registry.lookup?_of_intern hid with hnone | heq
        · have hnone : (∅ : Std.ExtTreeMap Address NodeId)[a]? = some id := hnone
          rw [Std.ExtTreeMap.getElem?_empty] at hnone
          nomatch hnone
        · exact ⟨x, heq⟩
      rows_eq := rfl
      heard := nofun }
  marks _ _ _ h := by nomatch h
  links _ _ _ h := by nomatch h

end Meshcast
