import Meshcast.Proofs.Rounds
import Meshcast.Proofs.ShortestPaths

/-!
# Meshcast — knowing one's surroundings

A few rounds after the links became what they are, hosts know those next to them and those that are
next to these. What they know comes from greetings alone, so this module starts from what was heard,
and it ends with the choice of relays.

* **`Node.confirms_said`**, **`Node.reports_said`**, **`Node.chooses_said`** — what a greeting says.
* **`Node.Meets`** — the live neighbors are those next to a host, and all are symmetric.
* **`Node.Surveys`** — a host knows its surroundings and chose relays accordingly;
  **`Resident.surveys`** — after maintenance it does, if it heard the right things.
* **`Surveys.covered`**, **`Surveys.mirrors`**, **`Surveys.hasRelay_eq`** — what follows for the
  relays.
-/

namespace Meshcast

variable {n : ℕ} {addr : Fin n → Address} {G : SimpleGraph (Fin n)} {now : ℕ} {x y : Fin n}
  {node : Node} {memory : Memory}

/-! ## What a greeting says -/

namespace Node

/-- Whoever has a live entry is confirmed. -/
theorem confirms_said {a : Address} {id : NodeId} {entry : Neighbor}
    (hid : node.registry.lookup? a = some id) (hget : node.neighbors.get? now id = some entry) :
    (node.said now).Confirms a := by
  refine ⟨.forNeighbor entry.status, greatestCode_greeting.2 (mem_listedUnder_greeting.2
    ⟨id, entry, hget, (Registry.lookup?_eq_some_iff _ _ _).1 hid, rfl⟩), ?_, ?_⟩
  · cases entry.status <;> decide
  · cases entry.status <;> rfl

/-- The symmetric neighbors are reported. -/
theorem reports_said {a : Address} :
    (node.said now).hello.Reports a ↔
      ∃ id entry, node.registry.lookup? a = some id ∧ node.neighbors.get? now id = some entry
        ∧ entry.isSymmetric = true := by
  have hkind : ∀ status : NeighborType,
      (LinkCode.forNeighbor status).neighbor ≠ .notNeighbor ↔ status.isSymmetric = true := by
    intro status
    cases status <;> decide
  constructor
  · rintro ⟨code, hlisted, hcode⟩
    obtain ⟨id, entry, hget, ha, rfl⟩ := mem_listedUnder_greeting.1 hlisted
    exact ⟨id, entry, (Registry.lookup?_eq_some_iff _ _ _).2 ha, hget, (hkind _).1 hcode⟩
  · rintro ⟨id, entry, ha, hget, hsymmetric⟩
    exact ⟨_, mem_listedUnder_greeting.2 ⟨id, entry, hget,
      (Registry.lookup?_eq_some_iff _ _ _).1 ha, rfl⟩, (hkind _).2 hsymmetric⟩

/-- The relays are told that they are. -/
theorem chooses_said {a : Address} {id : NodeId} {entry : Neighbor}
    (hid : node.registry.lookup? a = some id) (hget : node.neighbors.get? now id = some entry) :
    (node.said now).Chooses a ↔ entry.status = .relay := by
  have ha := (Registry.lookup?_eq_some_iff _ _ _).1 hid
  constructor
  · rintro ⟨code, hgreatest, hrelay⟩
    obtain ⟨id', entry', hget', ha', rfl⟩ :=
      mem_listedUnder_greeting.1 (greatestCode_greeting.1 hgreatest)
    obtain rfl := Registry.address?_injective ha ha'
    rw [hget, Option.some.injEq] at hget'
    rw [hget']
    exact hrelay
  · intro hrelay
    exact ⟨_, greatestCode_greeting.2 (mem_listedUnder_greeting.2 ⟨id, entry, hget, ha, rfl⟩),
      hrelay⟩

end Node

/-! ## The neighbors -/

/-- Something was heard, at some time or later, and it is as `tells` has it. -/
def HeardSince (time : ℕ) (tells : Heard → Prop) (heard : Option Heard) : Prop :=
  ∃ g, heard = some g ∧ time ≤ g.time ∧ tells g

/-- A greeting of `y` confirms the link to `x` and reports those next to `y`. -/
structure Heard.Tells (addr : Fin n → Address) (G : SimpleGraph (Fin n)) (y x : Fin n) (g : Heard) :
    Prop where
  confirms : g.Confirms (addr x)
  reports : ∀ a, g.hello.Reports a ↔ ∃ z, G.Adj y z ∧ addr z = a

theorem Resident.deadline_eq {sent moves : ℕ}
    (h : Resident addr now sent moves memory x node) {a : Address} {g : Heard}
    (hg : memory a = some g) : g.deadline = g.time + 6000 := by
  unfold Heard.deadline
  rw [(h.heard a g hg).1, millis_helloValidity]

theorem HeardSince.mono {time time' : ℕ} {tells tells' : Heard → Prop} {heard : Option Heard}
    (h : HeardSince time tells heard) (htime : time' ≤ time) (htells : ∀ g, tells g → tells' g) :
    HeardSince time' tells' heard := by
  obtain ⟨g, hg, hlate, htold⟩ := h
  exact ⟨g, hg, htime.trans hlate, htells g htold⟩

/-- What a node heard of those next to it, of late; others it did not hear for long. -/
structure Attentive (addr : Fin n → Address) (G : SimpleGraph (Fin n)) (now : ℕ)
    (tells : Fin n → Fin n → Heard → Prop) (x : Fin n) (memory : Memory) : Prop where
  silent : ∀ y g, ¬G.Adj x y → memory (addr y) = some g → g.time + 6000 ≤ now
  near : ∀ y, G.Adj x y → ∃ g, memory (addr y) = some g ∧ now < g.time + 6000 ∧ tells y x g

theorem Attentive.mono {tells tells' : Fin n → Fin n → Heard → Prop}
    (h : Attentive addr G now tells x memory) (hle : ∀ y g, tells y x g → tells' y x g) :
    Attentive addr G now tells' x memory where
  silent := h.silent
  near y hadj := by
    obtain ⟨g, hg, hlate, htells⟩ := h.near y hadj
    exact ⟨g, hg, hlate, hle y g htells⟩

/-- Long enough after the links became what they are, whoever is not next to a node is silent. -/
theorem Hearing.attentive {frozen time : ℕ} {tells : Fin n → Fin n → Heard → Prop}
    {memory : Fin n → Memory}
    (h : Hearing addr G frozen (fun y x => HeardSince time (tells y x)) memory)
    (hfrozen : frozen + 6000 ≤ now) (hlate : now < time + 6000) (x : Fin n) :
    Attentive addr G now tells x (memory x) where
  silent y g hadj hg := (Nat.add_le_add_right (h.stale x y g hadj hg) 6000).trans hfrozen
  near y hadj := by
    obtain ⟨g, hg, hsince, htells⟩ := h.said x y hadj
    exact ⟨g, hg, by omega, htells⟩

/-- The live neighbors are those next to the node, and all are symmetric. -/
structure Node.Meets (addr : Fin n → Address) (G : SimpleGraph (Fin n)) (now : ℕ) (x : Fin n)
    (node : Node) : Prop where
  entry : ∀ id entry, node.neighbors.get? now id = some entry →
    entry.isSymmetric = true ∧ ∃ y, G.Adj x y ∧ node.registry.lookup? (addr y) = some id
  met : ∀ y, G.Adj x y → ∃ id entry, node.registry.lookup? (addr y) = some id
    ∧ node.neighbors.get? now id = some entry

theorem Node.Meets.mem_symmetric (h : node.Meets addr G now x) {id : NodeId} :
    id ∈ node.neighbors.symmetric now ↔
      ∃ y, G.Adj x y ∧ node.registry.lookup? (addr y) = some id := by
  rw [Neighborhood.mem_symmetric]
  constructor
  · rintro ⟨entry, hget, -⟩
    exact (h.entry id entry hget).2
  · rintro ⟨y, hadj, hid⟩
    obtain ⟨id', entry, hid', hget⟩ := h.met y hadj
    rw [hid, Option.some.injEq] at hid'
    subst hid'
    exact ⟨entry, hget, (h.entry id entry hget).1⟩

section Attentive

variable {sent moves : ℕ} (h : Resident addr now sent moves memory x node)

include h

/-- Whoever was heard of late has a live entry. -/
theorem Resident.exists_entry {a : Address} {g : Heard} (hg : memory a = some g)
    (hlate : now < g.time + 6000) :
    ∃ id entry, node.registry.lookup? a = some id ∧ node.neighbors.get? now id = some entry := by
  obtain ⟨id, slot, hid, hslot, hlive, -⟩ := h.recalls.exists_slot hg (by rwa [h.deadline_eq hg])
  exact ⟨id, slot.value, hid, ExpiringTable.get?_eq_some_iff.2 ⟨slot, hslot, hlive, rfl⟩⟩

/-- A node that heard from those next to it, and had the links confirmed, has met them. -/
theorem Resident.meets
    (hheard : Attentive addr G now (fun _ x g => g.Confirms (addr x)) x memory) :
    node.Meets addr G now x where
  entry id entry hget := by
    obtain ⟨a, g, slot, ha, hg, hvalid, rfl, hconveys⟩ := h.recalls.exists_heard hget
    obtain ⟨y, rfl⟩ := h.known a id ha
    have hadj : G.Adj x y := by
      by_contra hnot
      have := hheard.silent y g hnot hg
      rw [h.deadline_eq hg] at hvalid
      omega
    obtain ⟨g', hg', -, hconfirms⟩ := hheard.near y hadj
    rw [hg, Option.some.injEq] at hg'
    subst hg'
    rw [← h.address_eq] at hconfirms
    exact ⟨hconveys.symmetric.2 hconfirms, y, hadj, ha⟩
  met y hadj := by
    obtain ⟨g, hg, hlate, -⟩ := hheard.near y hadj
    exact h.exists_entry hg hlate

/-- The entry of somebody next to the node names the others that are next to it. -/
theorem Resident.exists_entry_of_tells (hinjective : Function.Injective addr)
    (hheard : Attentive addr G now (Heard.Tells addr G) x memory) {y : Fin n} (hadj : G.Adj x y) :
    ∃ id entry, node.registry.lookup? (addr y) = some id
      ∧ node.neighbors.get? now id = some entry
      ∧ (∀ z, G.Adj y z → ∃ t, node.registry.lookup? (addr z) = some t)
      ∧ ∀ t, t ∈ entry.twoHop ↔
        ∃ z, G.Adj y z ∧ z ≠ x ∧ node.registry.lookup? (addr z) = some t := by
  obtain ⟨g, hg, hlate, htells⟩ := hheard.near y hadj
  obtain ⟨id, slot, hid, hslot, hlive, hconveys, -⟩ :=
    h.recalls.exists_slot hg (by rwa [h.deadline_eq hg])
  refine ⟨id, slot.value, hid, ExpiringTable.get?_eq_some_iff.2 ⟨slot, hslot, hlive, rfl⟩,
    fun z hz => hconveys.reported _ ((htells.reports _).2 ⟨z, hz, rfl⟩), fun t => ?_⟩
  rw [hconveys.twoHop, h.address_eq]
  constructor
  · rintro ⟨a, ha, hreports, hown, -⟩
    obtain ⟨z, hz, rfl⟩ := (htells.reports a).1 hreports
    exact ⟨z, hz, fun heq => hown (heq ▸ rfl), ha⟩
  · rintro ⟨z, hz, hzx, ht⟩
    exact ⟨addr z, ht, (htells.reports _).2 ⟨z, hz, rfl⟩, hinjective.ne hzx, hinjective.ne hz.ne'⟩

end Attentive

/-- A node that has met those next to it says so to all of them. -/
theorem Node.Meets.tells (h : node.Meets addr G now y) (hadj : G.Adj x y) :
    (node.said now).Tells addr G y x where
  confirms := by
    obtain ⟨id, entry, hid, hget⟩ := h.met x hadj.symm
    exact Node.confirms_said hid hget
  reports a := by
    rw [Node.reports_said]
    constructor
    · rintro ⟨id, entry, ha, hget, -⟩
      obtain ⟨-, z, hz, hid⟩ := h.entry id entry hget
      exact ⟨z, hz, Registry.lookup?_injective hid ha⟩
    · rintro ⟨z, hz, rfl⟩
      obtain ⟨id, entry, hid, hget⟩ := h.met z hz
      exact ⟨id, entry, hid, hget, (h.entry id entry hget).1⟩

/-! ## Surveys -/

namespace Node

/-- After maintenance nothing dead is left, and everything derived is what the tables say. -/
theorem current_upkeep (h : node.UpToDate now) :
    (node.upkeep now).ArcsCurrent now ∧ (node.upkeep now).RelaysCurrent now
      ∧ (node.upkeep now).RoutesCurrent now := by
  have hnode : (node.upkeep now).UpToDate now :=
    upToDate_tickGrace (upToDate_recompute (h.of_tablesNoted (tablesNoted_sweep node now)))
  have hs : (node.upkeep now).neighbors.table.Settled now :=
    settled_recompute.1 (Neighborhood.settled_sweep node.neighbors now)
  have ht : (node.upkeep now).topology.table.Settled now :=
    settled_recompute.2 (Topology.settled_sweep node.topology now)
  have hflags : (node.upkeep now).flags = ⟨false, false, false, false⟩ := flags_recompute _ _
  exact ⟨hnode.arcs hs, hnode.relays hs (congrArg ChangeFlags.relays hflags),
    hnode.routes hs ht (congrArg ChangeFlags.neighbors hflags)
      (congrArg ChangeFlags.topology hflags)⟩

/-- A node knows who is next to it and who is next to these, and chose relays accordingly. -/
structure Surveys (addr : Fin n → Address) (G : SimpleGraph (Fin n)) (now : ℕ) (x : Fin n)
    (node : Node) : Prop where
  self : node.registry.lookup? (addr x) = some node.self
  near : ∀ y, G.Adj x y → ∃ id, node.registry.lookup? (addr y) = some id
  far : ∀ y z, G.Adj x y → G.Adj y z → ∃ id, node.registry.lookup? (addr z) = some id
  mem_symmetric : ∀ id, id ∈ node.neighbors.symmetric now ↔
    ∃ y, G.Adj x y ∧ node.registry.lookup? (addr y) = some id
  mem_arcs : ∀ arc, arc ∈ node.neighbors.twoHopArcs ↔ ∃ y z, G.Adj x y ∧ G.Adj y z ∧ z ≠ x
    ∧ node.registry.lookup? (addr y) = some arc.source
    ∧ node.registry.lookup? (addr z) = some arc.target
  relays_eq : node.relays.members =
    selectRelays node.self (node.neighbors.symmetric now) node.neighbors.twoHopArcs
  marks : ∀ id entry, node.neighbors.get? now id = some entry →
    (entry.status = .relay ↔ id ∈ node.relays.members)

end Node

/-- A node that was told who is next to those next to it knows its surroundings, once everything is
computed afresh. -/
theorem Resident.surveys {sent moves : ℕ} (h : Resident addr now sent moves memory x node)
    (hinjective : Function.Injective addr)
    (hheard : Attentive addr G now (Heard.Tells addr G) x memory) :
    (node.upkeep now).Surveys addr G now x := by
  have h' := h.upkeep
  obtain ⟨harcs, ⟨hrelays, hmarks⟩, -⟩ := Node.current_upkeep h.upToDate
  generalize node.upkeep now = node at h' harcs hrelays hmarks ⊢
  have hmeets := h'.meets (hheard.mono fun _ _ htells => htells.confirms)
  have hself : node.registry.lookup? (addr x) = some node.self := by
    rw [← h'.address_eq]
    exact h'.recalls.self_known
  refine ⟨hself, ?_, ?_, fun _ => hmeets.mem_symmetric, ?_, hrelays, ?_⟩
  · intro y hadj
    obtain ⟨id, -, hid, -⟩ := hmeets.met y hadj
    exact ⟨id, hid⟩
  · intro y z hadj hz
    obtain ⟨-, -, -, -, hreported, -⟩ := h'.exists_entry_of_tells hinjective hheard hadj
    exact hreported z hz
  · intro arc
    rw [harcs, Neighborhood.mem_arcsOfAll]
    constructor
    · rintro ⟨entry, hget, -, hmem, -, -⟩
      rw [ExpiringTable.getElem?_live] at hget
      obtain ⟨-, y, hadj, hid⟩ := hmeets.entry arc.source entry hget
      obtain ⟨id', entry', hid', hget', -, htwoHop⟩ :=
        h'.exists_entry_of_tells hinjective hheard hadj
      rw [hid, Option.some.injEq] at hid'
      subst hid'
      rw [show node.neighbors.get? now arc.source = some entry from hget,
        Option.some.injEq] at hget'
      subst hget'
      obtain ⟨z, hz, hzx, ht⟩ := (htwoHop _).1 hmem
      exact ⟨y, z, hadj, hz, hzx, hid, ht⟩
    · rintro ⟨y, z, hadj, hz, hzx, hid, ht⟩
      obtain ⟨id', entry, hid', hget, -, htwoHop⟩ :=
        h'.exists_entry_of_tells hinjective hheard hadj
      rw [hid, Option.some.injEq] at hid'
      subst hid'
      refine ⟨entry, ?_, (hmeets.entry _ entry hget).1, (htwoHop _).2 ⟨z, hz, hzx, ht⟩, ?_, ?_⟩
      · rw [ExpiringTable.getElem?_live]
        exact hget
      · intro heq
        rw [heq] at ht
        exact hzx (hinjective (Registry.lookup?_injective ht hself))
      · intro heq
        rw [heq] at ht
        exact hz.ne' (hinjective (Registry.lookup?_injective ht hid))
  · intro id entry hget
    exact hmarks id entry hget (hmeets.entry id entry hget).1

/-! ## The relays -/

/-- The identifiers under which a node knows the hosts. Whoever it does not know has one that is not
handed out. -/
def Node.naming (node : Node) (addr : Fin n → Address) (y : Fin n) : NodeId :=
  (node.registry.lookup? (addr y)).getD ⟨node.registry.size + y.val⟩

theorem Node.naming_of_lookup? {id : NodeId} (h : node.registry.lookup? (addr y) = some id) :
    node.naming addr y = id := by
  unfold naming
  rw [h, Option.getD_some]

theorem Registry.index_lt_of_lookup? {r : Registry} {a : Address} {id : NodeId}
    (h : r.lookup? a = some id) : id.index < r.size := by
  rw [lookup?_eq_some_iff] at h
  unfold address? at h
  obtain ⟨p, hp, -⟩ := Option.map_eq_some_iff.1 h
  exact (Array.getElem?_eq_some_iff.1 hp).1

theorem Node.naming_injective (node : Node) (hinjective : Function.Injective addr) :
    Function.Injective (node.naming addr) := by
  intro y z heq
  unfold naming at heq
  cases hy : node.registry.lookup? (addr y) with
  | some id =>
    cases hz : node.registry.lookup? (addr z) with
    | some id' =>
      rw [hy, hz, Option.getD_some, Option.getD_some] at heq
      subst heq
      exact hinjective (Registry.lookup?_injective hy hz)
    | none =>
      have := Registry.index_lt_of_lookup? hy
      rw [hy, hz, Option.getD_some, Option.getD_none] at heq
      subst heq
      simp at this
  | none =>
    cases hz : node.registry.lookup? (addr z) with
    | some id =>
      have := Registry.index_lt_of_lookup? hz
      rw [hy, hz, Option.getD_some, Option.getD_none] at heq
      subst heq
      simp at this
    | none =>
      rw [hy, hz, Option.getD_none, Option.getD_none, NodeId.mk.injEq] at heq
      exact Fin.ext (by omega)

theorem Registry.Extends.lookup?_eq {r r' : Registry} (h : r.Extends r') {a : Address} {id : NodeId}
    (hid : r.lookup? a = some id) : r'.lookup? a = r.lookup? a := by
  rw [h a id hid, hid]

namespace Node.Surveys

/-- Whoever becomes known later is not in the surroundings. -/
theorem lookup?_near (h : node.Surveys addr G now x) {r : Registry}
    (hregistry : node.registry.Extends r) (hadj : G.Adj x y) :
    r.lookup? (addr y) = node.registry.lookup? (addr y) := by
  obtain ⟨id, hid⟩ := h.near y hadj
  exact hregistry.lookup?_eq hid

theorem lookup?_far (h : node.Surveys addr G now x) {r : Registry}
    (hregistry : node.registry.Extends r) {z : Fin n} (hxy : G.Adj x y) (hyz : G.Adj y z) :
    r.lookup? (addr z) = node.registry.lookup? (addr z) := by
  obtain ⟨id, hid⟩ := h.far y z hxy hyz
  exact hregistry.lookup?_eq hid

theorem mirrors (h : node.Surveys addr G now x) :
    Mirrors G (node.naming addr) x (node.neighbors.symmetric now) node.neighbors.twoHopArcs where
  mem_symmetric id := by
    rw [h.mem_symmetric]
    constructor
    · rintro ⟨y, hadj, hid⟩
      exact ⟨y, hadj, naming_of_lookup? hid⟩
    · rintro ⟨y, hadj, rfl⟩
      obtain ⟨id, hid⟩ := h.near y hadj
      exact ⟨y, hadj, by rw [naming_of_lookup? hid, hid]⟩
  mem_arcs arc := by
    rw [h.mem_arcs]
    constructor
    · rintro ⟨y, z, hadj, hz, hzx, hsource, htarget⟩
      refine ⟨y, z, hadj, hz, hzx, hz.ne', ?_⟩
      rw [naming_of_lookup? hsource, naming_of_lookup? htarget]
    · rintro ⟨y, z, hadj, hz, hzx, -, rfl⟩
      obtain ⟨id, hid⟩ := h.near y hadj
      obtain ⟨t, ht⟩ := h.far y z hadj hz
      refine ⟨y, z, hadj, hz, hzx, ?_, ?_⟩
      · rw [naming_of_lookup? hid, hid]
      · rw [naming_of_lookup? ht, ht]

theorem naming_self (h : node.Surveys addr G now x) : node.naming addr x = node.self :=
  naming_of_lookup? h.self

theorem hasRelay_iff (h : node.Surveys addr G now x) (hinjective : Function.Injective addr) :
    node.HasRelay (addr y) ↔ node.naming addr y ∈ selectRelays (node.naming addr x)
      (node.neighbors.symmetric now) node.neighbors.twoHopArcs := by
  rw [h.naming_self, ← h.relays_eq]
  constructor
  · rintro ⟨id, hid, hmem⟩
    rwa [naming_of_lookup? hid]
  · intro hmem
    have hchosen := hmem
    rw [h.relays_eq, ← h.naming_self] at hchosen
    obtain ⟨u, hadj, hu⟩ := adj_of_mem_selectRelays h.mirrors hchosen
    obtain rfl := node.naming_injective hinjective hu
    obtain ⟨id, hid⟩ := h.near u hadj
    rw [naming_of_lookup? hid] at hmem
    exact ⟨id, hid, hmem⟩

/-- Relays are next to the node. -/
theorem adj_of_hasRelay (h : node.Surveys addr G now x) (hinjective : Function.Injective addr)
    (hrelay : node.HasRelay (addr y)) : G.Adj x y := by
  obtain ⟨u, hadj, hu⟩ := adj_of_mem_selectRelays h.mirrors ((h.hasRelay_iff hinjective).1 hrelay)
  exact node.naming_injective hinjective hu ▸ hadj

/-- Whoever is two hops away is next to a relay. -/
theorem covered (h : node.Surveys addr G now x) (hinjective : Function.Injective addr) {z : Fin n}
    (hxy : G.Adj x y) (hyz : G.Adj y z) (hzx : z ≠ x) (hxz : ¬G.Adj x z) :
    ∃ m, node.HasRelay (addr m) ∧ G.Adj m z := by
  obtain ⟨m, hrelay, -, hmz⟩ :=
    h.mirrors.exists_relay (node.naming_injective hinjective) hxy hyz hzx hxz
  exact ⟨m, (h.hasRelay_iff hinjective).2 hrelay, hmz⟩

/-- As long as the surroundings stay the same, so do the relays. -/
theorem hasRelay_eq {later : ℕ} {node' : Node} (h : node.Surveys addr G now x)
    (h' : node'.Surveys addr G later x) (hregistry : node.registry.Extends node'.registry)
    (hinjective : Function.Injective addr) :
    node'.HasRelay (addr y) ↔ node.HasRelay (addr y) := by
  have hself : node'.self = node.self := by
    have hknown := h'.self
    rw [hregistry _ _ h.self, Option.some.injEq] at hknown
    exact hknown.symm
  have hsymmetric : node'.neighbors.symmetric later = node.neighbors.symmetric now := by
    apply Std.ExtTreeSet.ext_mem
    intro id
    rw [h'.mem_symmetric, h.mem_symmetric]
    refine exists_congr fun z => and_congr_right fun hadj => ?_
    rw [h.lookup?_near hregistry hadj]
  have harcs : node'.neighbors.twoHopArcs = node.neighbors.twoHopArcs := by
    apply Std.ExtTreeSet.ext_mem
    intro arc
    rw [h'.mem_arcs, h.mem_arcs]
    refine exists_congr fun z => exists_congr fun w => and_congr_right fun hz =>
      and_congr_right fun hw => and_congr_right fun _ => ?_
    rw [h.lookup?_near hregistry hz, h.lookup?_far hregistry hz hw]
  have hrelays : node'.relays.members = node.relays.members := by
    rw [h'.relays_eq, h.relays_eq, hself, hsymmetric, harcs]
  constructor
  · rintro ⟨id, hid, hmem⟩
    have hadj := h'.adj_of_hasRelay hinjective ⟨id, hid, hmem⟩
    rw [h.lookup?_near hregistry hadj] at hid
    exact ⟨id, hid, hrelays ▸ hmem⟩
  · rintro ⟨id, hid, hmem⟩
    exact ⟨id, hregistry _ id hid, hrelays ▸ hmem⟩

end Node.Surveys

end Meshcast
