import Meshcast.Proofs.Learning

/-!
# Meshcast — a mesh converges

Whatever happened to a mesh, ten rounds after the links became what they are everybody knows all
that there is to know. Six of these rounds are for old entries to die. Then it takes a round each to
be heard, to be confirmed, to report whom one confirmed, and to tell the relays that they are;
floods reach everybody in the last of them.

* **`Surveyed`**, **`Rested.surveyed`** — three rounds after the last change everybody knows its
  surroundings.
* **`Orderly.marks_greeted`**, **`Surveyed.greet`** — greetings pass on the choice of relays.
* **`Informed`**, **`Surveyed.informed`** — a round later all selectors are right, and the
  announcements of selectors have reached everybody.
* **`Attuned.shortestRoutes`** — then the routes are shortest paths.
* **`Mesh.converged_rounds`** — every history ends with that.
-/

namespace Meshcast

variable {n : ℕ} {addr : Fin n → Address} {since round frozen : ℕ} {mesh : Mesh}
  {net : Network n} {ledger : Ledger n}

/-! ## Three rounds -/

/-- Everybody knows its surroundings and was told so by all next to it in the round that is over. No
one else was heard since the links became what they are. -/
structure Surveyed (addr : Fin n → Address) (since frozen : ℕ) (mesh : Mesh) (net : Network n)
    (round : ℕ) (ledger : Ledger n) : Prop where
  rested : Rested addr since mesh net round ledger
  frozen_le : frozen + 6000 ≤ net.now
  hearing : Hearing addr net.graph frozen
    (fun y x => HeardSince net.now (Heard.Tells addr net.graph y x)) ledger.memory
  surveys : ∀ x, (net.nodes x).Surveys addr net.graph net.now x

/-- A greeting that was heard, one that confirmed the link, and one that reported who is next to the
sender: these take three rounds. -/
theorem Rested.surveyed (hinjective : Function.Injective addr) (hn : n < 256)
    (h : Rested addr since mesh net round ledger) :
    ∃ (net' : Network n) (ledger' : Ledger n),
      Surveyed addr since net.now (mesh.rounds 3).2 net' (round + 3) ledger'
        ∧ net'.graph = net.graph := by
  have hhearing : Hearing addr net.graph net.now (fun _ _ _ => True) ledger.memory :=
    ⟨fun x y g _ hg => ((h.orderly.resident x).heard _ g hg).2, fun _ _ _ => trivial⟩
  -- everybody is heard
  obtain ⟨net₁, -, ledger₁, hgraph₁, hnow₁, -, -, h₁, hhearing₁⟩ := h.next hinjective hn hhearing
    (fun _ _ => HeardSince net.later.now fun _ => True) (fun _ _ _ _ => trivial)
    fun nodes _ _ _ y x _ => ⟨_, rfl, le_refl _, trivial⟩
  -- everybody is confirmed
  have hlate₁ : net₁.later.now < net.later.now + 6000 := by
    rw [← hnow₁]
    exact Nat.add_lt_add_left (by decide) _
  obtain ⟨net₂, -, ledger₂, hgraph₂, hnow₂, -, -, h₂, hhearing₂⟩ := h₁.next hinjective hn hhearing₁
    (fun _ x => HeardSince net₁.later.now fun g => g.Confirms (addr x))
    (fun _ _ _ hsaid => hsaid.mono (hnow₁ ▸ Nat.le_add_right _ _) fun _ _ => trivial)
    fun nodes ledger ho hheard y x hadj => by
      obtain ⟨g, hg, hsince, -⟩ := hheard.said y x hadj.symm
      obtain ⟨id, entry, hid, hget⟩ := (ho.resident y).exists_entry hg
        (hlate₁.trans_le (Nat.add_le_add_right hsince _))
      exact ⟨_, rfl, le_refl _, Node.confirms_said hid hget⟩
  -- everybody reports the others
  have hlate₂ : net₂.later.now < net₁.later.now + 6000 := by
    rw [← hnow₂]
    exact Nat.add_lt_add_left (by decide) _
  have hfrozen : net.now + 6000 ≤ net₂.later.now := by
    have hlater : ∀ net : Network n, net.later.now = net.now + 2000 := fun _ => rfl
    rw [hlater, hnow₂, hlater, hnow₁, hlater]
  obtain ⟨net₃, nodes, ledger₃, hgraph₃, hnow₃, hnodes, ho, h₃, hhearing₃⟩ :=
    h₂.next hinjective hn hhearing₂
      (fun y x => HeardSince net₂.later.now (Heard.Tells addr net₂.graph y x))
      (fun _ _ _ hsaid => hsaid.mono (hnow₂ ▸ Nat.le_add_right _ _) fun _ htells =>
        htells.confirms)
      fun nodes ledger ho hheard y x hadj =>
        ⟨_, rfl, le_refl _, ((ho.resident y).meets (hheard.attentive hfrozen hlate₂ y)).tells hadj⟩
  rw [← hnow₃, ← hgraph₃] at hhearing₃
  rw [← hnow₃] at hfrozen
  refine ⟨net₃, ledger₃, ⟨?_, hfrozen, hhearing₃, ?_⟩, hgraph₃.trans (hgraph₂.trans hgraph₁)⟩
  · rw [Mesh.rounds_succ, Mesh.rounds_succ, Mesh.rounds_one]
    exact h₃
  · intro x
    rw [hnodes]
    exact (ho.resident x).surveys hinjective
      (hhearing₃.attentive hfrozen (Nat.lt_add_of_pos_right (by decide)) x)

/-! ## Relays are told that they are -/

theorem Network.extends_greeted (net : Network n) (i x : Fin n) :
    (net.nodes x).registry.Extends (net.greeted i x).registry := by
  unfold Network.greeted
  split
  · subst x
    exact .refl _
  · split
    · exact (Node.grows_receivePacket _ _ _ _).base.registry
    · exact .refl _

/-- The greeting of somebody who has met those next to it leaves their marks as they are. -/
theorem Orderly.marks_greeted (net : Network n) {chosen : Fin n → Fin n → Prop}
    (ho : Orderly addr since net.nodes net.now round ledger) (hinjective : Function.Injective addr)
    (hmeets : ∀ x, (net.nodes x).Meets addr net.graph net.now x)
    (hmarks : ∀ x, (net.nodes x).Marks addr net.graph chosen x) (i x : Fin n) :
    (net.greeted i x).Marks addr net.graph chosen x := by
  unfold Network.greeted
  split
  · subst x
    exact hmarks i
  · rename_i hx
    split
    · rename_i hadj
      have haddress := fun x => (ho.resident x).address_eq
      have hfresh : (net.nodes x).hasSeen net.now ((net.nodes i).makeHello net.now).1 = false :=
        ho.hasSeen_eq_false hinjective (haddress i) (ho.resident i).nextSeq_eq (le_refl _)
          (ho.sent_le i) x
      have hheard : (net.nodes x).heardFrom? net.now ((net.nodes i).makeHello net.now).1 (addr i)
          = some ((net.nodes i).said net.now) := by
        refine Node.heardFrom?_hello rfl ?_ ?_ hfresh
        · show (net.nodes i).address ≠ _
          rw [haddress, haddress]
          exact hinjective.ne hadj.ne
        · rw [haddress]
          exact hinjective.ne hadj.ne
      rw [show net.address i = addr i from haddress i]
      refine (hmarks x).heard hinjective (haddress x) (ho.resident x).recalls.self_known
        hadj.symm ?_ hheard ?_
      · intro id slot hid hslot
        obtain ⟨id', entry, hid', hget⟩ := (hmeets x).met i hadj.symm
        rw [hid, Option.some.injEq] at hid'
        subst hid'
        obtain ⟨slot', hslot', hlive, -⟩ := ExpiringTable.get?_eq_some_iff.1 hget
        rw [hslot, Option.some.injEq] at hslot'
        exact hslot' ▸ hlive
      · obtain ⟨id, entry, hid, hget⟩ := (hmeets i).met x hadj
        exact Node.confirms_said hid hget
    · exact hmarks x

/-- Who of those next to it a node told that it chose them, and who is next to it. -/
def TellsChoice (addr : Fin n → Address) (net : Network n) (y x : Fin n) (g : Heard) : Prop :=
  g.Tells addr net.graph y x ∧ (g.Chooses (addr x) ↔ (net.nodes y).HasRelay (addr x))

/-- After the greetings of the next round, everybody knows who chose it. -/
theorem Surveyed.greet (hinjective : Function.Injective addr) (hn : n < 256)
    (h : Surveyed addr since frozen mesh net round ledger) :
    ∃ nodes ledger', (mesh.advance Mesh.roundLength).hellos.2.Shows (net.later.withNodes nodes)
      ∧ Orderly addr since nodes net.later.now (round + 1) ledger'
      ∧ (∀ j, ledger'.sent j + 1 = 2 * (round + 1))
      ∧ Hearing addr net.graph frozen
        (fun y x => HeardSince net.later.now (TellsChoice addr net y x)) ledger'.memory
      ∧ ∀ x, (net.nodes x).registry.Extends (nodes x).registry := by
  let chosen : Fin n → Fin n → Prop := fun y x => (net.nodes y).HasRelay (addr x)
  have hsent : ∀ j, ledger.sent j + 2 = 2 * (round + 1) := by
    intro j
    rw [h.rested.sent_eq]
    omega
  have hmeets : ∀ {nodes : Fin n → Node} {ledger : Ledger n},
      Orderly addr since nodes net.later.now (round + 1) ledger →
      Hearing addr net.graph frozen
        (fun y x => HeardSince net.now (Heard.Tells addr net.graph y x)) ledger.memory →
      ∀ x, (nodes x).Meets addr net.graph net.later.now x := by
    intro nodes ledger ho hhearing x
    refine (ho.resident x).meets
      ((hhearing.attentive ?_ ?_ x).mono fun _ _ htells => htells.confirms)
    · exact h.frozen_le.trans (Nat.le_add_right _ _)
    · exact Nat.add_lt_add_left (by decide) _
  have hphase := Orderly.hellos_hearing hinjective hn h.rested.shows.advance
    (h.rested.orderly.advance h.rested.sent_eq) hsent h.hearing
    (fun y x => HeardSince net.later.now (TellsChoice addr net y x))
    (K := fun x node => (net.nodes x).registry.Extends node.registry
      ∧ node.Marks addr net.graph chosen x)
    (fun _ _ _ hsaid => hsaid.mono (Nat.le_add_right _ _) fun _ htells => htells.1)
    (fun x => ⟨.refl _, (h.surveys x).marked fun _ => Iff.rfl⟩) ?_ ?_
  · obtain ⟨nodes, ledger', hshows, ho, hsent', hhearing, hkept⟩ := hphase
    exact ⟨nodes, ledger', hshows, ho, hsent', hhearing, fun x => (hkept x).1⟩
  · intro nodes ledger ho hhearing hkept y x hadj
    refine ⟨_, rfl, le_refl _, (hmeets ho hhearing y).tells hadj, ?_⟩
    -- what is told is the mark
    obtain ⟨id, entry, hid, hget⟩ := (hmeets ho hhearing y).met x hadj.symm
    obtain ⟨id', slot, hid', hslot, -, hmark⟩ := (hkept y).2 x hadj.symm
    rw [hid, Option.some.injEq] at hid'
    subst hid'
    obtain ⟨slot', hslot', -, rfl⟩ := ExpiringTable.get?_eq_some_iff.1 hget
    rw [hslot, Option.some.injEq] at hslot'
    subst hslot'
    rw [Node.chooses_said hid hget]
    exact hmark
  · intro i nodes ledger ho hhearing hkept x
    refine ⟨(hkept x).1.trans (Network.extends_greeted (net.later.withNodes nodes) i x), ?_⟩
    exact Orderly.marks_greeted (net.later.withNodes nodes) ho hinjective
      (hmeets ho hhearing) (fun x => (hkept x).2) i x

/-! ## Everybody is informed -/

/-- Everybody is attuned to the others and knows all selectors of all that it can reach. -/
structure Informed (addr : Fin n → Address) (chosen : Fin n → Fin n → Prop) (net : Network n) :
    Prop where
  attuned : ∀ x, (net.nodes x).Attuned addr net.graph chosen net.now x
  learned : ∀ m x, x ≠ m → net.graph.Reachable m x →
    (net.nodes x).Learned addr chosen net.now m
  current : ∀ x, (net.nodes x).RoutesCurrent net.now

/-- Maintenance after such greetings leaves the choice of relays as it was. -/
theorem Surveyed.attuned (hinjective : Function.Injective addr)
    (h : Surveyed addr since frozen mesh net round ledger) {nodes : Fin n → Node}
    {round' : ℕ} {ledger' : Ledger n} (ho : Orderly addr since nodes net.later.now round' ledger')
    (hhearing : Hearing addr net.graph frozen
      (fun y x => HeardSince net.later.now (TellsChoice addr net y x)) ledger'.memory)
    (hextends : ∀ x, (net.nodes x).registry.Extends (nodes x).registry) (x : Fin n) :
    ((nodes x).upkeep net.later.now).Attuned addr net.graph
      (fun y x => (net.nodes y).HasRelay (addr x)) net.later.now x := by
  have hattentive := hhearing.attentive (h.frozen_le.trans (Nat.le_add_right _ _))
    (Nat.lt_add_of_pos_right (by decide)) x
  have hsurveys := (ho.resident x).surveys hinjective (hattentive.mono fun _ _ htells => htells.1)
  refine ⟨hsurveys, ?_, ?_, fun _ => Node.mem_symmetric_of_selector⟩
  · intro y
    refine (h.surveys x).hasRelay_eq hsurveys ?_ hinjective
    rw [((nodes x).upkeep_frame net.later.now).1]
    exact hextends x
  · intro y
    have htold : Attentive addr net.graph net.later.now (fun y x g => g.Confirms (addr x)
        ∧ (g.Chooses (addr x) ↔ (net.nodes y).HasRelay (addr x))) x (ledger'.memory x) :=
      hattentive.mono fun _ _ htells => ⟨htells.1.confirms, htells.2⟩
    exact (ho.resident x).hasSelector_upkeep hinjective htold
      fun hrelay => ((h.surveys y).adj_of_hasRelay hinjective hrelay).symm

/-- Maintenance does not forget what is alive. -/
theorem Node.Learned.upkeep {chosen : Fin n → Fin n → Prop} {now : ℕ} {m : Fin n} {node : Node}
    (h : node.Learned addr chosen now m) : (node.upkeep now).Learned addr chosen now m := by
  obtain ⟨hregistry, -, hslots, -⟩ := node.upkeep_frame now
  refine h.keep (hregistry ▸ .refl _) fun arc _ => ?_
  unfold Topology.get? ExpiringTable.get?
  rw [hslots]
  cases node.topology.table.slots[arc]? with
  | none => rfl
  | some slot => cases hlive : slot.isLive now <;> simp

/-- **In the next round everybody is informed.** -/
theorem Surveyed.informed (hinjective : Function.Injective addr) (hn : n ≤ 254)
    (h : Surveyed addr since frozen mesh net round ledger) :
    ∃ net' : Network n, mesh.round.2.Shows net' ∧ net'.graph = net.graph
      ∧ (∀ x, (net'.nodes x).address = addr x)
      ∧ Informed addr (fun y x => (net.nodes y).HasRelay (addr x)) net' := by
  let chosen : Fin n → Fin n → Prop := fun y x => (net.nodes y).HasRelay (addr x)
  obtain ⟨nodes₁, ledger₁, hshows₁, ho₁, hsent₁, hhearing₁, hextends₁⟩ :=
    h.greet hinjective (Nat.lt_of_le_of_lt hn (by decide))
  have hattuned₂ := h.attuned hinjective ho₁ hhearing₁ hextends₁
  obtain ⟨hshows₂, ho₂⟩ := Orderly.maintain hshows₁ ho₁
  let nodes₂ : Fin n → Node := fun x => (nodes₁ x).upkeep net.later.now
  obtain ⟨nodes₃, ledger₃, hshows₃, ho₃, -, hmemory, habides, hlearned⟩ :=
    Orderly.tcs (Nat.lt_of_le_of_lt hn (by decide)) hshows₂ ho₂ hsent₁
      (T := fun k nodes _ => (∀ x, (nodes₂ x).Abides (nodes x))
        ∧ ∀ m x, m.val < k → x ≠ m → net.graph.Reachable m x →
          (nodes x).Learned addr chosen net.later.now m)
      ⟨fun _ => .refl _, fun _ _ hlt => absurd hlt (Nat.not_lt_zero _)⟩ <| by
    rintro i nodes nodes' ledger ho hround ⟨habides, hlearned⟩ hemits
    obtain ⟨hlater, hnew, hold⟩ :=
      learned_of_emits (net.later.withNodes nodes) ho hinjective hn hround
        (fun x => (hattuned₂ x).abides hinjective (habides x)) hemits
    refine ⟨fun x => (habides x).trans (hlater x), ?_⟩
    intro m x hm hx hreachable
    by_cases hmi : m = i
    · subst hmi
      exact hnew x hx hreachable
    · have hval : m.val ≠ i.val := fun heq => hmi (Fin.ext heq)
      exact hold x m hmi (hlearned m x (by omega) hx hreachable)
  obtain ⟨hshows₄, ho₄⟩ := Orderly.maintain hshows₃ ho₃
  rw [← Mesh.snd_round] at hshows₄
  refine ⟨_, hshows₄, rfl, fun x => (ho₄.resident x).address_eq, ?_, ?_, ?_⟩
  · refine h.attuned hinjective ho₃ (hmemory ▸ hhearing₁) fun x => (hextends₁ x).trans ?_
    have hregistry := (habides x).registry
    rwa [((nodes₁ x).upkeep_frame net.later.now).1] at hregistry
  · intro m x hx hreachable
    exact (hlearned m x m.isLt hx hreachable).upkeep
  · intro x
    exact (Node.current_upkeep (ho₃.resident x).upToDate).2.2

/-! ## Routes -/

section Routes

variable {chosen : Fin n → Fin n → Prop} {x : Fin n} (h : Informed addr chosen net)
  (hinjective : Function.Injective addr)

include h hinjective

/-- The links that somebody knows to whom it can reach are enough. -/
theorem Informed.suffices (x : Fin n) :
    Suffices net.graph ((net.nodes x).naming addr) x ((net.nodes x).topology.arcs net.now) where
  sound u id hux hu harc := by
    have hlearned := h.learned u x hux.symm hu.symm
    obtain ⟨known, hknown⟩ := hlearned.known
    rw [Node.naming_of_lookup? hknown] at harc
    obtain ⟨v, hv, hid⟩ := (hlearned.links ⟨known, id⟩ hknown).1 (Topology.mem_arcs.1 harc)
    have hadj := (h.attuned v).surveys.adj_of_hasRelay hinjective
      (((h.attuned v).hasRelay_iff u).2 hv)
    exact ⟨v, hadj.symm, Node.naming_of_lookup? hid⟩
  closer v hv hfar := by
    have hsurveys := (h.attuned v).surveys
    obtain ⟨u, hrelay, hadj, hdist⟩ := exists_relay_toward
      ((net.nodes v).naming_injective hinjective) hsurveys.mirrors hv hfar
    refine ⟨u, hadj, hdist, ?_⟩
    have hchosen := ((h.attuned v).hasRelay_iff u).1 ((hsurveys.hasRelay_iff hinjective).2 hrelay)
    have hux : u ≠ x := by
      rintro rfl
      rw [SimpleGraph.dist_self] at hdist
      omega
    have hlearned := h.learned u x hux.symm (hv.trans hadj.symm.reachable).symm
    obtain ⟨source, hsource⟩ := hlearned.known
    obtain ⟨target, htarget⟩ := hlearned.targets v hchosen
    rw [Node.naming_of_lookup? hsource, Node.naming_of_lookup? htarget, Topology.mem_arcs]
    exact (hlearned.links ⟨source, target⟩ hsource).2 ⟨v, hchosen, htarget⟩

/-- The routes of whoever is informed are shortest paths. -/
theorem Informed.shortestRoutes (x : Fin n) :
    ShortestRoutes net.graph ((net.nodes x).naming addr) x (net.nodes x).routes := by
  have hsurveys := (h.attuned x).surveys
  rw [(h.current x).1, ← hsurveys.naming_self]
  exact (h.suffices hinjective x).shortestRoutes ((net.nodes x).naming_injective hinjective)
    hsurveys.mirrors

end Routes

/-! ## What everybody answers -/

namespace Node

theorem routeTo?_of_route {node : Node} {a b : Address} {id : NodeId} {route : Route}
    (hid : node.registry.lookup? a = some id) (hroute : node.routes[id]? = some route)
    (hvia : node.registry.lookup? b = some route.nextHop) :
    node.routeTo? a = some (b, route.hops) := by
  rw [Registry.lookup?_eq_some_iff] at hvia
  unfold routeTo?
  rw [hid, Option.bind_eq_bind, Option.bind_some, hroute, Option.bind_eq_bind, Option.bind_some,
    hvia]
  rfl

theorem routeTo?_eq_none {node : Node} {a : Address}
    (h : ∀ id, node.registry.lookup? a = some id → id ∉ node.routes) : node.routeTo? a = none := by
  unfold routeTo?
  cases hid : node.registry.lookup? a with
  | none => rfl
  | some id =>
    have hnone : node.routes[id]? = none := Std.ExtTreeMap.getElem?_eq_none (h id hid)
    rw [Option.bind_eq_bind, Option.bind_some, hnone]
    rfl

end Node

/-- The members of a set of identifiers are the hosts of which `p` holds. -/
def Registry.Names (r : Registry) (addr : Fin n → Address) (ids : NodeSet) (p : Fin n → Prop) :
    Prop :=
  (∀ id ∈ ids, ∃ y, p y ∧ r.address? id = some (addr y))
    ∧ ∀ y, p y → ∃ id ∈ ids, r.address? id = some (addr y)

/-- With the links of `G`, all hosts know what there is to know: who is next to them, who chose them
as relays, and the way to whoever they are connected to. -/
structure Mesh.Converged (mesh : Mesh) (addr : Fin n → Address) (G : SimpleGraph (Fin n)) :
    Prop where
  host : ∀ x : Fin n, ∃ host, mesh.hosts[x.val]? = some host ∧ host.node.address = addr x
  symmetric : ∀ (x : Fin n) (host : Host), mesh.hosts[x.val]? = some host →
    host.node.registry.Names addr (host.node.neighbors.symmetric mesh.now) (G.Adj x)
  selectors : ∀ (u m : Fin n) (sender relay : Host), mesh.hosts[u.val]? = some sender →
    mesh.hosts[m.val]? = some relay →
    (relay.node.HasSelector (addr u) ↔ sender.node.HasRelay (addr m))
  route : ∀ (x v : Fin n) (host : Host), mesh.hosts[x.val]? = some host → v ≠ x →
    G.Reachable x v → ∃ (y : Fin n) (first : G.Adj x y) (rest : G.Walk y v),
      (rest.cons first).length = G.dist x v
        ∧ host.node.routeTo? (addr v) = some (addr y, G.dist x v)
  unreachable : ∀ (x v : Fin n) (host : Host), mesh.hosts[x.val]? = some host →
    ¬G.Reachable x v → host.node.routeTo? (addr v) = none

theorem Mesh.Shows.node_eq (h : mesh.Shows net) {x : Fin n} {host : Host}
    (hhost : mesh.hosts[x.val]? = some host) : host.node = net.nodes x := by
  obtain ⟨host', hhost', hnode⟩ := h.host x
  rw [hhost, Option.some.injEq] at hhost'
  exact hhost' ▸ hnode

/-- A mesh in which everybody is informed has converged. -/
theorem Informed.converged {chosen : Fin n → Fin n → Prop} (h : Informed addr chosen net)
    (hinjective : Function.Injective addr) (hn : n ≤ 254) (hshows : mesh.Shows net)
    (haddress : ∀ x, (net.nodes x).address = addr x) : mesh.Converged addr net.graph where
  host x := by
    obtain ⟨host, hhost, hnode⟩ := hshows.host x
    exact ⟨host, hhost, hnode ▸ haddress x⟩
  symmetric x host hhost := by
    rw [hshows.node_eq hhost, hshows.now_eq]
    have hsurveys := (h.attuned x).surveys
    constructor
    · intro id hid
      obtain ⟨y, hadj, hy⟩ := (hsurveys.mem_symmetric id).1 hid
      exact ⟨y, hadj, (Registry.lookup?_eq_some_iff _ _ _).1 hy⟩
    · intro y hadj
      obtain ⟨id, hid⟩ := hsurveys.near y hadj
      exact ⟨id, (hsurveys.mem_symmetric id).2 ⟨y, hadj, hid⟩,
        (Registry.lookup?_eq_some_iff _ _ _).1 hid⟩
  selectors u m sender relay hsender hrelay := by
    rw [hshows.node_eq hsender, hshows.node_eq hrelay, (h.attuned m).hasSelector_iff,
      (h.attuned u).hasRelay_iff]
  route x v host hhost hvx hreachable := by
    rw [hshows.node_eq hhost]
    have hshort : net.graph.dist x v ≤ Routing.maxHops := by
      obtain ⟨path, hpath, hlength⟩ := hreachable.exists_path_of_dist
      have hlt := hpath.length_lt
      rw [Fintype.card_fin] at hlt
      have hmax : Routing.maxHops = 255 := rfl
      omega
    obtain ⟨y, first, rest, -, hlength, hroute⟩ :=
      (h.shortestRoutes hinjective x).route v hvx hreachable hshort
    obtain ⟨id, hid⟩ := (h.learned v x hvx.symm hreachable.symm).known
    obtain ⟨via, hvia⟩ := (h.attuned x).surveys.near y first
    rw [Node.naming_of_lookup? hid, Node.naming_of_lookup? hvia] at hroute
    exact ⟨y, first, rest, hlength, Node.routeTo?_of_route hid hroute hvia⟩
  unreachable x v host hhost hunreachable := by
    rw [hshows.node_eq hhost]
    refine Node.routeTo?_eq_none fun id hid hmem => ?_
    obtain ⟨u, -, hu, hreachable, -⟩ := (h.shortestRoutes hinjective x).only id hmem
    rw [← Node.naming_of_lookup? hid] at hu
    obtain rfl := (net.nodes x).naming_injective hinjective hu
    exact hunreachable hreachable

/-- **Whatever happened to a mesh, ten rounds later everybody knows what there is to know.** -/
theorem Mesh.converged_rounds {addresses : List Address} (hdistinct : addresses.Nodup)
    (hlength : addresses.length ≤ 254) (since : ℕ) (steps : List MeshStep) :
    let mesh := (Mesh.unlinked addresses since).run steps
    (mesh.rounds 10).2.Converged addresses.get (mesh.linkGraph addresses.length) := by
  intro mesh
  have hinjective : Function.Injective addresses.get := List.nodup_iff_injective_get.1 hdistinct
  have hn : addresses.length < 256 := Nat.lt_of_le_of_lt hlength (by decide)
  obtain ⟨net, round, ledger, h⟩ := rested_run hdistinct hn since steps
  obtain ⟨net₆, ledger₆, h₆, hgraph₆⟩ := h.rounds hinjective hn 6
  obtain ⟨net₉, ledger₉, h₉, hgraph₉⟩ := h₆.surveyed hinjective hn
  obtain ⟨net₁₀, hshows, hgraph₁₀, haddress, hinformed⟩ := h₉.informed hinjective hlength
  have hrounds : (mesh.rounds 10).2 = ((mesh.rounds 6).2.rounds 3).2.round.2 := by
    rw [Mesh.rounds_add mesh 6 4, Mesh.rounds_add _ 3 1, Mesh.rounds_one]
  rw [hrounds, ← h.shows.graph_eq, ← hgraph₆, ← hgraph₉, ← hgraph₁₀]
  exact hinformed.converged hinjective hlength hshows haddress

/-- Four hosts that end up in a line, after one of them was cut off for a while. -/
def lineHistory : List MeshStep :=
  [.link 0 1, .link 1 2, .round, .unlink 0 1, .round, .link 2 3, .link 0 1]

theorem Mesh.converged_line :
    let addresses := (List.finRange 4).map Network.lineAddress
    let mesh := (Mesh.unlinked addresses 0).run lineHistory
    (∀ i j, (mesh.linkGraph 4).Adj i j ↔ Network.lineGraph.Adj i j)
      ∧ (mesh.rounds 10).2.Converged addresses.get (mesh.linkGraph addresses.length) :=
  ⟨by decide +kernel, Mesh.converged_rounds (by decide +kernel) (by decide +kernel) 0 lineHistory⟩

end Meshcast
