import Meshcast.Proofs.Announcements
import Meshcast.Proofs.LinkSensing
import Meshcast.Proofs.Maintenance

/-!
# Meshcast — what a sweep leaves

A sweep goes through five tables in turn, and what goes from the later ones depends on what the
earlier ones are left with: selectors are measured against the neighbors, and rows of memberships
against all that is known of their nodes, the published arcs among it. The arcs were published some
time ago, yet they are those of the live neighbors once the dead ones are gone, so the order does no
harm.

* **`Node.Swept`** — nothing stale is left.
* **`Node.swept_sweep`**, **`Node.sweep_of_swept`** — a sweep leads there, and there it does
  nothing.
* **`Node.mem_knownNodes_sweep`** — whose memberships a sweep keeps.
* **`sweep_exact`** — the result, for every run.
-/

namespace Meshcast

/-! ## A single table -/

section Tables

variable {κ ν : Type} [Ord κ] [Std.TransOrd κ]

/-- The slots that a sweep leaves are the live ones. -/
theorem Transaction.getElem?_sweep [Std.LawfulEqOrd κ] (tx : Transaction κ ν) {key : κ}
    {slot : Slot ν} : tx.sweep.2.table.slots[key]? = some slot ↔
      tx.table.slots[key]? = some slot ∧ slot.isLive tx.now = true := by
  show (tx.table.slots.filter fun _ slot => slot.isLive tx.now)[key]? = some slot ↔ _
  rw [Std.ExtTreeMap.getElem?_filter', Option.filter_eq_some_iff]

/-- No lookup notices a sweep. -/
theorem Transaction.get?_sweep [Std.LawfulEqOrd κ] (tx : Transaction κ ν) (key : κ) :
    tx.sweep.2.table.get? tx.now key = tx.table.get? tx.now key := by
  ext value
  simp only [ExpiringTable.get?_eq_some_iff, tx.getElem?_sweep]
  constructor
  · rintro ⟨slot, ⟨hslot, hlive⟩, -, hvalue⟩
    exact ⟨slot, hslot, hlive, hvalue⟩
  · rintro ⟨slot, hslot, hlive, hvalue⟩
    exact ⟨slot, ⟨hslot, hlive⟩, hlive, hvalue⟩

theorem Transaction.sweep_of_settled {tx : Transaction κ ν} (h : tx.table.Settled tx.now) :
    tx.sweep = (0, tx) := by
  have hslots : (tx.table.slots.filter fun _ slot => slot.isLive tx.now) = tx.table.slots := by
    rw [Std.ExtTreeMap.filter_eq_self_iff]
    intro key hkey
    exact h key _ (Std.ExtTreeMap.getElem?_eq_some_getElem hkey)
  unfold sweep restrict
  simp only [hslots, Nat.sub_self, Nat.lt_irrefl, decide_false, Bool.or_false]

end Tables

namespace Node

/-! ## A swept node -/

/-- No dead entry is left in any table, all selectors are symmetric neighbors, and of everybody
with a row of memberships something else is known. -/
structure Swept (node : Node) (now : Nat) : Prop where
  duplicates : node.duplicates.marks.Settled now
  neighbors : node.neighbors.table.Settled now
  topology : node.topology.table.Settled now
  selector : ∀ id ∈ node.selectors.members, id ∈ node.neighbors.symmetric now
  row : ∀ id ∈ node.groups.rows, id ∈ node.knownNodes now

theorem swept_sweep (node : Node) (now : Nat) : (node.sweep now).2.Swept now where
  duplicates := Transaction.settled_sweep (node.duplicates.marks.transaction now)
  neighbors := Neighborhood.settled_sweep node.neighbors now
  topology := Topology.settled_sweep node.topology now
  selector id h := by
    rw [selectors_sweep, mem_prune] at h
    exact h.2
  row id h := by
    -- what is known of a node has nothing to do with the rows
    obtain ⟨_, hrow⟩ := mem_iff_exists_getElem?.1 h
    have hkept : (node.groups.rows.filter fun id _ =>
        ((node.sweep now).2.knownNodes now).contains id)[id]? = some _ := hrow
    rw [Std.ExtTreeMap.getElem?_filter', Option.filter_eq_some_iff] at hkept
    exact Std.ExtTreeSet.contains_iff_mem.1 hkept.2

/-- **Where nothing stale is left, a sweep does nothing.** -/
theorem sweep_of_swept {node : Node} {now : Nat} (h : node.Swept now) :
    node.sweep now = (0, node) := by
  have hduplicates : node.duplicates.sweep now = (0, node.duplicates) := by
    unfold Duplicates.sweep
    rw [Transaction.sweep_of_settled h.duplicates]
    rfl
  have hneighbors : node.neighbors.sweep now = (0, node.neighbors) := by
    unfold Neighborhood.sweep
    rw [Transaction.sweep_of_settled h.neighbors]
    rfl
  have htopology : node.topology.sweep now = (0, node.topology) := by
    unfold Topology.sweep
    rw [Transaction.sweep_of_settled h.topology]
    show (0, { node.topology with changed := node.topology.changed || false }) = _
    rw [Bool.or_false]
  have hselectors : node.selectors.update (prune · (node.neighbors.symmetric now))
      = (false, node.selectors) := by
    have hpruned : node.selectors.members
        = prune node.selectors.members (node.neighbors.symmetric now) := by
      refine Std.ExtTreeSet.ext_mem fun id => ?_
      rw [mem_prune]
      exact ⟨fun hid => ⟨hid, h.selector id hid⟩, And.left⟩
    have hset : node.selectors.set.update (prune · (node.neighbors.symmetric now))
        = (false, node.selectors.set) := if_pos hpruned
    unfold Selectors.update
    rw [hset]
  have hgroups : node.groups.retain (node.knownNodes now) = (0, node.groups) := by
    have hrows : (node.groups.rows.filter fun id _ => (node.knownNodes now).contains id)
        = node.groups.rows := by
      rw [Std.ExtTreeMap.filter_eq_self_iff]
      intro id hid
      rw [Std.ExtTreeMap.getKey_eq]
      exact Std.ExtTreeSet.contains_iff_mem.2 (h.row id hid)
    unfold Groups.retain
    simp only [hrows, Nat.sub_self, Nat.lt_irrefl, decide_false, Bool.or_false]
  unfold Node.sweep InformationBase.sweep
  simp only [hduplicates, hneighbors, htopology, hselectors, hgroups]

/-! ## What else is known of somebody -/

/-- Somebody is the node itself or a live neighbor, or a live symmetric neighbor reports it, or it
is an end of a live link. -/
def Knows (node : Node) (now : Nat) (id : NodeId) : Prop :=
  id = node.self
    ∨ (∃ entry, node.neighbors.get? now id = some entry)
    ∨ (∃ n entry, node.neighbors.get? now n = some entry ∧ entry.isSymmetric = true
        ∧ id ∈ entry.twoHop)
    ∨ ∃ arc ansn, node.topology.get? now arc = some ansn ∧ (id = arc.source ∨ id = arc.target)

theorem mem_members {n : Neighborhood} {now : Nat} {id : NodeId} :
    id ∈ n.members now ↔ ∃ entry, n.get? now id = some entry := by
  unfold Neighborhood.members ExpiringTable.keys
  rw [mem_ofList, Std.ExtTreeMap.mem_keys, mem_iff_exists_getElem?]
  simp only [ExpiringTable.getElem?_live]
  rfl

theorem mem_twoHopNeighbors {n : Neighborhood} {now : Nat} {id : NodeId} :
    id ∈ n.twoHopNeighbors now ↔
      (∃ source, ⟨source, id⟩ ∈ n.twoHopArcs) ∧ id ∉ n.symmetric now := by
  unfold Neighborhood.twoHopNeighbors
  rw [mem_ofList, List.mem_filter, List.mem_map, Bool.not_eq_true', contains_eq_false]
  refine and_congr_left fun _ => ?_
  constructor
  · rintro ⟨arc, harc, rfl⟩
    exact ⟨arc.source, Std.ExtTreeSet.mem_toList.1 harc⟩
  · rintro ⟨source, harc⟩
    exact ⟨⟨source, id⟩, Std.ExtTreeSet.mem_toList.2 harc, rfl⟩

theorem mem_topology_nodes {t : Topology} {now : Nat} {id : NodeId} :
    id ∈ t.nodes now ↔
      ∃ arc ansn, t.get? now arc = some ansn ∧ (id = arc.source ∨ id = arc.target) := by
  unfold Topology.nodes
  rw [mem_ofList, List.mem_flatMap]
  simp only [Topology.mem_arcs, Option.isSome_iff_exists, List.mem_cons, List.not_mem_nil, or_false]
  exact exists_congr fun arc => ⟨fun ⟨⟨ansn, h⟩, hend⟩ => ⟨ansn, h, hend⟩,
    fun ⟨ansn, h, hend⟩ => ⟨⟨ansn, h⟩, hend⟩⟩

/-- As long as the published arcs are current, whoever is known is in the set of known nodes. The
arcs leave out those reported that are symmetric neighbors, the node itself or the reporting
neighbor; but all of these are known otherwise. -/
theorem mem_knownNodes {node : Node} {now : Nat} (h : node.ArcsCurrent now) {id : NodeId} :
    id ∈ node.knownNodes now ↔ node.Knows now id := by
  have harc : ∀ source, ⟨source, id⟩ ∈ node.neighbors.twoHopArcs ↔
      ∃ entry, node.neighbors.get? now source = some entry ∧ entry.isSymmetric = true
        ∧ id ∈ entry.twoHop ∧ id ≠ node.self ∧ id ≠ source := by
    intro source
    rw [h, Neighborhood.mem_arcsOfAll, ExpiringTable.getElem?_live]
    rfl
  unfold knownNodes Knows
  rw [mem_insert, Std.ExtTreeSet.mem_union_iff, Std.ExtTreeSet.mem_union_iff, mem_members,
    mem_twoHopNeighbors, mem_topology_nodes]
  simp only [harc]
  constructor
  · rintro (rfl | (hneighbor | ⟨⟨source, entry, hentry, hsymmetric, htarget, -⟩, -⟩) | hlink)
    · exact .inl rfl
    · exact .inr (.inl hneighbor)
    · exact .inr (.inr (.inl ⟨source, entry, hentry, hsymmetric, htarget⟩))
    · exact .inr (.inr (.inr hlink))
  · rintro (rfl | hneighbor | ⟨source, entry, hentry, hsymmetric, htarget⟩ | hlink)
    · exact .inl rfl
    · exact .inr (.inl (.inl hneighbor))
    · by_cases hself : id = node.self
      · exact .inl hself
      by_cases hlive : ∃ entry, node.neighbors.get? now id = some entry
      · exact .inr (.inl (.inl hlive))
      refine .inr (.inl (.inr ⟨⟨source, entry, hentry, hsymmetric, htarget, hself, ?_⟩, ?_⟩))
      · rintro rfl
        exact hlive ⟨entry, hentry⟩
      · rw [Neighborhood.mem_symmetric]
        rintro ⟨known, hknown, -⟩
        exact hlive ⟨known, hknown⟩
    · exact .inr (.inr hlink)

/-- A node all of whose flags have been looked at and lowered. -/
def withFlagsDown (node : Node) : Node :=
  { node with
    toInformationBase :=
      { node.lowerFlags with
        selectors := { node.selectors with set := node.selectors.set.takeChanged.2 } } }

/-- What is swept stays so when somebody looks at the flags. -/
theorem Swept.withFlagsDown {node : Node} {now : Nat} (h : node.Swept now) :
    node.withFlagsDown.Swept now :=
  ⟨h.duplicates, h.neighbors, h.topology, h.selector, h.row⟩

/-- The sweep of the neighbors publishes what is left, so the memberships that are kept are those
of whoever was known before. -/
theorem mem_knownNodes_sweep {node : Node} {now : Nat} (h : node.UpToDate now) {id : NodeId} :
    id ∈ (node.sweep now).2.knownNodes now ↔ node.Knows now id := by
  have harcs : (node.sweep now).2.ArcsCurrent now :=
    (h.of_tablesNoted (tablesNoted_sweep node now)).arcs (node.swept_sweep now).neighbors
  have hself : (node.sweep now).2.self = node.self := Neighborhood.self_commit _ _
  have hneighbors : ∀ id, (node.sweep now).2.neighbors.get? now id = node.neighbors.get? now id := by
    intro id
    show (node.neighbors.commit _).table.get? now id = _
    rw [Neighborhood.table_commit]
    exact (node.neighbors.table.transaction now).get?_sweep id
  have htopology : ∀ arc, (node.sweep now).2.topology.get? now arc = node.topology.get? now arc :=
    (node.topology.table.transaction now).get?_sweep
  rw [mem_knownNodes harcs]
  unfold Knows
  simp only [hself, hneighbors, htopology]

end Node

/-- **A sweep leaves nothing stale, and a second one does nothing.** After every run, a sweep leaves
as selectors exactly those that are live symmetric neighbors; as rows of memberships exactly those
of the node itself, of live neighbors, of nodes that live symmetric neighbors report and of ends of
live links; and of neighbors, links and marks exactly the live ones, each as it was. Another sweep
at the same reading of the clock counts nothing and leaves the node as it is, and if the flags were
lowered in between then they stay down. -/
theorem sweep_exact (address : Address) (config : Config) (since : Nat) (ops : List Operation) :
    let m := (Moment.start address config since).run ops
    let swept := (m.node.sweep m.now).2
    -- the selectors
    (∀ id, id ∈ swept.selectors.members ↔ id ∈ m.node.selectors.members
        ∧ ∃ entry, swept.neighbors.get? m.now id = some entry ∧ entry.isSymmetric = true)
    -- the memberships
    ∧ (∀ (id : NodeId) (groups : AddressSet), swept.groups.rows[id]? = some groups ↔
        m.node.groups.rows[id]? = some groups ∧ m.node.Knows m.now id)
    -- neighbors, links and marks
    ∧ (∀ (id : NodeId) (slot : Slot Neighbor), swept.neighbors.table.slots[id]? = some slot ↔
        m.node.neighbors.table.slots[id]? = some slot ∧ slot.isLive m.now = true)
    ∧ (∀ (arc : Arc) (slot : Slot SeqNum), swept.topology.table.slots[arc]? = some slot ↔
        m.node.topology.table.slots[arc]? = some slot ∧ slot.isLive m.now = true)
    ∧ (∀ (id : MessageId) (slot : Slot Bool), swept.duplicates.marks.slots[id]? = some slot ↔
        m.node.duplicates.marks.slots[id]? = some slot ∧ slot.isLive m.now = true)
    -- another sweep
    ∧ swept.sweep m.now = (0, swept)
    ∧ swept.withFlagsDown.sweep m.now = (0, swept.withFlagsDown) := by
  intro m swept
  have hcurrent : m.node.UpToDate m.now := Node.upToDate_run address config since ops
  have hswept : swept.Swept m.now := m.node.swept_sweep m.now
  refine ⟨fun id => ?_, fun id groups => ?_, fun id slot => ?_, fun arc slot => ?_,
    fun id slot => ?_, Node.sweep_of_swept hswept, Node.sweep_of_swept hswept.withFlagsDown⟩
  · rw [← Neighborhood.mem_symmetric, ← mem_prune, Node.selectors_sweep]
  · rw [← Node.mem_knownNodes_sweep hcurrent]
    show (m.node.groups.rows.filter fun id _ =>
      (swept.knownNodes m.now).contains id)[id]? = some groups ↔ _
    rw [Std.ExtTreeMap.getElem?_filter', Option.filter_eq_some_iff, Std.ExtTreeSet.contains_iff_mem]
  · show (m.node.neighbors.commit _).table.slots[id]? = some slot ↔ _
    rw [Neighborhood.table_commit]
    exact (m.node.neighbors.table.transaction m.now).getElem?_sweep
  · exact (m.node.topology.table.transaction m.now).getElem?_sweep
  · exact (m.node.duplicates.marks.transaction m.now).getElem?_sweep

end Meshcast
