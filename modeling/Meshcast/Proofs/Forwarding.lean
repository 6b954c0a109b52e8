import Mathlib.Data.List.Nodup
import Mathlib.Data.List.Perm.Basic
import Meshcast.Overlay.Forwarding
import Meshcast.Proofs.NodeSets
import Meshcast.Proofs.Prim
import Meshcast.Proofs.Registry
import Meshcast.Proofs.TreeGraph

/-!
# Meshcast — what the copies of a message add up to

A copy settles its recipient, and those that the recipient still owes the message to. Neither the
source of a message nor a relay loses anybody or settles anybody twice, whatever tree they use.

* **`DataMessage.owed`**, **`Copy.settles`** — whom a recipient owes a message to, and whom a copy
  settles.
* **`nodup_behindHops`** — no node is behind two neighbors.
* **`perm_partition`** — a partition has each pending node once, save for the one it is seen from.
* **`Forwarding.settles_relay`** — the copies of a relay settle those that the relay owes.
* **`Forwarding.settles_outbound`** — the copies of a source settle the tree, the nodes in their
  grace period and the source.
-/

namespace Meshcast

/-- Whom a recipient owes a message to: itself it has served. -/
def DataMessage.owed (message : DataMessage) (recipient : Address) : AddressSet :=
  (message.responsibilities recipient).erase recipient

/-- Whether two messages differ in their headers only. -/
structure DataMessage.SameContent (m m' : DataMessage) : Prop where
  group : m.group = m'.group
  source : m.source = m'.source
  seq : m.seq = m'.seq
  payload : m.payload = m'.payload

theorem DataMessage.SameContent.trans {m₁ m₂ m₃ : DataMessage} (h₁ : m₁.SameContent m₂)
    (h₂ : m₂.SameContent m₃) : m₁.SameContent m₃ :=
  ⟨h₁.1.trans h₂.1, h₁.2.trans h₂.2, h₁.3.trans h₂.3, h₁.4.trans h₂.4⟩

/-- Whom a copy settles: its recipient and those that the recipient owes it to. -/
def Copy.settles (c : Copy) : List Address :=
  c.recipient :: (c.message.owed c.recipient).toList

/-! ## Assignments -/

/-- A recipient with those that it becomes responsible for. -/
abbrev Assignment := NodeId × NodeSet

/-- All that are in an assignment. -/
def Assignment.nodes (e : Assignment) : List NodeId :=
  e.1 :: e.2.toList

/-- The recipient alone. -/
def Assignment.alone (node : NodeId) : Assignment :=
  (node, ∅)

theorem flatMap_alone (nodes : List NodeId) :
    (nodes.map Assignment.alone).flatMap Assignment.nodes = nodes := by
  induction nodes with
  | nil => rfl
  | cons node rest ih =>
    rw [List.map_cons, List.flatMap_cons, ih]
    rfl

/-- Some neighbors of a node, each with nodes that are behind it. -/
def behindHops (hops : List NodeId) (behind : NodeId → NodeSet) : List Assignment :=
  hops.map fun via => (via, (behind via).erase via)

theorem mem_behindHops {hops : List NodeId} {behind : NodeId → NodeSet}
    (hself : ∀ via ∈ hops, via ∈ behind via) {x : NodeId} :
    x ∈ (behindHops hops behind).flatMap Assignment.nodes ↔ ∃ via ∈ hops, x ∈ behind via := by
  unfold behindHops
  rw [List.flatMap_map, List.mem_flatMap]
  simp only [Assignment.nodes, List.mem_cons, Std.ExtTreeSet.mem_toList, Std.ExtTreeSet.mem_erase,
    ne_eq, Std.compare_eq_iff_eq]
  constructor
  · rintro ⟨via, hvia, rfl | ⟨-, hx⟩⟩
    · exact ⟨x, hvia, hself x hvia⟩
    · exact ⟨via, hvia, hx⟩
  · rintro ⟨via, hvia, hx⟩
    by_cases heq : x = via
    · exact ⟨via, hvia, .inl heq⟩
    · exact ⟨via, hvia, .inr ⟨Ne.symm heq, hx⟩⟩

theorem nodup_behindHops {t : SpanningTree} (h : t.Grown) {u : NodeId} {hops : List NodeId}
    {behind : NodeId → NodeSet} (hnodup : hops.Nodup) (hhops : ∀ via ∈ hops, via ∈ t.neighbors u)
    (hbehind : ∀ via ∈ hops, ∀ x ∈ behind via, x ∈ t.branch u via) :
    ((behindHops hops behind).flatMap Assignment.nodes).Nodup := by
  have hbranch : ∀ via ∈ hops, ∀ x, x ∈ Assignment.nodes (via, (behind via).erase via) →
      x ∈ t.branch u via := by
    intro via hvia x hx
    rcases List.mem_cons.1 hx with rfl | hx
    · exact h.mem_branch_self (hhops _ hvia)
    · exact hbehind via hvia x
        (Std.ExtTreeSet.mem_of_mem_erase (Std.ExtTreeSet.mem_toList.1 hx))
  unfold behindHops
  rw [List.flatMap_map, List.nodup_flatMap]
  constructor
  · intro via _
    refine List.nodup_cons.2 ⟨?_, nodup_toList _⟩
    rw [Std.ExtTreeSet.mem_toList, Std.ExtTreeSet.mem_erase]
    exact fun hvia => hvia.1 Std.ReflCmp.compare_self
  · -- different neighbors have different branches behind them
    refine hnodup.imp_of_mem ?_
    intro via other hvia hother hne x hx hxother
    exact h.branch_disjoint (hhops via hvia) (hhops other hother) hne (hbranch via hvia x hx)
      (hbranch other hother x hxother)

/-! ## Partitions -/

/-- The assignments of a partition. -/
def Partition.assignments (split : Partition) : List Assignment :=
  split.direct ++ split.fallback.toList.map Assignment.alone

section Partition

variable {t : SpanningTree} {self : NodeId} {pending : NodeSet}

/-- The neighbors in the tree that are pending. -/
def pendingHops (t : SpanningTree) (self : NodeId) (pending : NodeSet) : List NodeId :=
  (t.neighbors self).toList.filter pending.contains

/-- What is pending in the branch behind a neighbor. -/
def pendingBehind (t : SpanningTree) (self : NodeId) (pending : NodeSet) (via : NodeId) : NodeSet :=
  (t.branch self via).filter pending.contains

theorem mem_pendingHops {via : NodeId} :
    via ∈ pendingHops t self pending ↔ via ∈ t.neighbors self ∧ via ∈ pending := by
  unfold pendingHops
  rw [List.mem_filter, Std.ExtTreeSet.mem_toList, Std.ExtTreeSet.contains_iff_mem]

theorem mem_pendingBehind {via x : NodeId} :
    x ∈ pendingBehind t self pending via ↔ x ∈ t.branch self via ∧ x ∈ pending := by
  unfold pendingBehind
  rw [mem_filter, Std.ExtTreeSet.contains_iff_mem]

theorem direct_partition : (partition t self pending).direct =
    behindHops (pendingHops t self pending) (pendingBehind t self pending) := by
  unfold partition
  exact List.map_map

theorem mem_fallback_partition {x : NodeId} :
    x ∈ (partition t self pending).fallback ↔
      x ∈ pending ∧ x ≠ self
        ∧ ∀ via ∈ pendingHops t self pending, x ∉ pendingBehind t self pending via := by
  unfold partition
  rw [mem_filter, Bool.and_eq_true, bne_iff_ne, Bool.not_eq_true', List.any_eq_false]
  simp only [List.forall_mem_map, Std.ExtTreeSet.contains_iff_mem]
  rfl

variable (h : t.Grown)
include h

/-- A partition has each pending node once, save for the one it is seen from. -/
theorem perm_partition :
    ((partition t self pending).assignments.flatMap Assignment.nodes).Perm
      (pending.erase self).toList := by
  have hhops : ∀ via ∈ pendingHops t self pending, via ∈ t.neighbors self :=
    fun via hvia => (mem_pendingHops.1 hvia).1
  have hdirect : ∀ x, x ∈ (behindHops (pendingHops t self pending)
      (pendingBehind t self pending)).flatMap Assignment.nodes ↔
        ∃ via ∈ pendingHops t self pending, x ∈ pendingBehind t self pending via := by
    intro x
    refine mem_behindHops fun via hvia => mem_pendingBehind.2 ⟨?_, (mem_pendingHops.1 hvia).2⟩
    exact h.mem_branch_self (hhops via hvia)
  unfold Partition.assignments
  rw [List.flatMap_append, flatMap_alone, direct_partition]
  refine (List.perm_ext_iff_of_nodup ?_ (nodup_toList _)).2 ?_
  · refine List.Nodup.append ?_ (nodup_toList _) ?_
    · exact nodup_behindHops h ((nodup_toList _).filter _) hhops
        (fun via _ x hx => (mem_pendingBehind.1 hx).1)
    · -- nothing falls back that is behind a hop
      intro x hx hfallback
      obtain ⟨via, hvia, hx⟩ := (hdirect x).1 hx
      rw [Std.ExtTreeSet.mem_toList, mem_fallback_partition] at hfallback
      exact hfallback.2.2 via hvia hx
  · intro x
    rw [List.mem_append, hdirect, Std.ExtTreeSet.mem_toList, Std.ExtTreeSet.mem_toList,
      mem_fallback_partition, mem_erase]
    constructor
    · rintro (⟨via, hvia, hx⟩ | hx)
      · obtain ⟨hbranch, hpending⟩ := mem_pendingBehind.1 hx
        exact ⟨h.ne_of_mem_branch (hhops via hvia) hbranch, hpending⟩
      · exact ⟨hx.2.1, hx.1⟩
    · rintro ⟨hne, hx⟩
      by_cases hcovered : ∃ via ∈ pendingHops t self pending, x ∈ pendingBehind t self pending via
      · exact .inl hcovered
      · exact .inr ⟨hx, hne, fun via hvia hbehind => hcovered ⟨via, hvia, hbehind⟩⟩

theorem perm_headers (hself : self ∈ t.nodes) :
    ((t.headers self).flatMap Assignment.nodes).Perm (t.nodes.erase self).toList := by
  have hheaders : t.headers self = behindHops (t.neighbors self).toList (t.branch self) := rfl
  rw [hheaders]
  refine (List.perm_ext_iff_of_nodup ?_ (nodup_toList _)).2 ?_
  · exact nodup_behindHops h (nodup_toList _) (fun via hvia => Std.ExtTreeSet.mem_toList.1 hvia)
      (fun _ _ _ hx => hx)
  · intro x
    rw [mem_behindHops fun via hvia => h.mem_branch_self (Std.ExtTreeSet.mem_toList.1 hvia),
      Std.ExtTreeSet.mem_toList, Std.ExtTreeSet.mem_erase, ne_eq, Std.compare_eq_iff_eq, and_comm,
      eq_comm, ← ne_eq, ← h.exists_branch_iff hself]
    simp only [Std.ExtTreeSet.mem_toList]

end Partition

/-! ## Copies -/

namespace Registry

theorem knows_iff {r : Registry} {node : NodeId} :
    r.knows node = true ↔ ∃ a, r.address? node = some a := by
  unfold knows size address?
  rw [decide_eq_true_iff]
  constructor
  · intro h
    exact ⟨r.participants[node.index].address, by rw [Array.getElem?_eq_getElem h]; rfl⟩
  · rintro ⟨a, ha⟩
    obtain ⟨p, hp, -⟩ := Option.map_eq_some_iff.1 ha
    exact (Array.getElem?_eq_some_iff.1 hp).1

theorem nodup_addresses {r : Registry} {nodes : List NodeId} (h : nodes.Nodup) :
    (r.addresses nodes).Nodup :=
  h.filterMap fun _ _ _ hi hj => address?_injective hi hj

theorem mem_addresses {r : Registry} {nodes : List NodeId} {a : Address} :
    a ∈ r.addresses nodes ↔ ∃ node ∈ nodes, r.address? node = some a :=
  List.mem_filterMap

end Registry

namespace Forwarding

/-- The copies for recipients with what each becomes responsible for. -/
def copies (registry : Registry) (message : DataMessage) (assignments : List Assignment) :
    List Copy :=
  assignments.filterMap fun e => copyFor registry message e.1 e.2

theorem copyFor_alone (registry : Registry) (message : DataMessage) (nodes : List NodeId) :
    nodes.filterMap (fun node => copyFor registry message node ∅) =
      copies registry message (nodes.map Assignment.alone) := by
  unfold copies
  rw [List.filterMap_map]
  rfl

variable {registry : Registry} {message : DataMessage}

theorem sameContent_of_mem_copies {assignments : List Assignment} {c : Copy}
    (h : c ∈ copies registry message assignments) : c.message.SameContent message := by
  obtain ⟨e, -, he⟩ := List.mem_filterMap.1 h
  obtain ⟨a, -, rfl⟩ := Option.map_eq_some_iff.1 he
  exact ⟨rfl, rfl, rfl, rfl⟩

theorem responsibilities_copyFor {node : NodeId} {a : Address} {responsible : NodeSet} {c : Copy}
    (h : copyFor registry message node responsible = some c)
    (ha : registry.address? node = some a) :
    c.recipient = a ∧ c.message.responsibilities a =
      .ofList (registry.addresses responsible.toList) := by
  unfold copyFor at h
  rw [ha] at h
  cases h
  refine ⟨rfl, ?_⟩
  unfold DataMessage.responsibilities
  dsimp only
  split
  · rename_i hempty
    rw [Std.ExtTreeSet.isEmpty_iff] at hempty
    rw [hempty]
    rfl
  · rw [Std.ExtTreeMap.getElem?_insert_self]
    rfl

theorem settles_copyFor {node : NodeId} {a : Address} {responsible : NodeSet} {c : Copy}
    (h : copyFor registry message node responsible = some c) (ha : registry.address? node = some a)
    (hself : node ∉ responsible) :
    c.settles.Perm (registry.addresses (Assignment.nodes (node, responsible))) := by
  obtain ⟨hrecipient, howed⟩ := responsibilities_copyFor h ha
  have hnodes : registry.addresses (Assignment.nodes (node, responsible)) =
      a :: registry.addresses responsible.toList :=
    List.filterMap_cons_some ha
  unfold Copy.settles DataMessage.owed
  rw [hnodes, hrecipient, howed]
  refine List.Perm.cons a ?_
  refine (List.perm_ext_iff_of_nodup (nodup_toList _)
    (registry.nodup_addresses (nodup_toList _))).2 ?_
  intro b
  rw [Std.ExtTreeSet.mem_toList, Std.ExtTreeSet.mem_erase, Std.ExtTreeSet.mem_ofList,
    List.contains_iff_mem]
  constructor
  · exact fun hb => hb.2
  · intro hb
    refine ⟨?_, hb⟩
    -- the address of the recipient is nobody else's
    intro heq
    obtain ⟨other, hother, hb⟩ := Registry.mem_addresses.1 hb
    rw [← Std.compare_eq_iff_eq.1 heq] at hb
    rw [Registry.address?_injective ha hb] at hself
    exact hself (Std.ExtTreeSet.mem_toList.1 hother)

theorem settles_copies {assignments : List Assignment} {nodes : List NodeId}
    (h : (assignments.flatMap Assignment.nodes).Perm nodes) (hnodup : nodes.Nodup)
    (hknown : ∀ node ∈ nodes, registry.knows node = true) :
    ((copies registry message assignments).flatMap Copy.settles).Perm
      (registry.addresses nodes) := by
  refine List.Perm.trans ?_ (h.filterMap registry.address?)
  have hdistinct : ∀ e ∈ assignments, (Assignment.nodes e).Nodup :=
    (List.nodup_flatMap.1 (h.nodup_iff.2 hnodup)).1
  have hrecipients : ∀ e ∈ assignments, ∃ a, registry.address? e.1 = some a := by
    intro e he
    refine Registry.knows_iff.1 (hknown e.1 (h.mem_iff.1 ?_))
    exact List.mem_flatMap.2 ⟨e, he, List.mem_cons_self⟩
  clear h
  induction assignments with
  | nil => exact .nil
  | cons e rest ih =>
    obtain ⟨a, ha⟩ := hrecipients e List.mem_cons_self
    have hself : e.1 ∉ e.2 :=
      mt Std.ExtTreeSet.mem_toList.2 (List.nodup_cons.1 (hdistinct e List.mem_cons_self)).1
    obtain ⟨c, hc⟩ : ∃ c, copyFor registry message e.1 e.2 = some c := by
      unfold copyFor
      rw [ha]
      exact ⟨_, rfl⟩
    have hcopies : copies registry message (e :: rest) = c :: copies registry message rest :=
      List.filterMap_cons_some hc
    rw [hcopies, List.flatMap_cons, List.flatMap_cons, List.filterMap_append]
    refine (settles_copyFor hc ha hself).append (ih ?_ ?_)
    · exact fun e he => hdistinct e (List.mem_cons_of_mem _ he)
    · exact fun e he => hrecipients e (List.mem_cons_of_mem _ he)

/-! ## Relays -/

section Relay

variable {self : NodeId} {tree : SpanningTree} {a : Address}

/-- The nodes that a relay has to serve. -/
def pendingOf (registry : Registry) (self : NodeId) (message : DataMessage) (a : Address) :
    NodeSet :=
  .ofList ((registry.internAll (message.responsibilities a).toList).1.filter (· != self))

theorem mem_pendingOf {node : NodeId} : node ∈ pendingOf registry self message a ↔
    node ∈ (registry.internAll (message.responsibilities a).toList).1 ∧ node ≠ self := by
  unfold pendingOf
  rw [Std.ExtTreeSet.mem_ofList, List.contains_iff_mem, List.mem_filter, bne_iff_ne]

theorem relay_eq (ha : registry.address? self = some a) :
    (relay registry self tree message).1 =
      copies (registry.internAll (message.responsibilities a).toList).2 message
        (partition tree self (pendingOf registry self message a)).assignments := by
  unfold relay
  rw [ha]
  dsimp only
  rw [copyFor_alone]
  unfold Partition.assignments copies
  rw [List.filterMap_append]
  rfl

theorem addresses_pendingOf (ha : registry.address? self = some a) :
    ((registry.internAll (message.responsibilities a).toList).2.addresses
      (pendingOf registry self message a).toList).Perm (message.owed a).toList := by
  let responsible := (message.responsibilities a).toList
  let registry' := (registry.internAll responsible).2
  have hself : registry'.address? self = some a :=
    (registry.extends_internAll responsible).address? ha
  have hids : ∀ b, (∃ node ∈ (registry.internAll responsible).1, registry'.address? node = some b) ↔
      b ∈ responsible := by
    intro b
    rw [← List.mem_map, registry.address?_internAll responsible,
      List.mem_map_of_injective (fun _ _ => Option.some.inj)]
  refine (List.perm_ext_iff_of_nodup (Registry.nodup_addresses (nodup_toList _))
    (nodup_toList _)).2 ?_
  intro b
  rw [Registry.mem_addresses, DataMessage.owed, Std.ExtTreeSet.mem_toList, Std.ExtTreeSet.mem_erase,
    ← Std.ExtTreeSet.mem_toList (t := message.responsibilities a), ← hids b, ne_eq,
    Std.compare_eq_iff_eq]
  simp only [Std.ExtTreeSet.mem_toList, mem_pendingOf]
  constructor
  · rintro ⟨node, ⟨hnode, hne⟩, hb⟩
    refine ⟨?_, node, hnode, hb⟩
    rintro rfl
    exact hne (Registry.address?_injective hb hself)
  · rintro ⟨hne, node, hnode, hb⟩
    refine ⟨node, ⟨hnode, ?_⟩, hb⟩
    rintro rfl
    rw [hself] at hb
    exact hne (Option.some.inj hb)

/-- The copies of a relay settle those that it owes the message to, each of them once. -/
theorem settles_relay (h : tree.Grown) (ha : registry.address? self = some a) :
    ((relay registry self tree message).1.flatMap Copy.settles).Perm (message.owed a).toList := by
  let ids := (registry.internAll (message.responsibilities a).toList).1
  have hothers : (pendingOf registry self message a).erase self
      = pendingOf registry self message a := by
    refine Std.ExtTreeSet.ext_mem fun node => ?_
    rw [mem_erase]
    exact and_iff_right_of_imp fun hnode => (mem_pendingOf.1 hnode).2
  have hsplit : ((partition tree self (pendingOf registry self message a)).assignments.flatMap
      Assignment.nodes).Perm ((pendingOf registry self message a).erase self).toList :=
    perm_partition h
  rw [hothers] at hsplit
  rw [relay_eq ha]
  refine (settles_copies hsplit (nodup_toList _) ?_).trans (addresses_pendingOf ha)
  intro node hnode
  have hids : node ∈ ids := (mem_pendingOf.1 (Std.ExtTreeSet.mem_toList.1 hnode)).1
  have haddress := List.mem_map_of_mem
    (f := (registry.internAll (message.responsibilities a).toList).2.address?) hids
  rw [registry.address?_internAll] at haddress
  obtain ⟨b, -, hb⟩ := List.mem_map.1 haddress
  exact Registry.knows_iff.2 ⟨b, hb.symm⟩

theorem sameContent_relay (ha : registry.address? self = some a) {c : Copy}
    (hc : c ∈ (relay registry self tree message).1) : c.message.SameContent message := by
  rw [relay_eq ha] at hc
  exact sameContent_of_mem_copies hc

end Relay

/-! ## Sources -/

section Outbound

variable {self : NodeId} {tree : SpanningTree} {grace : NodeSet}

/-- The members in their grace period that the tree does not reach. -/
def graced (self : NodeId) (tree : SpanningTree) (grace : NodeSet) : NodeSet :=
  grace.filter fun node => node != self && !tree.contains node

theorem mem_graced {node : NodeId} : node ∈ graced self tree grace ↔
    node ∈ grace ∧ node ≠ self ∧ node ∉ tree.nodes := by
  unfold graced
  rw [mem_filter, Bool.and_eq_true, bne_iff_ne, Bool.not_eq_true', ← SpanningTree.contains_iff,
    Bool.not_eq_true]

theorem outbound_eq : outbound registry self tree grace message =
    copies registry message (tree.headers self
      ++ ((graced self tree grace).toList ++ [self]).map Assignment.alone) := by
  have hown : (copyFor registry message self ∅).toList =
      copies registry message ([self].map Assignment.alone) := by
    rw [← copyFor_alone, List.filterMap_cons]
    cases copyFor registry message self ∅ <;> rfl
  unfold outbound
  dsimp only
  rw [copyFor_alone, hown, List.append_assoc]
  unfold copies
  rw [List.map_append, List.filterMap_append, List.filterMap_append]
  rfl

/-- Whom a source serves: the nodes of its tree, which it is one of, and the members in their grace
period. -/
def audience (registry : Registry) (tree : SpanningTree) (grace : NodeSet) : AddressSet :=
  .ofList (registry.addresses (tree.nodes ∪ grace).toList)

theorem perm_audience :
    (registry.addresses (tree.nodes ∪ grace).toList).Perm
      (audience registry tree grace).toList := by
  refine (List.perm_ext_iff_of_nodup (Registry.nodup_addresses (nodup_toList _))
    (nodup_toList _)).2 ?_
  intro b
  unfold audience
  rw [Std.ExtTreeSet.mem_toList, Std.ExtTreeSet.mem_ofList, List.contains_iff_mem]

theorem perm_outbound (h : tree.Grown) (hself : self ∈ tree.nodes) :
    ((tree.headers self ++ ((graced self tree grace).toList ++ [self]).map Assignment.alone).flatMap
      Assignment.nodes).Perm (tree.nodes ∪ grace).toList := by
  rw [List.flatMap_append, flatMap_alone]
  refine ((perm_headers h hself).append_right _).trans ?_
  refine (List.perm_ext_iff_of_nodup ?_ (nodup_toList _)).2 ?_
  · have hgraced : ∀ node ∈ (graced self tree grace).toList, node ≠ self ∧ node ∉ tree.nodes :=
      fun node hnode => (mem_graced.1 (Std.ExtTreeSet.mem_toList.1 hnode)).2
    refine (nodup_toList _).append ((nodup_toList _).append (List.nodup_singleton self) ?_) ?_
    · intro node hnode hmem
      exact (hgraced node hnode).1 (List.mem_singleton.1 hmem)
    · intro node hnode hmem
      rw [Std.ExtTreeSet.mem_toList, Std.ExtTreeSet.mem_erase, ne_eq, Std.compare_eq_iff_eq]
        at hnode
      rcases List.mem_append.1 hmem with hmem | hmem
      · exact (hgraced node hmem).2 hnode.2
      · exact hnode.1 (List.mem_singleton.1 hmem).symm
  · intro node
    rw [List.mem_append, List.mem_append, List.mem_singleton, Std.ExtTreeSet.mem_toList,
      Std.ExtTreeSet.mem_toList, Std.ExtTreeSet.mem_toList, Std.ExtTreeSet.mem_erase, mem_graced,
      Std.ExtTreeSet.mem_union_iff, ne_eq, Std.compare_eq_iff_eq]
    by_cases heq : node = self
    · simp [heq, hself]
    · by_cases htree : node ∈ tree.nodes
      · simp [htree, Ne.symm heq]
      · simp [htree, heq]

/-- The copies of a source settle its audience, each of them once. -/
theorem settles_outbound (h : tree.Grown) (hself : self ∈ tree.nodes)
    (hknown : ∀ node ∈ tree.nodes ∪ grace, registry.knows node = true) :
    ((outbound registry self tree grace message).flatMap Copy.settles).Perm
      (audience registry tree grace).toList := by
  rw [outbound_eq]
  refine (settles_copies (perm_outbound h hself) (nodup_toList _) ?_).trans perm_audience
  intro node hnode
  exact hknown node (Std.ExtTreeSet.mem_toList.1 hnode)

theorem sameContent_outbound {c : Copy}
    (hc : c ∈ outbound registry self tree grace message) : c.message.SameContent message := by
  rw [outbound_eq] at hc
  exact sameContent_of_mem_copies hc

end Outbound

end Forwarding

end Meshcast
