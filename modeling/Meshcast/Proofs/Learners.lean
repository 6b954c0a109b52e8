import Meshcast.Proofs.HoldTime

/-!
# Meshcast — learning from announcements in the course of time

Links are recorded when an announcement is applied and dropped when a sweep finds them dead; nothing
else touches them. Here an information base is followed through any sequence of announcements, of
sweeps and of time that passes, while everything else about it becomes whatever it likes.

* **`Learner`**, **`LearnerEvent`**, **`Learner.step`** — an information base with the time, and what
  can happen to it.
* **`Moment.exists_run`** — whatever a node does, its information base is such a learner.
* **`TcHandling`**, **`exists_tcHandling`** — the three things that become of an announcement.
* **`Topology.Keeps`**, **`Learner.keeps_run`** — as long as no announcement of an originator is
  applied, its live links stay as they are.
-/

namespace Meshcast

/-! ## Learners -/

/-- An information base and the time. -/
structure Learner where
  now : Nat
  base : InformationBase

/-- What can happen to an information base. Of neighbors, selectors and memberships it is left open
why they change. -/
inductive LearnerEvent
  /-- An announcement of an originator comes in from a sender. -/
  | announcement (originator sender : Address) (tc : Tc) (validity : ValidityTime)
  /-- Neighbors, selectors and memberships become others. -/
  | elsewhere (neighbors : Neighborhood) (selectors : Selectors) (groups : Groups)
  /-- Participants become known. -/
  | register (participants : List Address)
  /-- The bandwidth of a participant becomes known. -/
  | setBandwidth (id : NodeId) (bandwidth : Bandwidth)
  /-- Dead links are dropped. -/
  | sweepLinks
  /-- The flag that links changed is lowered. -/
  | lowerFlag
  /-- Time passes. -/
  | advance (ms : Nat)

namespace Learner

/-- What an event makes of a learner. -/
def step (l : Learner) : LearnerEvent → Learner
  | .announcement originator sender tc validity =>
    { l with base := (l.base.applyTc l.now originator sender tc validity).2 }
  | .elsewhere neighbors selectors groups =>
    { l with base := { l.base with neighbors, selectors, groups } }
  | .register participants =>
    { l with base := { l.base with registry := (l.base.registry.internAll participants).2 } }
  | .setBandwidth id bandwidth =>
    { l with base := { l.base with registry := l.base.registry.setBandwidth id bandwidth } }
  | .sweepLinks => { l with base := { l.base with topology := (l.base.topology.sweep l.now).2 } }
  | .lowerFlag => { l with base := { l.base with topology := l.base.topology.takeChanged.2 } }
  | .advance ms => { l with now := l.now + ms }

def run (l : Learner) (events : List LearnerEvent) : Learner :=
  events.foldl step l

/-- The originator of the announcement that an event has applied. -/
def applied? (l : Learner) : LearnerEvent → Option Address
  | .announcement originator sender tc validity =>
    match (l.base.applyTc l.now originator sender tc validity).1 with
    | .applied _ => some originator
    | _ => none
  | _ => none

end Learner

/-! ## Nodes as learners -/

namespace Node

/-- The information base of the node, at a reading of the clock. -/
def learner (node : Node) (now : Nat) : Learner :=
  { now, base := node.toInformationBase }

theorem exists_run_applyHello (base : InformationBase) (now : Nat) (source : Address)
    (hello : Hello) (validity : ValidityTime) :
    ∃ events, ({ now, base } : Learner).run events
      = { now, base := (base.applyHello now source hello validity).2 } := by
  obtain ⟨htopology, hgroups⟩ := base.announced_applyHello now source hello validity
  have hregistry : ∃ participants, (base.applyHello now source hello validity).2.registry
      = (base.registry.internAll participants).2 := by
    unfold InformationBase.applyHello
    dsimp only
    split
    · exact ⟨[source], rfl⟩
    · exact ⟨source :: hello.listings.unzip.2, rfl⟩
  obtain ⟨participants, hregistry⟩ := hregistry
  generalize (base.applyHello now source hello validity).2 = base'
    at htopology hgroups hregistry ⊢
  refine ⟨[.register participants, .elsewhere base'.neighbors base'.selectors base'.groups], ?_⟩
  obtain ⟨registry, neighbors, selectors, topology, groups⟩ := base'
  dsimp only at htopology hregistry
  rw [htopology, hregistry]
  rfl

theorem exists_run_receivePacket (node : Node) (now : Nat) (packet : Packet) (neighbor : Address) :
    ∃ events, (node.learner now).run events
      = (node.receivePacket now packet neighbor).2.learner now := by
  show ∃ events, (node.learner now).run events
    = { now, base := (node.receivePacket now packet neighbor).2.toInformationBase }
  cases hhandles : node.handles now packet neighbor with
  | false =>
    rcases toInformationBase_of_not_handles hhandles with hsame | hacquainted
    · rw [hsame]
      exact ⟨[], rfl⟩
    · rw [hacquainted]
      exact ⟨[.register [packet.header.originator]], rfl⟩
  | true =>
    rw [toInformationBase_of_handles hhandles]
    unfold taught
    cases packet.body with
    | hello hello =>
      obtain ⟨events, hevents⟩ := exists_run_applyHello (node.acquainted packet) now neighbor
        hello packet.header.validity
      exact ⟨.register [packet.header.originator] :: events, hevents⟩
    | tc tc =>
      exact ⟨[.register [packet.header.originator],
        .announcement packet.header.originator neighbor tc packet.header.validity], rfl⟩

theorem exists_run_recompute (node : Node) (now : Nat) :
    ∃ events, (node.learner now).run events = (node.recompute now).2.learner now := by
  have hrelays : (node.updateRelays now).registry = node.registry
      ∧ (node.updateRelays now).topology = node.topology := by
    unfold updateRelays
    dsimp only
    split <;> exact ⟨rfl, rfl⟩
  have hrest : (node.recompute now).2.registry = (node.updateRelays now).registry
      ∧ (node.recompute now).2.topology = (node.updateRelays now).topology.takeChanged.2 := by
    unfold recompute
    dsimp only
    split
    · exact ⟨rfl, rfl⟩
    · split <;> exact ⟨rfl, rfl⟩
  rw [hrelays.1, hrelays.2] at hrest
  obtain ⟨hregistry, htopology⟩ := hrest
  unfold learner
  generalize (node.recompute now).2.toInformationBase = base' at hregistry htopology ⊢
  refine ⟨[.lowerFlag, .elsewhere base'.neighbors base'.selectors base'.groups], ?_⟩
  obtain ⟨registry, neighbors, selectors, topology, groups⟩ := base'
  dsimp only at hregistry htopology
  rw [hregistry, htopology]
  rfl

theorem exists_run_perform (node : Node) (now : Nat) (op : Operation) :
    ∃ events, (node.learner now).run events = (node.perform now op).learner now := by
  have hrelay : ∀ message, ∃ events,
      (node.learner now).run events = (node.relay message).2.learner now := by
    intro message
    have hregistry : ∃ participants, (node.relay message).2.registry
        = (node.registry.internAll participants).2 := by
      show ∃ participants, (Forwarding.relay node.registry node.self (node.treeOf message.group)
        message).2 = _
      unfold Forwarding.relay
      split
      · exact ⟨[], rfl⟩
      · exact ⟨_, rfl⟩
    obtain ⟨participants, hregistry⟩ := hregistry
    refine ⟨[.register participants], ?_⟩
    show ({ now, base := { node.toInformationBase with
      registry := (node.registry.internAll participants).2 } } : Learner) = _
    rw [← hregistry]
    rfl
  cases op with
  | receiveControl bytes neighbor =>
    unfold perform receiveControl
    dsimp only
    split
    · exact node.exists_run_receivePacket now _ neighbor
    · exact ⟨[], rfl⟩
  | receivePacket packet neighbor => exact node.exists_run_receivePacket now packet neighbor
  | makeTc => exact ⟨[.elsewhere node.neighbors node.makeTc.2.selectors node.groups], rfl⟩
  | sweep =>
    let node' := (node.sweep now).2
    exact ⟨[.sweepLinks, .elsewhere node'.neighbors node'.selectors node'.groups], rfl⟩
  | recompute => exact node.exists_run_recompute now
  | join group =>
    exact ⟨[.elsewhere node.neighbors node.selectors (node.join group).2.groups], rfl⟩
  | leave group =>
    exact ⟨[.elsewhere node.neighbors node.selectors (node.leave group).2.groups], rfl⟩
  | receiveData bytes =>
    unfold perform
    dsimp only
    split
    · exact hrelay _
    · exact ⟨[], rfl⟩
  | receiveMessage message => exact hrelay message
  | registerAll view => exact ⟨[.register view], rfl⟩
  | setBandwidth participant bandwidth =>
    exact ⟨[.register [participant],
      .setBandwidth (node.registry.intern participant).1 bandwidth], rfl⟩
  | makeHello => exact ⟨[], rfl⟩
  | tickGrace => exact ⟨[], rfl⟩
  | send group payload => exact ⟨[], rfl⟩
  | advance ms => exact ⟨[], rfl⟩

end Node

/-- **Nothing happens to the information base of a node but what can happen to a learner.** -/
theorem Moment.exists_run (m : Moment) (ops : List Operation) :
    ∃ events, (m.node.learner m.now).run events = (m.run ops).node.learner (m.run ops).now := by
  induction ops generalizing m with
  | nil => exact ⟨[], rfl⟩
  | cons op rest ih =>
    obtain ⟨events, hevents⟩ := m.node.exists_run_perform m.now op
    obtain ⟨later, hlater⟩ := ih (m.step op)
    refine ⟨events ++ .advance op.duration :: later, ?_⟩
    show _ = ((m.step op).run rest).node.learner ((m.step op).run rest).now
    rw [← hlater]
    unfold Learner.run at hevents ⊢
    rw [List.foldl_append, hevents]
    rfl

/-! ## What becomes of an announcement -/

namespace InformationBase

/-- An announcement was applied. It replaced the older links of its originator, which has the
identifier `origin`, and the groups that the originator is in. -/
structure TcApplied (base : InformationBase) (now : Nat) (originator : Address) (tc : Tc)
    (validity : ValidityTime) (origin : NodeId) (base' : InformationBase) : Prop where
  originator : base'.registry.lookup? originator = some origin
  advertised : ∀ a ∈ tc.advertised, ∃ id, base'.registry.lookup? a = some id
  notNewer : base.topology.knowsNewer now origin tc.ansn = false
  announced : ∀ arc : Arc, arc.source = origin →
    (∃ a ∈ tc.advertised, base'.registry.lookup? a = some arc.target) →
      base'.topology.table.slots[arc]? = some ⟨tc.ansn, deadline now validity.millis⟩
  others : ∀ arc : Arc,
    ¬(arc.source = origin ∧ ∃ a ∈ tc.advertised, base'.registry.lookup? a = some arc.target) →
      base'.topology.table.slots[arc]? = base.topology.table.slots[arc]?.filter fun slot =>
        !slot.isLive now || (arc.source ≠ origin || !slot.value.isOlderThan tc.ansn)
  groups : base'.groups = (base.groups.update origin tc.groups).2

/-- What becomes of an announcement of `originator` that comes in from `sender`. -/
inductive TcHandling (base : InformationBase) (now : Nat) (originator sender : Address) (tc : Tc)
    (validity : ValidityTime) : TcOutcome → InformationBase → Prop
  | notSymmetric (hsender : base.isSymmetricNeighbor now sender = false) :
    TcHandling base now originator sender tc validity .notSymmetric base
  | stale (registry : Registry) (hsender : base.isSymmetricNeighbor now sender = true)
      (hnewer : base.topology.knowsNewer now (base.registry.intern originator).1 tc.ansn = true)
      (hregistry : base.registry.Extends registry) :
    TcHandling base now originator sender tc validity .stale { base with registry }
  | applied (changed : Bool) (base' : InformationBase)
      (hsender : base.isSymmetricNeighbor now sender = true)
      (hregistry : base.registry.Extends base'.registry)
      (happlied : TcApplied base now originator tc validity (base.registry.intern originator).1
        base') :
    TcHandling base now originator sender tc validity (.applied changed) base'

/-- One of the three becomes of every announcement. -/
theorem exists_tcHandling (base : InformationBase) (now : Nat) (originator sender : Address)
    (tc : Tc) (validity : ValidityTime) :
    ∃ outcome base', base.applyTc now originator sender tc validity = (outcome, base')
      ∧ TcHandling base now originator sender tc validity outcome base' := by
  let origin := (base.registry.intern originator).1
  let registry := ((base.registry.intern originator).2.internAll tc.advertised.toList).2
  have horigin : (base.registry.intern originator).2.lookup? originator = some origin := by
    rw [Registry.lookup?_intern, if_pos rfl]
  have hextends : (base.registry.intern originator).2.Extends registry :=
    Registry.extends_internAll _ _
  have hregistry : base.registry.Extends registry :=
    (base.registry.extends_intern originator).trans hextends
  refine ⟨(base.applyTc now originator sender tc validity).1,
    (base.applyTc now originator sender tc validity).2, rfl, ?_⟩
  unfold applyTc
  split
  · rename_i hsender
    dsimp only [intern]
    split
    · rename_i hnewer
      exact .stale registry hsender hnewer hregistry
    · rename_i hnewer
      rw [Bool.not_eq_true] at hnewer
      have hlisted : ∀ target, target ∈ base.listed originator tc ↔
          ∃ a ∈ tc.advertised, registry.lookup? a = some target := by
        intro target
        simp only [← Std.ExtTreeSet.mem_toList]
        exact Registry.mem_internAll _
      have hslots : ∀ arc : Arc, (base.topology.record now origin tc.ansn
          (base.listed originator tc) validity.millis).2.table.slots[arc]? = _ :=
        Topology.getElem?_record hnewer validity.millis_pos _
      refine .applied _ _ hsender hregistry ⟨hextends _ _ horigin, ?_, hnewer, ?_, ?_, rfl⟩
      · intro a ha
        exact Registry.exists_lookup?_internAll _ (Std.ExtTreeSet.mem_toList.2 ha)
      · intro arc harc hannounced
        exact (hslots arc).trans (if_pos ⟨harc, (hlisted _).2 hannounced⟩)
      · intro arc hother
        refine (hslots arc).trans (if_neg ?_)
        rintro ⟨harc, htarget⟩
        exact hother ⟨harc, (hlisted _).1 htarget⟩
  · rename_i hsender
    rw [Bool.not_eq_true] at hsender
    exact .notSymmetric hsender

namespace TcApplied

variable {base base' : InformationBase} {now : Nat} {originator : Address} {tc : Tc}
  {validity : ValidityTime} {origin : NodeId}

/-- Links of others are not touched. -/
theorem slots_of_other (h : TcApplied base now originator tc validity origin base') {arc : Arc}
    (hother : arc.source ≠ origin) :
    base'.topology.table.slots[arc]? = base.topology.table.slots[arc]? := by
  rw [h.others arc fun hannounced => hother hannounced.1]
  cases base.topology.table.slots[arc]? with
  | none => rfl
  | some slot => exact Option.filter_some_pos (by simp [hother])

/-- Every live link of the originator has the number of the announcement, and it is announced or was
there before. -/
theorem eq_ansn (h : TcApplied base now originator tc validity origin base') {arc : Arc}
    {slot : Slot SeqNum} (harc : arc.source = origin)
    (hslot : base'.topology.table.slots[arc]? = some slot) (hlive : slot.isLive now = true) :
    slot.value = tc.ansn
      ∧ ((∃ a ∈ tc.advertised, base'.registry.lookup? a = some arc.target)
        ∨ base.topology.table.slots[arc]? = some slot) := by
  by_cases hannounced : ∃ a ∈ tc.advertised, base'.registry.lookup? a = some arc.target
  · rw [h.announced arc harc hannounced] at hslot
    obtain rfl := Option.some.inj hslot
    exact ⟨rfl, .inl hannounced⟩
  · rw [h.others arc fun hboth => hannounced hboth.2, Option.filter_eq_some_iff] at hslot
    obtain ⟨hold, hkept⟩ := hslot
    have holder : slot.value.isOlderThan tc.ansn = false := by simpa [hlive, harc] using hkept
    have hnewer := Topology.knowsNewer_eq_false_iff.1 h.notNewer arc slot.value
      (ExpiringTable.get?_eq_some_iff.2 ⟨slot, hold, hlive, rfl⟩) harc
    exact ⟨SeqNum.eq_of_age hnewer holder, .inr hold⟩

end TcApplied

end InformationBase

/-! ## Links between announcements -/

namespace Topology

/-- From `t` to `t'` the links of `origin` stayed as they were, but for dead ones. -/
structure Keeps (t t' : Topology) (now : Nat) (origin : NodeId) : Prop where
  old : ∀ (arc : Arc) (slot : Slot SeqNum), arc.source = origin →
    t'.table.slots[arc]? = some slot → t.table.slots[arc]? = some slot
  kept : ∀ (arc : Arc) (slot : Slot SeqNum), arc.source = origin →
    t.table.slots[arc]? = some slot → slot.isLive now = true → t'.table.slots[arc]? = some slot

variable {t t' t'' : Topology} {now later : Nat} {origin : NodeId}

theorem Keeps.of_eq (h : ∀ arc : Arc, arc.source = origin →
    t'.table.slots[arc]? = t.table.slots[arc]?) : t.Keeps t' now origin where
  old _ _ harc hslot := h _ harc ▸ hslot
  kept _ _ harc hslot _ := (h _ harc).trans hslot

theorem Keeps.of_le (h : t.Keeps t' now origin) (hle : now ≤ later) : t.Keeps t' later origin where
  old := h.old
  kept arc slot harc hslot hlive := by
    refine h.kept arc slot harc hslot ?_
    simp only [Slot.isLive, decide_eq_true_eq] at hlive ⊢
    exact Nat.lt_of_le_of_lt hle hlive

theorem Keeps.trans (h : t.Keeps t' now origin) (h' : t'.Keeps t'' now origin) :
    t.Keeps t'' now origin where
  old arc slot harc hslot := h.old arc slot harc (h'.old arc slot harc hslot)
  kept arc slot harc hslot hlive :=
    h'.kept arc slot harc (h.kept arc slot harc hslot hlive) hlive

theorem keeps_sweep (t : Topology) (now : Nat) (origin : NodeId) :
    t.Keeps (t.sweep now).2 now origin := by
  have hslots : ∀ arc : Arc, (t.sweep now).2.table.slots[arc]? =
      t.table.slots[arc]?.filter (·.isLive now) := fun _ => Std.ExtTreeMap.getElem?_filter'
  constructor
  · intro arc slot _ hslot
    rw [hslots, Option.filter_eq_some_iff] at hslot
    exact hslot.1
  · intro arc slot _ hslot hlive
    rw [hslots, hslot]
    exact Option.filter_some_pos hlive

end Topology

namespace Learner

variable {l : Learner} {e : LearnerEvent} {originator : Address} {origin : NodeId}

theorem now_le_step (l : Learner) (e : LearnerEvent) : l.now ≤ (l.step e).now := by
  cases e with
  | advance ms => exact Nat.le_add_right _ _
  | _ => exact Nat.le_refl _

theorem extends_step (l : Learner) (e : LearnerEvent) :
    l.base.registry.Extends (l.step e).base.registry := by
  cases e with
  | announcement originator sender tc validity =>
    exact (l.base.applyTc_frame l.now originator sender tc validity).1
  | register participants => exact Registry.extends_internAll _ _
  | setBandwidth id bandwidth => exact Registry.extends_setBandwidth _ _ _
  | _ => exact .refl _

/-- What is not applied, or is an announcement of somebody else, leaves live links alone. -/
theorem keeps_step (hid : l.base.registry.lookup? originator = some origin)
    (hnone : l.applied? e ≠ some originator) :
    l.base.topology.Keeps (l.step e).base.topology l.now origin := by
  cases e with
  | announcement other sender tc validity =>
    unfold step applied? at *
    dsimp only at hnone ⊢
    obtain ⟨outcome, base', happly, hhandling⟩ :=
      l.base.exists_tcHandling l.now other sender tc validity
    rw [happly] at hnone ⊢
    cases hhandling with
    | notSymmetric hsender => exact .of_eq fun _ _ => rfl
    | stale registry hsender hnewer hregistry => exact .of_eq fun _ _ => rfl
    | applied changed _ hsender hregistry happlied =>
      have hother : other ≠ originator := fun heq => hnone (congrArg some heq)
      refine .of_eq fun arc harc => happlied.slots_of_other fun heq => ?_
      -- two originators under one identifier are the same
      rw [← harc, heq] at hid
      exact hother (Registry.lookup?_injective happlied.originator (hregistry _ _ hid))
  | sweepLinks => exact Topology.keeps_sweep _ _ _
  | _ => exact .of_eq fun _ _ => rfl

/-- As long as no announcement of an originator is applied, its live links stay as they are. -/
theorem keeps_run (hid : l.base.registry.lookup? originator = some origin)
    {events : List LearnerEvent}
    (hnone : ∀ v ∈ visits step l events, v.1.applied? v.2 ≠ some originator) :
    l.now ≤ (l.run events).now
      ∧ (l.run events).base.registry.lookup? originator = some origin
      ∧ l.base.topology.Keeps (l.run events).base.topology (l.run events).now origin := by
  induction events generalizing l with
  | nil => exact ⟨Nat.le_refl _, hid, .of_eq fun _ _ => rfl⟩
  | cons e rest ih =>
    have hstep := keeps_step hid (hnone (l, e) List.mem_cons_self)
    obtain ⟨hle, hknown, hrest⟩ := ih (l.extends_step e _ _ hid)
      fun v hv => hnone v (List.mem_cons_of_mem _ hv)
    have hle' : l.now ≤ ((l.step e).run rest).now := Nat.le_trans (l.now_le_step e) hle
    exact ⟨hle', hknown, (hstep.of_le hle').trans hrest⟩

/-- The participants 10.0.0.1, 10.0.0.2 and so on. -/
def participant (n : UInt32) : Address :=
  ⟨0x0a000000 + n⟩

/-- What the first participant knows when it has just heard from the second one that the link
between them is symmetric. -/
def linked : Learner where
  now := 0
  base := ((InformationBase.start (participant 1)).applyHello 0 (participant 2)
    (.list {} ⟨.symmetric, .symmetric⟩ [participant 1]) ⟨0xe8⟩).2

end Learner

end Meshcast
