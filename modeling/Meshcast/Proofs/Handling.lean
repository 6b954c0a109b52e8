import Meshcast.Proofs.DerivedState
import Meshcast.Proofs.Identity
import Meshcast.Proofs.LinkSensing

/-!
# Meshcast — what the handling of a packet leaves behind

Handling a packet has few effects: participants become known, one message is marked, links of one
originator are replaced. This module says so slot by slot.

* **`SeqNum.eq_of_age`**, **`SeqNum.not_isNewerThan_count`** — numbers that were counted up from
  each other by little are told apart, and in the right order.
* **`Topology.getElem?_record`**, **`Topology.isSome_get?_record`** — the links after an
  announcement.
* **`Node.KeepsOwn`** — what belongs to the node itself is untouched.
* **`Node.mentioned_of_lookup?`**, **`Node.marked_of_slot`** — who becomes known, what is marked.
-/

namespace Meshcast

/-! ## Sequence numbers that are counted up -/

namespace SeqNum

/-- The number that is reached from zero in so many steps. -/
def count (k : ℕ) : SeqNum :=
  ⟨UInt16.ofNat k⟩

theorem next_count (k : ℕ) : (count k).next = count (k + 1) := by
  unfold count next
  rw [UInt16.ofNat_add]
  rfl

theorem count_eq_iff {k l : ℕ} : count k = count l ↔ k % 65536 = l % 65536 := by
  unfold count
  rw [SeqNum.mk.injEq, ← UInt16.toNat_inj, UInt16.toNat_ofNat', UInt16.toNat_ofNat']

/-- A number that is little ahead is not the older one. -/
theorem not_isNewerThan_count {k l : ℕ} (hle : k ≤ l) (hnear : l < k + 32768) :
    (count k).isNewerThan (count l) = false := by
  unfold isNewerThan age count
  have hk : (UInt16.ofNat k).toNat = k % 65536 := UInt16.toNat_ofNat'
  have hl : (UInt16.ofNat l).toNat = l % 65536 := UInt16.toNat_ofNat'
  dsimp only
  split
  · rfl
  · split
    · rename_i hlt
      have hlt' := UInt16.lt_iff_toNat_lt.1 hlt
      have hfar : ¬UInt16.ofNat k - UInt16.ofNat l ≤ maxLead := by
        rw [UInt16.le_iff_toNat_le, UInt16.toNat_sub_of_le _ _ (UInt16.le_of_lt hlt), hk, hl]
        show ¬_ ≤ 32767
        omega
      rw [if_neg hfar]
      rfl
    · rename_i hne hlt
      have hne' : ¬(UInt16.ofNat k).toNat = (UInt16.ofNat l).toNat := mt UInt16.toNat_inj.1 hne
      have hlt' := mt UInt16.lt_iff_toNat_lt.2 hlt
      have hclose : UInt16.ofNat l - UInt16.ofNat k ≤ maxLead := by
        have hle' : UInt16.ofNat k ≤ UInt16.ofNat l := UInt16.not_lt.1 hlt
        rw [UInt16.le_iff_toNat_le, UInt16.toNat_sub_of_le _ _ hle', hk, hl]
        show _ ≤ 32767
        omega
      rw [if_pos hclose]
      rfl

/-- Of two different numbers, one is the older. -/
theorem eq_of_age {a b : SeqNum} (hnewer : a.isNewerThan b = false)
    (holder : a.isOlderThan b = false) : a = b := by
  unfold isNewerThan isOlderThan age at *
  by_cases heq : a.value = b.value
  · cases a
    cases b
    exact congrArg SeqNum.mk heq
  · rw [if_neg heq] at hnewer holder
    split at hnewer
    · split at hnewer
      · nomatch hnewer
      · rename_i hlt hfar
        rw [if_pos hlt, if_neg hfar] at holder
        nomatch holder
    · split at hnewer
      · rename_i hlt hclose
        rw [if_neg hlt, if_pos hclose] at holder
        nomatch holder
      · nomatch hnewer

end SeqNum

/-! ## Links after an announcement -/

theorem Slot.isLive_deadline {ν : Type} (value : ν) (now : ℕ) {lifetime : ℕ} (h : 0 < lifetime) :
    ({ value, expiresAt := deadline now lifetime } : Slot ν).isLive now = true := by
  apply decide_eq_true
  show now < now + min lifetime maxLifetime
  unfold maxLifetime
  omega

namespace Topology

variable {ansn : SeqNum} {lifetime now : ℕ} {originator : NodeId}

theorem getElem?_recordArcs (hlifetime : 0 < lifetime) (arcs : List Arc)
    (tx : Transaction Arc SeqNum) (arc : Arc) :
    (arcs.foldl (recordArc ansn lifetime) tx).table.slots[arc]? =
      if arc ∈ arcs then some ⟨(tx.get? arc).getD ansn, deadline tx.now lifetime⟩
      else tx.table.slots[arc]? := by
  induction arcs generalizing tx with
  | nil => rfl
  | cons first rest ih =>
    have hnow : (recordArc ansn lifetime tx first).now = tx.now := by rw [recordArc_eq]
    rw [List.foldl_cons, ih, hnow]
    by_cases hrest : arc ∈ rest
    · rw [if_pos hrest, if_pos (List.mem_cons_of_mem _ hrest)]
      -- a link that is recorded again has the number that it got the first time
      have hget : ((recordArc ansn lifetime tx first).get? arc).getD ansn
          = (tx.get? arc).getD ansn := by
        unfold Transaction.get? ExpiringTable.get?
        rw [getElem?_recordArc, hnow]
        split
        · rename_i heq
          subst heq
          simp only [Option.filter_some, Slot.isLive_deadline _ _ hlifetime, if_true,
            Option.map_some, Option.getD_some]
          rfl
        · rfl
      rw [hget]
    · rw [if_neg hrest, getElem?_recordArc]
      by_cases hfirst : first = arc
      · subst hfirst
        rw [if_pos rfl, if_pos List.mem_cons_self]
      · have hnone : arc ∉ first :: rest := by
          rw [List.mem_cons, not_or]
          exact ⟨Ne.symm hfirst, hrest⟩
        rw [if_neg hfirst, if_neg hnone]

/-- If nothing newer is known, the announced links have the announced number, and others stay if
they are no older links of the originator. -/
theorem getElem?_record {t : Topology} (h : t.knowsNewer now originator ansn = false)
    (hlifetime : 0 < lifetime) (advertised : List NodeId) (arc : Arc) :
    (t.record now originator ansn advertised lifetime).2.table.slots[arc]? =
      if arc.source = originator ∧ arc.target ∈ advertised then
        some ⟨ansn, deadline now lifetime⟩
      else t.table.slots[arc]?.filter fun slot =>
        !slot.isLive now || (arc.source ≠ originator || !slot.value.isOlderThan ansn) := by
  let tx := ((t.table.transaction now).retain fun arc known =>
    arc.source ≠ originator || !known.isOlderThan ansn).2
  have hunder : AnnouncedUnder ansn originator tx := announcedUnder_retain h
  have hmem : arc ∈ advertised.map (⟨originator, ·⟩ : NodeId → Arc) ↔
      arc.source = originator ∧ arc.target ∈ advertised := by
    rw [List.mem_map]
    constructor
    · rintro ⟨target, htarget, rfl⟩
      exact ⟨rfl, htarget⟩
    · rintro ⟨rfl, htarget⟩
      exact ⟨arc.target, htarget, rfl⟩
  show ((advertised.map (⟨originator, ·⟩)).foldl (recordArc ansn lifetime) tx).table.slots[arc]? = _
  rw [getElem?_recordArcs hlifetime]
  simp only [hmem]
  split
  · rename_i hannounced
    have hnumber : (tx.get? arc).getD ansn = ansn := by
      cases hget : tx.get? arc with
      | none => rfl
      | some known =>
        obtain ⟨hnewer, holder⟩ := hunder arc known hget hannounced.1
        exact SeqNum.eq_of_age hnewer holder
    rw [hnumber]
    rfl
  · exact Std.ExtTreeMap.getElem?_filter'

/-- Of the originator, the announced links are known then, and those that are not older. -/
theorem isSome_get?_record {t : Topology} (h : t.knowsNewer now originator ansn = false)
    (hlifetime : 0 < lifetime) {advertised : List NodeId} {arc : Arc}
    (harc : arc.source = originator) :
    ((t.record now originator ansn advertised lifetime).2.get? now arc).isSome = true ↔
      arc.target ∈ advertised
        ∨ ∃ known, t.get? now arc = some known ∧ known.isOlderThan ansn = false := by
  have hslot := getElem?_record h hlifetime advertised arc
  generalize (t.record now originator ansn advertised lifetime).2 = t' at hslot ⊢
  rw [Option.isSome_iff_exists]
  by_cases htarget : arc.target ∈ advertised
  · refine iff_of_true ?_ (.inl htarget)
    rw [if_pos ⟨harc, htarget⟩] at hslot
    exact ⟨ansn, ExpiringTable.get?_eq_some_iff.2
      ⟨_, hslot, Slot.isLive_deadline _ _ hlifetime, rfl⟩⟩
  · rw [or_iff_right htarget]
    rw [if_neg fun hannounced => htarget hannounced.2] at hslot
    refine exists_congr fun known => ?_
    constructor
    · intro hget
      obtain ⟨slot, hstayed, hlive, rfl⟩ := ExpiringTable.get?_eq_some_iff.1 hget
      rw [hslot, Option.filter_eq_some_iff] at hstayed
      exact ⟨ExpiringTable.get?_eq_some_iff.2 ⟨slot, hstayed.1, hlive, rfl⟩,
        by simpa [hlive, harc] using hstayed.2⟩
    · rintro ⟨hget, holder⟩
      obtain ⟨slot, hold, hlive, rfl⟩ := ExpiringTable.get?_eq_some_iff.1 hget
      refine ExpiringTable.get?_eq_some_iff.2 ⟨slot, hslot.trans ?_, hlive, rfl⟩
      exact Option.filter_eq_some_iff.2 ⟨hold, by simp [hlive, holder]⟩

end Topology

/-! ## Selectors -/

namespace Selectors

/-- The number stays, and the flag tells of every change. -/
structure Noted (s s' : Selectors) : Prop where
  ansn_eq : s'.ansn = s.ansn
  quiet : s'.set.changed = false → s' = s

theorem Noted.refl (s : Selectors) : Noted s s :=
  ⟨rfl, fun _ => rfl⟩

theorem Noted.trans {s₁ s₂ s₃ : Selectors} (h₁ : Noted s₁ s₂) (h₂ : Noted s₂ s₃) : Noted s₁ s₃ where
  ansn_eq := h₂.ansn_eq.trans h₁.ansn_eq
  quiet h := by
    have heq := h₂.quiet h
    rw [heq] at h ⊢
    exact h₁.quiet h

theorem noted_update (s : Selectors) (f : NodeSet → NodeSet) : Noted s (s.update f).2 := by
  unfold update FlaggedSet.update FlaggedSet.replace
  dsimp only
  split
  · exact .refl s
  · exact ⟨rfl, nofun⟩

end Selectors

namespace InformationBase

theorem announced_applyHello (base : InformationBase) (now : Nat) (source : Address) (hello : Hello)
    (validity : ValidityTime) :
    (base.applyHello now source hello validity).2.topology = base.topology
      ∧ (base.applyHello now source hello validity).2.groups = base.groups := by
  unfold applyHello
  dsimp only
  split
  · exact ⟨rfl, rfl⟩
  · exact ⟨rfl, rfl⟩

end InformationBase

/-! ## What belongs to the node itself -/

namespace Node

/-- The parameters and the numbers of the node's packets stay, and changes of the selectors are
noted. -/
structure KeepsOwn (node node' : Node) : Prop where
  config_eq : node'.config = node.config
  origin_eq : node'.origin = node.origin
  selectors : node.selectors.Noted node'.selectors

theorem KeepsOwn.refl (node : Node) : KeepsOwn node node :=
  ⟨rfl, rfl, .refl _⟩

theorem KeepsOwn.trans {node₁ node₂ node₃ : Node} (h₁ : KeepsOwn node₁ node₂)
    (h₂ : KeepsOwn node₂ node₃) : KeepsOwn node₁ node₃ :=
  ⟨h₂.config_eq.trans h₁.config_eq, h₂.origin_eq.trans h₁.origin_eq,
    h₁.selectors.trans h₂.selectors⟩

theorem noted_recordSelector {base : InformationBase} {s : Selectors} (hs : base.selectors = s)
    (now : Nat) (sender : NodeId) (chosen : Bool) :
    s.Noted (base.recordSelector now sender chosen).selectors := by
  subst hs
  unfold InformationBase.recordSelector
  dsimp only
  exact Selectors.noted_update _ _

theorem noted_selectors_applyHello (base : InformationBase) (now : Nat) (source : Address)
    (hello : Hello) (validity : ValidityTime) :
    base.selectors.Noted (base.applyHello now source hello validity).2.selectors := by
  unfold InformationBase.applyHello
  dsimp only
  split
  · exact .refl _
  · refine noted_recordSelector ?_ now _ _
    rfl

theorem keepsOwn_receivePacket (node : Node) (now : Nat) (packet : Packet) (neighbor : Address) :
    KeepsOwn node (node.receivePacket now packet neighbor).2 := by
  have hreceived := node.received_receivePacket now packet neighbor
  generalize (node.receivePacket now packet neighbor).2 = node' at hreceived ⊢
  cases hreceived with
  | own => exact .refl node
  | repeated => exact ⟨rfl, rfl, .refl _⟩
  | greeted hello =>
    exact ⟨rfl, rfl, noted_selectors_applyHello (node.acquainted packet) now neighbor hello
      packet.header.validity⟩
  | announced tc sent base duplicates _ _ _ h => exact ⟨rfl, rfl, h.selectors ▸ .refl _⟩

theorem keepsOwn_recompute (node : Node) (now : Nat) : KeepsOwn node (node.recompute now).2 := by
  have hrelays : KeepsOwn node (node.updateRelays now) := by
    unfold updateRelays
    dsimp only
    split
    · exact ⟨rfl, rfl, .refl _⟩
    · exact .refl node
  refine hrelays.trans ?_
  unfold recompute
  dsimp only
  split
  · exact ⟨rfl, rfl, .refl _⟩
  · split <;> exact ⟨rfl, rfl, .refl _⟩

theorem keepsOwn_sweep (node : Node) (now : Nat) : KeepsOwn node (node.sweep now).2 :=
  ⟨rfl, rfl, Selectors.noted_update _ _⟩

/-- Nothing changes the parameters. -/
theorem config_perform (node : Node) (now : Nat) (op : Operation) :
    (node.perform now op).config = node.config := by
  cases op with
  | receiveControl bytes neighbor =>
    unfold perform receiveControl
    dsimp only
    split
    · exact (keepsOwn_receivePacket node now _ neighbor).config_eq
    · rfl
  | receivePacket packet neighbor => exact (keepsOwn_receivePacket node now packet neighbor).config_eq
  | recompute => exact (keepsOwn_recompute node now).config_eq
  | receiveData bytes =>
    unfold perform
    dsimp only
    split <;> rfl
  | _ => rfl

theorem config_run (address : Address) (config : Config) (since : Nat) (ops : List Operation) :
    ((Moment.start address config since).run ops).node.config = config :=
  Moment.run_induction (P := fun m => m.node.config = config) rfl
    (fun m op h => (config_perform m.node m.now op).trans h) ops

end Node

/-! ## Who becomes known -/

/-- A packet says something about an address. -/
def Packet.Mentions (packet : Packet) (a : Address) : Prop :=
  packet.header.originator = a ∨
    match packet.body with
    | .hello hello => ∃ code, a ∈ hello.listedUnder code
    | .tc tc => a ∈ tc.advertised

theorem Registry.lookup?_of_intern {r : Registry} {a b : Address} {id : NodeId}
    (h : (r.intern a).2.lookup? b = some id) : r.lookup? b = some id ∨ a = b := by
  rw [lookup?_intern] at h
  split at h
  · exact .inr ‹_›
  · exact .inl h

theorem Registry.lookup?_of_internAll {r : Registry} {addresses : List Address} {a : Address}
    {id : NodeId} (h : (r.internAll addresses).2.lookup? a = some id) :
    r.lookup? a = some id ∨ a ∈ addresses := by
  induction addresses generalizing r with
  | nil => exact .inl h
  | cons first rest ih =>
    rcases ih h with hknown | hmem
    · rcases lookup?_of_intern hknown with hknown | rfl
      · exact .inl hknown
      · exact .inr List.mem_cons_self
    · exact .inr (List.mem_cons_of_mem _ hmem)

theorem Registry.exists_address?_of_mem_internAll {r : Registry} {addresses : List Address}
    {id : NodeId} (h : id ∈ (r.internAll addresses).1) :
    ∃ a ∈ addresses, (r.internAll addresses).2.address? id = some a := by
  have hmem : (r.internAll addresses).2.address? id ∈ addresses.map some := by
    rw [← address?_internAll]
    exact List.mem_map_of_mem h
  obtain ⟨a, ha, heq⟩ := List.mem_map.1 hmem
  exact ⟨a, ha, heq.symm⟩

namespace Node

/-- Whoever becomes known is the neighbor, or somebody of whom the packet says something. -/
theorem mentioned_of_lookup? {node : Node} {now : Nat} {packet : Packet} {neighbor a : Address}
    {id : NodeId} (h : (node.receivePacket now packet neighbor).2.registry.lookup? a = some id) :
    node.registry.lookup? a = some id ∨ neighbor = a ∨ packet.Mentions a := by
  have hacquainted : (node.acquainted packet).registry.lookup? a = some id →
      node.registry.lookup? a = some id ∨ neighbor = a ∨ packet.Mentions a := by
    intro hlookup
    rcases Registry.lookup?_of_intern hlookup with hknown | horiginator
    · exact .inl hknown
    · exact .inr (.inr (.inl horiginator))
  have hreceived := node.received_receivePacket now packet neighbor
  generalize (node.receivePacket now packet neighbor).2 = node' at hreceived h
  cases hreceived with
  | own => exact .inl h
  | repeated => exact hacquainted h
  | greeted hello hbody =>
    have happly : ((node.acquainted packet).applyHello now neighbor hello
        packet.header.validity).2.registry.lookup? a = some id := h
    unfold InformationBase.applyHello at happly
    dsimp only at happly
    split at happly
    · rcases Registry.lookup?_of_intern happly with hknown | heq
      · exact hacquainted hknown
      · exact .inr (.inl heq)
    · rcases Registry.lookup?_of_internAll happly with hknown | hmem
      · rcases Registry.lookup?_of_intern hknown with hknown | heq
        · exact hacquainted hknown
        · exact .inr (.inl heq)
      · obtain ⟨⟨code, a'⟩, hlisted, rfl⟩ :=
          List.mem_map.1 (by rwa [List.unzip_eq_map] at hmem)
        refine .inr (.inr (.inr ?_))
        rw [hbody]
        exact ⟨code, Hello.mem_listings.1 hlisted⟩
  | announced tc sent base duplicates hbody _ _ hhandled =>
    rw [hhandled.registry] at h
    split at h
    · rcases Registry.lookup?_of_internAll h with hknown | hmem
      · exact hacquainted hknown
      · refine .inr (.inr (.inr ?_))
        rw [hbody]
        exact Std.ExtTreeSet.mem_toList.1 hmem
    · exact hacquainted h

/-! ## What is marked -/

theorem marked_of_mark {d : Duplicates} {now : Nat} {id other : MessageId} {sent : Bool}
    {slot : Slot Bool} (h : (d.mark now id sent).marks.slots[other]? = some slot) :
    d.marks.slots[other]? = some slot
      ∨ other = id ∧ slot.expiresAt = deadline now d.holdTime := by
  rw [Duplicates.slots_mark, Std.ExtTreeMap.getElem?_insert] at h
  split at h
  · rename_i heq
    exact .inr ⟨(Std.compare_eq_iff_eq.1 heq).symm, (Option.some.inj h) ▸ rfl⟩
  · exact .inl h

/-- Whatever is marked is the packet, or was marked before. -/
theorem marked_of_slot {node : Node} {now : Nat} {packet : Packet} {neighbor : Address}
    {id : MessageId} {slot : Slot Bool}
    (h : (node.receivePacket now packet neighbor).2.duplicates.marks.slots[id]? = some slot) :
    node.duplicates.marks.slots[id]? = some slot
      ∨ id = node.messageId packet
        ∧ (node.receivePacket now packet neighbor).2.registry.address? id.originator
          = some packet.header.originator
        ∧ slot.expiresAt = deadline now node.duplicates.holdTime := by
  have horiginator : (node.acquainted packet).registry.address? (node.messageId packet).originator
      = some packet.header.originator := by
    rw [← Registry.lookup?_eq_some_iff]
    show (node.registry.intern packet.header.originator).2.lookup? packet.header.originator = _
    rw [Registry.lookup?_intern, if_pos rfl]
    rfl
  have hreceived := node.received_receivePacket now packet neighbor
  generalize (node.receivePacket now packet neighbor).2 = node' at hreceived h ⊢
  cases hreceived with
  | own => exact .inl h
  | repeated => exact .inl h
  | greeted hello =>
    have happly := InformationBase.grows_applyHello (node.acquainted packet) now neighbor hello
      packet.header.validity
    refine (marked_of_mark (d := node.duplicates) h).imp_right ?_
    rintro ⟨rfl, hexpires⟩
    exact ⟨rfl, happly.registry.address? horiginator, hexpires⟩
  | announced tc sent base duplicates _ _ _ hhandled =>
    rw [hhandled.duplicates] at h
    split at h
    · exact .inl h
    · refine (marked_of_mark h).imp_right ?_
      rintro ⟨rfl, hexpires⟩
      exact ⟨rfl, hhandled.extends_acquainted.address? horiginator, hexpires⟩

/-! ## Which links are recorded -/

/-- Whatever link is recorded was announced just now, or was recorded before. -/
theorem announced_of_slot {node : Node} {now : Nat} {packet : Packet} {neighbor : Address}
    {arc : Arc} {slot : Slot SeqNum}
    (h : (node.receivePacket now packet neighbor).2.topology.table.slots[arc]? = some slot) :
    node.topology.table.slots[arc]? = some slot
      ∨ ∃ tc, packet.body = .tc tc ∧ packet.header.originator ≠ node.address
        ∧ (node.receivePacket now packet neighbor).2.registry.address? arc.source
          = some packet.header.originator
        ∧ (∃ a ∈ tc.advertised,
          (node.receivePacket now packet neighbor).2.registry.address? arc.target = some a)
        ∧ slot = ⟨tc.ansn, deadline now packet.header.validity.millis⟩ := by
  have hreceived := node.received_receivePacket now packet neighbor
  generalize (node.receivePacket now packet neighbor).2 = node' at hreceived h ⊢
  cases hreceived with
  | own => exact .inl h
  | repeated => exact .inl h
  | greeted hello =>
    have happly : ((node.acquainted packet).applyHello now neighbor hello
        packet.header.validity).2.topology.table.slots[arc]? = some slot := h
    rw [((node.acquainted packet).announced_applyHello now neighbor hello _).1] at happly
    exact .inl happly
  | announced tc sent base duplicates hbody hforeign _ hhandled =>
    have hlearned := hhandled.learned
    have hregistry := hhandled.registry
    split at hlearned
    · rename_i hlearns
      rw [if_pos hlearns] at hregistry
      have htopology := congrArg Prod.fst hlearned
      dsimp only at htopology
      rw [htopology] at h
      unfold InformationBase.learn at h
      dsimp only at h
      split at h
      · exact .inl h
      · rename_i hnewer
        rw [Bool.not_eq_true] at hnewer
        rw [Topology.getElem?_record hnewer packet.header.validity.millis_pos] at h
        split at h
        · rename_i hannounced
          right
          refine ⟨tc, hbody, hforeign, ?_, ?_, (Option.some.inj h).symm⟩
          · rw [hregistry, hannounced.1]
            refine (Registry.extends_internAll _ _).address? ?_
            rw [← Registry.lookup?_eq_some_iff, Registry.lookup?_intern, if_pos rfl]
          · obtain ⟨a, ha, hid⟩ := Registry.exists_address?_of_mem_internAll hannounced.2
            exact ⟨a, Std.ExtTreeSet.mem_toList.1 ha, hregistry ▸ hid⟩
        · exact .inl (Option.filter_eq_some_iff.1 h).1
    · rw [Prod.mk.injEq] at hlearned
      rw [hlearned.1] at h
      exact .inl h

/-- An announcement of no groups leaves no memberships where there were none. -/
theorem rows_receivePacket {node : Node} (now : Nat) {packet : Packet} (neighbor : Address)
    (hrows : node.groups.rows = ∅) (hgroups : ∀ tc, packet.body = .tc tc → tc.groups = ∅) :
    (node.receivePacket now packet neighbor).2.groups.rows = ∅ := by
  have hreceived := node.received_receivePacket now packet neighbor
  generalize (node.receivePacket now packet neighbor).2 = node' at hreceived ⊢
  cases hreceived with
  | own => exact hrows
  | repeated => exact hrows
  | greeted hello =>
    show ((node.acquainted packet).applyHello now neighbor hello
      packet.header.validity).2.groups.rows = ∅
    rw [((node.acquainted packet).announced_applyHello now neighbor hello _).2]
    exact hrows
  | announced tc sent base duplicates hbody _ _ h =>
    have hlearned := congrArg Prod.snd h.learned
    dsimp only at hlearned
    rw [hlearned]
    split
    · unfold InformationBase.learn
      dsimp only
      split
      · exact hrows
      · have hjoined : ∀ id, node.groups.joined id = tc.groups := by
          intro id
          rw [hgroups tc hbody]
          exact Groups.joined_of_no_row _ (by rw [hrows]; rfl)
        rw [Groups.update_eq, if_pos (hjoined _)]
        exact hrows
    · exact hrows

end Node

end Meshcast
