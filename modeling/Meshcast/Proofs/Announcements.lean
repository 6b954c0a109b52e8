import Meshcast.Proofs.Comparisons
import Meshcast.Proofs.Expiring
import Meshcast.Proofs.Registry
import Meshcast.TopologyDiscovery

/-!
# Meshcast — what an announcement does to links and memberships

What a node learns from an announcement does not depend on the neighbor that passed it on, and to
learn it a second time at the same reading of the clock adds nothing.

* **`learn`** — links and memberships once an announcement was taken note of.
* **`applyTc_of_symmetric`**, **`applyTc_of_not_symmetric`** — handling an announcement is learning
  from it if the neighbor is symmetric, and nothing otherwise.
* **`learn_learn`** — learning is idempotent.
-/

namespace Meshcast

/-! ## Recording links -/

namespace SeqNum

theorem age_self (a : SeqNum) : a.isNewerThan a = false ∧ a.isOlderThan a = false := by
  unfold isNewerThan isOlderThan age
  rw [if_pos rfl]
  exact ⟨rfl, rfl⟩

end SeqNum

namespace Topology

variable {ansn : SeqNum} {lifetime now : Nat} {originator : NodeId}

theorem mem_arcs {t : Topology} {arc : Arc} :
    arc ∈ t.arcs now ↔ (t.get? now arc).isSome = true := by
  unfold arcs ExpiringTable.keys
  rw [Std.ExtTreeMap.mem_keys, Std.ExtTreeMap.mem_iff_isSome_getElem?, ExpiringTable.getElem?_live]
  rfl

theorem recordArc_eq (tx : Transaction Arc SeqNum) (arc : Arc) :
    recordArc ansn lifetime tx arc =
      { table := ⟨tx.table.slots.insert arc
          ⟨(tx.get? arc).getD ansn, deadline tx.now lifetime⟩⟩
        now := tx.now
        changed := tx.changed || (tx.get? arc).isNone } := by
  unfold recordArc Transaction.refresh
  cases hget : tx.get? arc with
  | none =>
    have hdead : tx.contains arc = false := by
      show (tx.get? arc).isSome = false
      rw [hget]; rfl
    simp only [Transaction.insert, hdead, Bool.false_eq_true, if_false, Option.getD_none,
      Option.isNone_none, Bool.or_true]
  | some known => simp only [Option.getD_some, Option.isNone_some, Bool.or_false]

/-- All live links of an originator were announced under the same number as far as age goes. -/
def AnnouncedUnder (ansn : SeqNum) (originator : NodeId) (tx : Transaction Arc SeqNum) : Prop :=
  ∀ (arc : Arc) (known : SeqNum), tx.get? arc = some known → arc.source = originator →
    known.isNewerThan ansn = false ∧ known.isOlderThan ansn = false

/-- A link was recorded just now. -/
def RecordedNow (lifetime : Nat) (tx : Transaction Arc SeqNum) (arc : Arc) : Prop :=
  ∃ known, tx.table.slots[arc]? = some ⟨known, deadline tx.now lifetime⟩

theorem getElem?_recordArc (tx : Transaction Arc SeqNum) (arc other : Arc) :
    (recordArc ansn lifetime tx arc).table.slots[other]? =
      if arc = other then some ⟨(tx.get? arc).getD ansn, deadline tx.now lifetime⟩
      else tx.table.slots[other]? := by
  rw [recordArc_eq]
  show (tx.table.slots.insert arc _)[other]? = _
  rw [Std.ExtTreeMap.getElem?_insert]
  simp only [Std.compare_eq_iff_eq]

theorem announcedUnder_recordArc {tx : Transaction Arc SeqNum}
    (h : AnnouncedUnder ansn originator tx) (lifetime : Nat) (arc : Arc) :
    AnnouncedUnder ansn originator (recordArc ansn lifetime tx arc) := by
  -- a live link keeps its number, and any other link gets the announced one
  intro other known hknown hsource
  have hnow : (recordArc ansn lifetime tx arc).now = tx.now := by rw [recordArc_eq]
  obtain ⟨slot, hslot, hlive, rfl⟩ := ExpiringTable.get?_eq_some_iff.1 hknown
  rw [getElem?_recordArc] at hslot
  split at hslot
  · subst other
    cases hslot
    cases hget : tx.get? arc with
    | none => exact ansn.age_self
    | some old => exact h arc old hget hsource
  · rw [hnow] at hlive
    exact h other slot.value (ExpiringTable.get?_eq_some_iff.2 ⟨slot, hslot, hlive, rfl⟩) hsource

theorem RecordedNow.recordArc {tx : Transaction Arc SeqNum} {arc : Arc}
    (h : RecordedNow lifetime tx arc) (other : Arc) :
    RecordedNow lifetime (recordArc ansn lifetime tx other) arc := by
  unfold RecordedNow
  have hnow : (Topology.recordArc ansn lifetime tx other).now = tx.now := by rw [recordArc_eq]
  rw [getElem?_recordArc, hnow]
  split
  · exact ⟨_, rfl⟩
  · exact h

/-- What recording a list of links establishes. -/
theorem recordArcs_spec (lifetime : Nat) (arcs : List Arc) {tx : Transaction Arc SeqNum}
    (h : AnnouncedUnder ansn originator tx) :
    let tx' := arcs.foldl (recordArc ansn lifetime) tx
    tx'.now = tx.now ∧ AnnouncedUnder ansn originator tx'
      ∧ ∀ arc, arc ∈ arcs ∨ RecordedNow lifetime tx arc → RecordedNow lifetime tx' arc := by
  induction arcs generalizing tx with
  | nil => exact ⟨rfl, h, fun arc harc => harc.resolve_left List.not_mem_nil⟩
  | cons first rest ih =>
    obtain ⟨hnow, hunder, hrecorded⟩ :=
      ih (announcedUnder_recordArc h lifetime first)
    have hfirst : (recordArc ansn lifetime tx first).now = tx.now := by rw [recordArc_eq]
    refine ⟨hnow.trans hfirst, hunder, ?_⟩
    intro arc harc
    apply hrecorded
    rcases harc with hmem | hknown
    · rcases List.mem_cons.1 hmem with rfl | hmem
      · right
        exact ⟨(tx.get? arc).getD ansn, by rw [getElem?_recordArc, if_pos rfl, hfirst]⟩
      · exact .inl hmem
    · exact .inr (hknown.recordArc first)

theorem recordArcs_eq_self (hlifetime : 0 < lifetime) (arcs : List Arc)
    {tx : Transaction Arc SeqNum} (h : ∀ arc ∈ arcs, RecordedNow lifetime tx arc) :
    arcs.foldl (recordArc ansn lifetime) tx = tx := by
  induction arcs with
  | nil => rfl
  | cons first rest ih =>
    obtain ⟨known, hknown⟩ := h first List.mem_cons_self
    -- recorded now with a lifetime, it is alive now
    have hget : tx.get? first = some known := by
      refine ExpiringTable.get?_eq_some_iff.2 ⟨_, hknown, ?_, rfl⟩
      apply decide_eq_true
      show tx.now < tx.now + min lifetime maxLifetime
      unfold maxLifetime
      omega
    have hfirst : recordArc ansn lifetime tx first = tx := by
      rw [recordArc_eq, hget]
      simp only [Option.getD_some, Option.isNone_some, Bool.or_false, insert_eq_self hknown]
    rw [List.foldl_cons, hfirst]
    exact ih fun arc harc => h arc (List.mem_cons_of_mem _ harc)

theorem knowsNewer_eq_false_iff {t : Topology} :
    t.knowsNewer now originator ansn = false ↔
      ∀ (arc : Arc) (known : SeqNum), t.get? now arc = some known → arc.source = originator →
        known.isNewerThan ansn = false := by
  unfold knowsNewer get?
  rw [List.any_eq_false]
  constructor
  · intro h arc known hknown hsource
    have hmem : (arc, known) ∈ (t.table.live now).toList := by
      rw [Std.ExtTreeMap.mem_toList_iff_getElem?_eq_some, ExpiringTable.getElem?_live]
      exact hknown
    simpa [hsource] using h (arc, known) hmem
  · rintro h ⟨arc, known⟩ hmem
    rw [Std.ExtTreeMap.mem_toList_iff_getElem?_eq_some, ExpiringTable.getElem?_live] at hmem
    simpa using h arc known hmem

theorem announcedUnder_retain {t : Topology} (h : t.knowsNewer now originator ansn = false) :
    AnnouncedUnder ansn originator
      ((t.table.transaction now).retain fun arc known =>
        arc.source ≠ originator || !known.isOlderThan ansn).2 := by
  intro arc known hknown hsource
  obtain ⟨slot, hslot, hlive, rfl⟩ := ExpiringTable.get?_eq_some_iff.1 hknown
  simp only [Transaction.retain, Transaction.restrict, Std.ExtTreeMap.getElem?_filter',
    Option.filter_eq_some_iff] at hslot
  obtain ⟨hslot, hkept⟩ := hslot
  have hlive : slot.isLive now = true := hlive
  constructor
  · exact knowsNewer_eq_false_iff.1 h arc slot.value
      (ExpiringTable.get?_eq_some_iff.2 ⟨slot, hslot, hlive, rfl⟩) hsource
  · simpa [ExpiringTable.transaction, hlive, hsource] using hkept

theorem retain_eq_self {tx : Transaction Arc SeqNum} (h : AnnouncedUnder ansn originator tx) :
    (tx.retain fun arc known => arc.source ≠ originator || !known.isOlderThan ansn).2 = tx := by
  -- dead links are kept anyway; live ones of the originator are not older
  have hslots : (tx.table.slots.filter fun arc slot => !slot.isLive tx.now
      || (arc.source ≠ originator || !slot.value.isOlderThan ansn)) = tx.table.slots := by
    apply Std.ExtTreeMap.ext_getElem?
    intro arc
    rw [Std.ExtTreeMap.getElem?_filter']
    cases hslot : tx.table.slots[arc]? with
    | none => rfl
    | some slot =>
      refine Option.filter_some_pos ?_
      cases hlive : slot.isLive tx.now with
      | false => rfl
      | true =>
        by_cases hsource : arc.source = originator
        · obtain ⟨-, holder⟩ := h arc slot.value
            (ExpiringTable.get?_eq_some_iff.2 ⟨slot, hslot, hlive, rfl⟩) hsource
          simp [holder]
        · simp [hsource]
  unfold Transaction.retain Transaction.restrict
  simp only [hslots, Nat.sub_self, Nat.lt_irrefl, decide_false, Bool.or_false]

/-- Replacing the links of an originator twice is replacing them once. -/
theorem record_record {t : Topology} (h : t.knowsNewer now originator ansn = false)
    (hlifetime : 0 < lifetime) (advertised : List NodeId) :
    let t' := (t.record now originator ansn advertised lifetime).2
    t'.knowsNewer now originator ansn = false
      ∧ (t'.record now originator ansn advertised lifetime).2 = t' := by
  intro t'
  let arcs : List Arc := advertised.map (⟨originator, ·⟩)
  let retained := ((t.table.transaction now).retain fun arc known =>
    arc.source ≠ originator || !known.isOlderThan ansn).2
  let tx := arcs.foldl (recordArc ansn lifetime) retained
  have ht' : t' = t.commit tx := rfl
  obtain ⟨hnow, hunder, hrecorded⟩ :=
    recordArcs_spec lifetime arcs (announcedUnder_retain h)
  have hnow : tx.now = now := hnow
  -- the second time, the transaction starts from the table that the first one left
  let again : Transaction Arc SeqNum := t'.table.transaction now
  have hget : ∀ arc, again.get? arc = tx.get? arc := by
    intro arc
    show tx.table.get? now arc = tx.table.get? tx.now arc
    rw [hnow]
  have hunderAgain : AnnouncedUnder ansn originator again := by
    intro arc known hknown
    rw [hget] at hknown
    exact hunder arc known hknown
  have hrecordedAgain : ∀ arc ∈ arcs, RecordedNow lifetime again arc := by
    intro arc harc
    obtain ⟨known, hknown⟩ := hrecorded arc (.inl harc)
    have hknown : tx.table.slots[arc]? = some ⟨known, deadline tx.now lifetime⟩ := hknown
    rw [hnow] at hknown
    exact ⟨known, hknown⟩
  constructor
  · rw [knowsNewer_eq_false_iff]
    intro arc known hknown hsource
    exact (hunderAgain arc known hknown hsource).1
  · show t'.commit (arcs.foldl (recordArc ansn lifetime) (again.retain fun arc known =>
      arc.source ≠ originator || !known.isOlderThan ansn).2) = t'
    rw [retain_eq_self hunderAgain, recordArcs_eq_self hlifetime arcs hrecordedAgain]
    show ({ table := t'.table, changed := t'.changed || false } : Topology) = t'
    rw [Bool.or_false]

end Topology

/-! ## Learning from announcements -/

theorem ValidityTime.millis_pos (v : ValidityTime) : 0 < v.millis := by
  unfold millis
  rw [Nat.shiftLeft_eq]
  have hpow : 0 < 2 ^ v.exponent := Nat.two_pow_pos _
  have hfactor : 16 * 1 ≤ (16 + v.mantissa) * 2 ^ v.exponent :=
    Nat.mul_le_mul (Nat.le_add_right _ _) hpow
  omega

namespace InformationBase

/-- The identifiers of those an announcement lists, once its originator is known. -/
def listed (base : InformationBase) (originator : Address) (tc : Tc) : List NodeId :=
  ((base.registry.intern originator).2.internAll tc.advertised.toList).1

/-- Links and memberships once an announcement was taken note of. -/
def learn (base : InformationBase) (now : Nat) (originator : Address) (tc : Tc)
    (validity : ValidityTime) : Topology × Groups :=
  let origin := (base.registry.intern originator).1
  if base.topology.knowsNewer now origin tc.ansn then (base.topology, base.groups)
  else
    ((base.topology.record now origin tc.ansn (base.listed originator tc) validity.millis).2,
      (base.groups.update origin tc.groups).2)

/-- From a symmetric neighbor, whichever it is, an announcement is learned from. -/
theorem applyTc_of_symmetric {base : InformationBase} {now : Nat} {originator sender : Address}
    {tc : Tc} {validity : ValidityTime} (h : base.isSymmetricNeighbor now sender = true) :
    ((base.applyTc now originator sender tc validity).2.topology,
      (base.applyTc now originator sender tc validity).2.groups)
        = base.learn now originator tc validity
      ∧ (base.applyTc now originator sender tc validity).2.registry
        = ((base.registry.intern originator).2.internAll tc.advertised.toList).2 := by
  unfold applyTc learn
  rw [if_pos h]
  dsimp only [intern]
  split
  · exact ⟨rfl, rfl⟩
  · exact ⟨rfl, rfl⟩

theorem applyTc_of_not_symmetric {base : InformationBase} {now : Nat}
    {originator sender : Address} {tc : Tc} {validity : ValidityTime}
    (h : base.isSymmetricNeighbor now sender = false) :
    (base.applyTc now originator sender tc validity).2 = base := by
  unfold applyTc
  rw [h, if_neg Bool.false_ne_true]

/-- Whoever learns from an announcement what it learned before does not change its mind. -/
theorem learn_learn {base base' : InformationBase} {now : Nat} {originator : Address} {tc : Tc}
    {validity : ValidityTime}
    (hregistry : ((base.registry.intern originator).2.internAll tc.advertised.toList).2.Extends
      base'.registry)
    (h : (base'.topology, base'.groups) = base.learn now originator tc validity) :
    base'.learn now originator tc validity = base.learn now originator tc validity := by
  have hintern : base'.registry.intern originator
      = ((base.registry.intern originator).1, base'.registry) :=
    Registry.intern_intern ((Registry.extends_internAll _ _).trans hregistry)
  have hlisted : base'.listed originator tc = base.listed originator tc := by
    unfold listed
    rw [hintern, Registry.internAll_internAll hregistry]
  rw [← h]
  unfold learn at h ⊢
  rw [hintern, hlisted]
  dsimp only at h ⊢
  split at h
  · rename_i hnewer
    rw [Prod.mk.injEq] at h
    rw [h.1, if_pos hnewer]
  · rename_i hnewer
    rw [Bool.not_eq_true] at hnewer
    obtain ⟨hagain, hrecord⟩ :=
      Topology.record_record hnewer validity.millis_pos (base.listed originator tc)
    rw [Prod.mk.injEq] at h
    rw [h.1, h.2, hagain, if_neg Bool.false_ne_true, hrecord, Groups.update_update]

end InformationBase

end Meshcast
