import Meshcast.Neighborhood
import Meshcast.Proofs.Expiring

/-!
# Meshcast — the neighborhood, neighbor by neighbor

The sets that a neighborhood gives away are enumerated from its table. This module says what their
members are in terms of single entries, and what marking the relays does to an entry: it changes
nothing but the mark.
-/

namespace Meshcast

namespace Neighborhood

theorem mem_entries {n : Neighborhood} {now : Nat} {id : NodeId} {entry : Neighbor} :
    (id, entry) ∈ n.entries now ↔ n.get? now id = some entry := by
  unfold entries get?
  rw [Std.ExtTreeMap.mem_toList_iff_getElem?_eq_some, ExpiringTable.getElem?_live]

theorem mem_symmetric {n : Neighborhood} {now : Nat} {id : NodeId} :
    id ∈ n.symmetric now ↔ ∃ entry, n.get? now id = some entry ∧ entry.isSymmetric := by
  unfold symmetric
  rw [Std.ExtTreeSet.mem_ofList, List.contains_iff_mem, List.mem_map]
  constructor
  · rintro ⟨⟨other, entry⟩, hmem, rfl⟩
    rw [List.mem_filter, mem_entries] at hmem
    exact ⟨entry, hmem.1, hmem.2⟩
  · rintro ⟨entry, hentry, hsymmetric⟩
    exact ⟨(id, entry), List.mem_filter.2 ⟨mem_entries.2 hentry, hsymmetric⟩, rfl⟩

/-- What a single neighbor contributes: the nodes it reports, if it is symmetric, save the node
itself and the neighbor. -/
theorem mem_arcsOf {self id : NodeId} {entry : Neighbor} {arc : Arc} :
    arc ∈ arcsOf self id entry ↔
      arc.source = id ∧ entry.isSymmetric ∧ arc.target ∈ entry.twoHop
        ∧ arc.target ≠ self ∧ arc.target ≠ id := by
  unfold arcsOf
  split
  · rename_i hsymmetric
    rw [List.mem_map]
    constructor
    · rintro ⟨target, hmem, rfl⟩
      rw [List.mem_filter, Std.ExtTreeSet.mem_toList] at hmem
      simp only [Bool.and_eq_true, bne_iff_ne] at hmem
      exact ⟨rfl, hsymmetric, hmem.1, hmem.2.1, hmem.2.2⟩
    · rintro ⟨hsource, -, hmem, hself, hid⟩
      refine ⟨arc.target, List.mem_filter.2 ⟨Std.ExtTreeSet.mem_toList.2 hmem, ?_⟩, ?_⟩
      · simp only [Bool.and_eq_true, bne_iff_ne]
        exact ⟨hself, hid⟩
      · rw [← hsource]
  · rename_i hsymmetric
    constructor
    · nofun
    · rintro ⟨-, h, -⟩
      exact absurd h hsymmetric

theorem mem_arcsOfAll {self : NodeId} {neighbors : Std.ExtTreeMap NodeId Neighbor} {arc : Arc} :
    arc ∈ arcsOfAll self neighbors ↔
      ∃ entry : Neighbor, neighbors[arc.source]? = some entry ∧ entry.isSymmetric
        ∧ arc.target ∈ entry.twoHop ∧ arc.target ≠ self ∧ arc.target ≠ arc.source := by
  unfold arcsOfAll
  rw [Std.ExtTreeSet.mem_ofList, List.contains_iff_mem, List.mem_flatMap]
  constructor
  · rintro ⟨⟨id, entry⟩, hmem, harc⟩
    obtain ⟨rfl, hrest⟩ := mem_arcsOf.1 harc
    rw [Std.ExtTreeMap.mem_toList_iff_getElem?_eq_some] at hmem
    exact ⟨entry, hmem, hrest⟩
  · rintro ⟨entry, hentry, hrest⟩
    exact ⟨(arc.source, entry), Std.ExtTreeMap.mem_toList_iff_getElem?_eq_some.2 hentry,
      mem_arcsOf.2 ⟨rfl, hrest⟩⟩

/-! ## Marking the relays -/

theorem isSymmetric_statusUnder (relays : NodeSet) (id : NodeId) (entry : Neighbor) :
    (statusUnder relays id entry).isSymmetric = entry.isSymmetric := by
  unfold statusUnder
  cases h : entry.isSymmetric with
  | false => simpa [Neighbor.isSymmetric] using h
  | true =>
    rw [Bool.not_true, if_neg Bool.false_ne_true]
    split <;> rfl

theorem get?_markRelays (n : Neighborhood) (now : Nat) (relays : NodeSet) (id : NodeId) :
    (n.markRelays now relays).2.get? now id =
      (n.get? now id).map fun entry => { entry with status := statusUnder relays id entry } := by
  simp only [markRelays, get?, ExpiringTable.get?, Std.ExtTreeMap.getElem?_map]
  cases n.table.slots[id]? with
  | none => rfl
  | some slot =>
    cases hlive : slot.isLive now with
    | false => simp [hlive, Option.filter]
    | true =>
      have hstays : Slot.isLive
          { slot with value := { slot.value with status := statusUnder relays id slot.value } }
          now = true := hlive
      simp [hlive, hstays, Option.filter]

theorem settled_markRelays {n : Neighborhood} {now : Nat} {relays : NodeSet} :
    (n.markRelays now relays).2.table.Settled now ↔ n.table.Settled now := by
  have deadline (id : NodeId) (slot : Slot Neighbor) :
      (if slot.isLive now then
        { slot with value := { slot.value with status := statusUnder relays id slot.value } }
      else slot).isLive now = slot.isLive now := by
    split <;> rfl
  simp only [ExpiringTable.Settled, markRelays, Std.ExtTreeMap.getElem?_map,
    Option.map_eq_some_iff]
  constructor
  · intro h id slot hslot
    rw [← deadline id slot]
    exact h id _ ⟨slot, hslot, rfl⟩
  · rintro h id _ ⟨slot, hslot, rfl⟩
    rw [deadline]
    exact h id slot hslot

/-- Marking makes nobody symmetric and nobody asymmetric. -/
theorem symmetric_markRelays (n : Neighborhood) (now : Nat) (relays : NodeSet) :
    (n.markRelays now relays).2.symmetric now = n.symmetric now := by
  apply Std.ExtTreeSet.ext_mem
  intro id
  rw [mem_symmetric, mem_symmetric, get?_markRelays]
  cases n.get? now id with
  | none => simp
  | some entry =>
    simp only [Option.map_some, Option.some.injEq, exists_eq_left', Neighbor.isSymmetric]
    rw [isSymmetric_statusUnder]
    rfl

theorem arcsOfAll_markRelays (self : NodeId) (n : Neighborhood) (now : Nat) (relays : NodeSet) :
    arcsOfAll self ((n.markRelays now relays).2.table.live now) =
      arcsOfAll self (n.table.live now) := by
  apply Std.ExtTreeSet.ext_mem
  intro arc
  rw [mem_arcsOfAll, mem_arcsOfAll, ExpiringTable.getElem?_live, ExpiringTable.getElem?_live]
  rw [show (n.markRelays now relays).2.table.get? now arc.source = _ from
    get?_markRelays n now relays arc.source]
  rw [show n.table.get? now arc.source = n.get? now arc.source from rfl]
  cases n.get? now arc.source with
  | none => simp
  | some entry =>
    simp only [Option.map_some, Option.some.injEq, exists_eq_left', Neighbor.isSymmetric]
    rw [isSymmetric_statusUnder]
    rfl

/-- After marking, the symmetric neighbors marked as relays are the chosen ones. -/
theorem relay_iff_of_get?_markRelays {n : Neighborhood} {now : Nat} {relays : NodeSet}
    {id : NodeId} {entry : Neighbor} (h : (n.markRelays now relays).2.get? now id = some entry)
    (hsymmetric : entry.isSymmetric) : entry.status = .relay ↔ id ∈ relays := by
  rw [get?_markRelays, Option.map_eq_some_iff] at h
  obtain ⟨old, -, rfl⟩ := h
  have hold : old.isSymmetric = true := by
    rw [← isSymmetric_statusUnder relays id old]
    exact hsymmetric
  show statusUnder relays id old = .relay ↔ id ∈ relays
  unfold statusUnder
  rw [hold, Bool.not_true, if_neg Bool.false_ne_true, ← Std.ExtTreeSet.contains_iff_mem]
  cases relays.contains id <;> simp

end Neighborhood

end Meshcast
