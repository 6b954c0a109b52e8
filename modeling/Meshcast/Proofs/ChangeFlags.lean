import Meshcast.Proofs.Comparisons
import Meshcast.Proofs.Expiring
import Meshcast.TopologyDiscovery

/-!
# Meshcast — what the change flags promise

Each table of the information base raises a flag when it changed. This module says what can be
concluded from a flag that stayed down, for every way in which messages and sweeps change the
tables.

* **`Neighborhood.Noted`** — either the arcs were published afresh and both flags are up, or
  nothing that can be seen of the neighbors changed.
* **`Topology.Noted`**, **`Groups.Noted`** — the same for links and memberships.
* **`noted_recordNeighbor`**, **`noted_record`**, **`noted_update`** and their companions — messages
  and sweeps keep these promises.
-/

namespace Meshcast

/-! ## Neighbors -/

namespace Neighborhood

/-- The arcs of all live neighbors are published and both flags are up. -/
structure Published (now : Nat) (n : Neighborhood) : Prop where
  changed : n.changed = true
  relaysDirty : n.relaysDirty = true
  arcs : n.twoHopArcs = arcsOfAll n.self (n.table.live now)

/-- Flags and arcs are the same; and if no dead entry is left, then none has gone and the live
entries are the same. -/
structure Unchanged (now : Nat) (n n' : Neighborhood) : Prop where
  changed : n'.changed = n.changed
  relaysDirty : n'.relaysDirty = n.relaysDirty
  arcs : n'.twoHopArcs = n.twoHopArcs
  settled : n'.table.Settled now → n.table.Settled now
  live_eq : n'.table.Settled now → n'.table.live now = n.table.live now

/-- What happened to the neighbors was published, or it was nothing. -/
def Noted (now : Nat) (n n' : Neighborhood) : Prop :=
  n'.self = n.self ∧ (Published now n' ∨ Unchanged now n n')

theorem Noted.refl (now : Nat) (n : Neighborhood) : Noted now n n :=
  ⟨rfl, .inr ⟨rfl, rfl, rfl, id, fun _ => rfl⟩⟩

theorem noted_commit {now : Nat} {n : Neighborhood} {tx : Transaction NodeId Neighbor}
    (h : (n.table.transaction now).Noted tx) : Noted now n (n.commit tx) := by
  have hnow : tx.now = now := h.now_eq
  unfold commit Transaction.report
  cases hchanged : tx.changed with
  | true =>
    -- a raised note has the arcs published from what is alive at the transaction's time
    refine ⟨rfl, .inl ⟨rfl, rfl, ?_⟩⟩
    show arcsOfAll n.self tx.live = arcsOfAll n.self (tx.table.live now)
    rw [← hnow]; rfl
  | false =>
    refine ⟨rfl, .inr ⟨rfl, rfl, rfl, h.settled hchanged, fun hs => ?_⟩⟩
    have hlive : tx.live = n.table.live now := h.live_eq hchanged hs
    rw [← hlive, ← hnow]; rfl

/-- Putting an entry is noted if whoever puts it calls for publication whenever the entry differs
from a live one. -/
theorem noted_commit_insert (n : Neighborhood) (now : Nat) (id : NodeId) (entry : Neighbor)
    (lifetime : Nat) (changed : Bool)
    (h : changed = false → ∀ old, n.get? now id = some old → old = entry) :
    Noted now n
      (n.commit
        (if changed then ((n.table.transaction now).insert id entry lifetime).2.markChanged
        else ((n.table.transaction now).insert id entry lifetime).2)) := by
  cases changed with
  | true =>
    refine noted_commit (Transaction.noted_of_changed ?_ rfl)
    show ((n.table.transaction now).insert id entry lifetime).2.now = now
    unfold Transaction.insert
    split <;> rfl
  | false => exact noted_commit (Transaction.noted_insert _ id entry lifetime (h rfl))

theorem noted_sweep (n : Neighborhood) (now : Nat) : Noted now n (n.sweep now).2 :=
  noted_commit (Transaction.noted_restrict _ _)

theorem table_commit (n : Neighborhood) (tx : Transaction NodeId Neighbor) :
    (n.commit tx).table = tx.table := by
  unfold commit
  split <;> rfl

theorem settled_sweep (n : Neighborhood) (now : Nat) : (n.sweep now).2.table.Settled now := by
  show (n.commit (n.table.transaction now).sweep.2).table.Settled now
  rw [table_commit]
  exact Transaction.settled_sweep (n.table.transaction now)

end Neighborhood

/-! ## Links -/

namespace Topology

/-- The flag is up; or it is as it was, and if no dead entry is left, then none has gone and the
live entries are the same. -/
def Noted (now : Nat) (t t' : Topology) : Prop :=
  t'.changed = true ∨
    t'.changed = t.changed ∧
      (t'.table.Settled now → t.table.Settled now ∧ t'.table.live now = t.table.live now)

theorem Noted.refl (now : Nat) (t : Topology) : Noted now t t :=
  .inr ⟨rfl, fun h => ⟨h, rfl⟩⟩

theorem noted_commit {now : Nat} {t : Topology} {tx : Transaction Arc SeqNum}
    (h : (t.table.transaction now).Noted tx) : Noted now t (t.commit tx) := by
  have hnow : tx.now = now := h.now_eq
  cases hchanged : tx.changed with
  | true =>
    left
    show (t.changed || tx.changed) = true
    rw [hchanged, Bool.or_true]
  | false =>
    refine .inr ⟨?_, fun hs => ⟨h.settled hchanged hs, ?_⟩⟩
    · show (t.changed || tx.changed) = t.changed
      rw [hchanged, Bool.or_false]
    · have hlive : tx.live = t.table.live now := h.live_eq hchanged hs
      rw [← hlive, ← hnow]; rfl

theorem noted_sweep (t : Topology) (now : Nat) : Noted now t (t.sweep now).2 :=
  noted_commit (Transaction.noted_restrict _ _)

theorem settled_sweep (t : Topology) (now : Nat) : (t.sweep now).2.table.Settled now :=
  Transaction.settled_sweep (t.table.transaction now)

/-- Recording a link is noted: it is a refresh, or an insertion where nothing is live. -/
theorem noted_recordArc (ansn : SeqNum) (lifetime : Nat) (tx : Transaction Arc SeqNum) (arc : Arc) :
    tx.Noted (recordArc ansn lifetime tx arc) := by
  unfold recordArc
  cases hget : tx.get? arc with
  | none =>
    -- there is nothing to refresh, so the link is inserted
    have hrefresh : tx.refresh arc lifetime = (false, tx) := by
      unfold Transaction.refresh
      rw [hget]
    rw [hrefresh]
    exact Transaction.noted_insert tx arc ansn lifetime (by rw [hget]; nofun)
  | some known =>
    have hfound : (tx.refresh arc lifetime).1 = true := by
      unfold Transaction.refresh
      rw [hget]
    rw [show tx.refresh arc lifetime = (true, (tx.refresh arc lifetime).2) from
      Prod.ext hfound rfl]
    exact Transaction.noted_refresh tx arc lifetime

theorem noted_recordArcs (ansn : SeqNum) (lifetime : Nat) (arcs : List Arc)
    (tx : Transaction Arc SeqNum) : tx.Noted (arcs.foldl (recordArc ansn lifetime) tx) := by
  induction arcs generalizing tx with
  | nil => exact Transaction.Noted.refl tx
  | cons arc rest ih => exact (noted_recordArc ansn lifetime tx arc).trans (ih _)

theorem noted_record (t : Topology) (now : Nat) (originator : NodeId) (ansn : SeqNum)
    (advertised : List NodeId) (lifetime : Nat) :
    Noted now t (t.record now originator ansn advertised lifetime).2 :=
  noted_commit ((Transaction.noted_restrict _ _).trans (noted_recordArcs ansn lifetime _ _))

end Topology

/-! ## Memberships -/

namespace Groups

/-- The flag is up, or it is as it was and so is all that the rows say. -/
def Noted (g g' : Groups) : Prop :=
  g'.changed = true ∨ g'.changed = g.changed ∧ g.Agrees g'

theorem Noted.refl (g : Groups) : Noted g g :=
  .inr ⟨rfl, fun _ => rfl⟩

theorem noted_update (g : Groups) (node : NodeId) (groups : AddressSet) :
    Noted g (g.update node groups).2 := by
  rw [update_eq]
  split
  · exact .refl g
  · exact .inl rfl

theorem noted_register (g : Groups) (node : NodeId) (group : Address) :
    Noted g (g.register node group).2 := by
  rw [register_eq_update]
  exact g.noted_update node _

/-- What goes unnoticed is an empty row. -/
theorem noted_unregister (g : Groups) (node : NodeId) (group : Address) :
    Noted g (g.unregister node group).2 := by
  by_cases hempty : g.rows[node]? = some ∅
  · have hchanged : (g.unregister node group).2.changed = g.changed := by
      unfold unregister
      rw [hempty]
      simp
    refine .inr ⟨hchanged, fun other => ?_⟩
    by_cases hother : other = node
    · rw [hother, joined_unregister, g.joined_of_row hempty]
      exact erase_of_not_mem Std.ExtTreeSet.not_mem_empty
    · unfold joined
      rw [g.getElem?_rows_unregister_of_ne group hother]
  · rw [g.unregister_eq_update hempty]
    exact g.noted_update node _

theorem noted_retain (g : Groups) (keep : NodeSet) : Noted g (g.retain keep).2 := by
  have hle := Std.ExtTreeMap.size_filter_le_size (t := g.rows)
    (f := fun node _ => keep.contains node)
  -- the flag goes up exactly if a row was dropped
  by_cases hsize : (g.rows.filter fun node _ => keep.contains node).size = g.rows.size
  · have hrows : (g.rows.filter fun node _ => keep.contains node) = g.rows := by
      exact Std.ExtTreeMap.filter_eq_self_iff.2 (Std.ExtTreeMap.size_filter_eq_size_iff.1 hsize)
    refine .inr ⟨?_, .of_rows_eq hrows⟩
    simp only [retain, hrows, Nat.sub_self, Nat.lt_irrefl, decide_false, Bool.or_false]
  · left
    have hdropped : 0 < g.rows.size - (g.rows.filter fun node _ => keep.contains node).size := by
      omega
    simp only [retain, hdropped, decide_true, Bool.or_true]

end Groups

/-! ## Greetings and announcements -/

/-- A greeting that changes neither the two-hop nodes nor the status of its sender says what is
known of the sender already. -/
theorem HelloReport.entry_eq_of_unchanged {report : HelloReport} {known : Neighbor}
    {isNew : Bool}
    (h : (report.changesTwoHop known.twoHop
      || decide (report.statusAfter known.status ≠ known.status) || isNew) = false) :
    known = { status := report.statusAfter known.status, twoHop := report.reported } := by
  rw [Bool.or_eq_false_iff, Bool.or_eq_false_iff, HelloReport.changesTwoHop_eq_false,
    decide_eq_false_iff_not, Decidable.not_not] at h
  obtain ⟨⟨⟨htwoHop, -⟩, hstatus⟩, -⟩ := h
  rw [hstatus, ← htwoHop]

namespace InformationBase

/-- What a greeting does to its sender's entry, the two passes over the two-hop nodes taken at
once. -/
theorem recordNeighbor_passes (base : InformationBase) (now : Nat) (sender : NodeId)
    (report : HelloReport) (lifetime : Nat) :
    base.recordNeighbor now sender report lifetime =
      let known := (base.neighbors.get? now sender).getD { status := .notNeighbor }
      let status := report.statusAfter known.status
      let (put, tx) := (base.neighbors.table.transaction now).insert sender
        { status, twoHop := report.reported } lifetime
      let changed := report.changesTwoHop known.twoHop || status ≠ known.status || put = .inserted
      (changed,
        { base with
          neighbors := base.neighbors.commit (if changed then tx.markChanged else tx) }) := by
  unfold recordNeighbor
  dsimp only
  rw [HelloReport.updateTwoHop_eq]

theorem slots_recordNeighbor (base : InformationBase) (now : Nat) (sender : NodeId)
    (report : HelloReport) (lifetime : Nat) :
    let known := (base.neighbors.get? now sender).getD { status := .notNeighbor }
    (base.recordNeighbor now sender report lifetime).2.neighbors.table.slots =
      base.neighbors.table.slots.insert sender
        ⟨{ status := report.statusAfter known.status, twoHop := report.reported },
          Meshcast.deadline now lifetime⟩ := by
  have hmarked : ∀ (changed : Bool) (tx : Transaction NodeId Neighbor),
      (if changed then tx.markChanged else tx).table = tx.table := by
    intro changed tx
    split <;> rfl
  rw [recordNeighbor_passes]
  dsimp only
  rw [Neighborhood.table_commit, hmarked, Transaction.slots_insert]
  rfl

/-- Recording a greeting is noted. If it counts as no change, then the sender's entry was live and
the new one says the same. -/
theorem noted_recordNeighbor (base : InformationBase) (now : Nat) (sender : NodeId)
    (report : HelloReport) (lifetime : Nat) :
    Neighborhood.Noted now base.neighbors
      (base.recordNeighbor now sender report lifetime).2.neighbors := by
  rw [recordNeighbor_passes]
  refine Neighborhood.noted_commit_insert base.neighbors now sender _ lifetime _ ?_
  intro hquiet old hold
  -- the sender was live, so what is known of it is its entry
  rw [hold] at hquiet ⊢
  exact HelloReport.entry_eq_of_unchanged hquiet

/-- The tables changed in noted ways. -/
structure Noted (now : Nat) (base base' : InformationBase) : Prop where
  neighbors : Neighborhood.Noted now base.neighbors base'.neighbors
  topology : Topology.Noted now base.topology base'.topology
  groups : Groups.Noted base.groups base'.groups

theorem noted_applyHello (base : InformationBase) (now : Nat) (source : Address) (hello : Hello)
    (validity : ValidityTime) : Noted now base (base.applyHello now source hello validity).2 := by
  unfold applyHello
  dsimp only
  split
  · exact ⟨.refl now _, .refl now _, .refl _⟩
  · exact ⟨noted_recordNeighbor _ now _ _ _, .refl now _, .refl _⟩

theorem noted_applyTc (base : InformationBase) (now : Nat) (originator sender : Address) (tc : Tc)
    (validity : ValidityTime) :
    Noted now base (base.applyTc now originator sender tc validity).2 := by
  unfold applyTc
  split
  · dsimp only
    split
    · exact ⟨.refl now _, .refl now _, .refl _⟩
    · exact ⟨.refl now _, Topology.noted_record _ now _ _ _ _, Groups.noted_update _ _ _⟩
  · exact ⟨.refl now _, .refl now _, .refl _⟩

end InformationBase

end Meshcast
