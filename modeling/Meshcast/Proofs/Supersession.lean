import Meshcast.Proofs.Precedence

/-!
# Meshcast — an originator has one number at a time

The table of links also holds dead links under numbers of long ago, and the age of numbers is no
order: a number may be newer than a second one, the second one than a third, and the third than the
first. All the same, whatever announcements come in, the live links of an originator carry one
number, and an announcement that is applied leaves exactly the links that it lists and those that
were announced under the very same number.

* **`Topology.link?`**, **`Topology.Coherent`** — a live link with its number and its deadline; the
  live links of each originator have the same number.
* **`Topology.mem_arcs_record`** — if recording an announcement is not reported, the same links are
  alive afterwards.
* **`Learner.coherent_step`**, **`Learner.coherent_run`** — the invariant.
* **`TcApplied.supersedes`** — what an applied announcement leaves behind.
* **`Learner.announcements_supersede`** — the result.
-/

namespace Meshcast

namespace Topology

/-- The link of an arc if it is alive, with its number and its deadline. -/
def link? (t : Topology) (now : Nat) (arc : Arc) : Option (Slot SeqNum) :=
  t.table.slots[arc]?.filter (·.isLive now)

/-- The live links of one originator were announced under one number. -/
def Coherent (t : Topology) (now : Nat) : Prop :=
  ∀ (arc other : Arc) (slot slot' : Slot SeqNum), arc.source = other.source →
    t.link? now arc = some slot → t.link? now other = some slot' → slot.value = slot'.value

variable {t t' : Topology} {now later lifetime : Nat} {ansn : SeqNum} {originator : NodeId}

theorem link?_eq_some_iff {arc : Arc} {slot : Slot SeqNum} :
    t.link? now arc = some slot ↔ t.table.slots[arc]? = some slot ∧ slot.isLive now = true :=
  Option.filter_eq_some_iff

theorem link?_of_le {arc : Arc} {slot : Slot SeqNum} (h : t.link? later arc = some slot)
    (hle : now ≤ later) : t.link? now arc = some slot := by
  rw [link?_eq_some_iff] at h ⊢
  refine ⟨h.1, ?_⟩
  simp only [Slot.isLive, decide_eq_true_eq] at h ⊢
  omega

/-- What only loses links, by time or otherwise, stays coherent. -/
theorem Coherent.of_subset (h : t.Coherent now)
    (hsubset : ∀ arc slot, t'.link? later arc = some slot → t.link? now arc = some slot) :
    t'.Coherent later :=
  fun arc other slot slot' hsource hslot hslot' =>
    h arc other slot slot' hsource (hsubset arc slot hslot) (hsubset other slot' hslot')

/-! ## What is not reported -/

/-- Recording a link goes unreported only if the link is alive, and then it stays alive. -/
theorem isSome_get?_recordArc (hlifetime : 0 < lifetime) {tx : Transaction Arc SeqNum} {arc : Arc}
    (hquiet : (recordArc ansn lifetime tx arc).changed = false) (other : Arc) :
    ((recordArc ansn lifetime tx arc).get? other).isSome = (tx.get? other).isSome := by
  have hlive : (tx.get? arc).isSome = true := by
    rw [recordArc_eq] at hquiet
    have hnone : (tx.get? arc).isNone = false := (Bool.or_eq_false_iff.1 hquiet).2
    rwa [Option.isNone_eq_false_iff] at hnone
  have hnow : (recordArc ansn lifetime tx arc).now = tx.now := by rw [recordArc_eq]
  by_cases heq : arc = other
  · subst heq
    rw [hlive, Option.isSome_iff_exists]
    refine ⟨(tx.get? arc).getD ansn, ExpiringTable.get?_eq_some_iff.2
      ⟨⟨(tx.get? arc).getD ansn, deadline tx.now lifetime⟩, ?_, ?_, rfl⟩⟩
    · rw [getElem?_recordArc, if_pos rfl]
    · rw [hnow]
      exact Slot.isLive_deadline _ _ hlifetime
  · unfold Transaction.get? ExpiringTable.get?
    rw [getElem?_recordArc, if_neg heq, hnow]

theorem isSome_get?_recordArcs (hlifetime : 0 < lifetime) (arcs : List Arc)
    {tx : Transaction Arc SeqNum}
    (hquiet : (arcs.foldl (recordArc ansn lifetime) tx).changed = false) (other : Arc) :
    ((arcs.foldl (recordArc ansn lifetime) tx).get? other).isSome = (tx.get? other).isSome := by
  induction arcs generalizing tx with
  | nil => rfl
  | cons arc rest ih =>
    have hfirst : (recordArc ansn lifetime tx arc).changed = false :=
      (noted_recordArcs ansn lifetime rest _).quiet hquiet
    rw [List.foldl_cons, ih hquiet, isSome_get?_recordArc hlifetime hfirst]

/-- If recording an announcement is not reported, the same links are alive afterwards. -/
theorem mem_arcs_record (hlifetime : 0 < lifetime) {advertised : List NodeId}
    (hquiet : (t.record now originator ansn advertised lifetime).1 = false) (arc : Arc) :
    arc ∈ (t.record now originator ansn advertised lifetime).2.arcs now ↔ arc ∈ t.arcs now := by
  let retained := ((t.table.transaction now).retain fun arc known =>
    arc.source ≠ originator || !known.isOlderThan ansn).2
  let arcs : List Arc := advertised.map (⟨originator, ·⟩)
  have hquiet : (arcs.foldl (recordArc ansn lifetime) retained).changed = false := hquiet
  have hnoted := noted_recordArcs ansn lifetime arcs retained
  -- nothing older was dropped either
  have hretained : retained = t.table.transaction now :=
    Transaction.restrict_eq_self (hnoted.quiet hquiet)
  have hold : retained.get? arc = t.get? now arc := by
    rw [hretained]
    rfl
  have hlive := isSome_get?_recordArcs hlifetime arcs hquiet arc
  rw [hold] at hlive
  unfold Transaction.get? at hlive
  rw [hnoted.now_eq] at hlive
  rw [mem_arcs, mem_arcs]
  exact Bool.eq_iff_iff.1 hlive

end Topology

namespace InformationBase

variable {base base' : InformationBase} {now : Nat} {originator sender : Address} {tc : Tc}
  {validity : ValidityTime} {origin : NodeId} {changed : Bool}

/-- If other links are alive than before, the flag is up and the change is reported. -/
theorem reported_of_applied
    (h : base.applyTc now originator sender tc validity = (.applied changed, base'))
    (hlinks : ¬∀ arc, arc ∈ base'.topology.arcs now ↔ arc ∈ base.topology.arcs now) :
    base'.topology.changed = true ∧ changed = true := by
  unfold applyTc at h
  split at h
  · dsimp only [intern] at h
    split at h
    · nomatch h
    · rw [Prod.mk.injEq, TcOutcome.applied.injEq] at h
      obtain ⟨rfl, rfl⟩ := h
      have hreported : (base.topology.record now (base.registry.intern originator).1 tc.ansn
          ((base.registry.intern originator).2.internAll tc.advertised.toList).1
          validity.millis).1 = true := by
        rw [← Bool.not_eq_false]
        exact fun hquiet => hlinks (Topology.mem_arcs_record validity.millis_pos hquiet)
      refine ⟨?_, Bool.or_eq_true_iff.2 (.inl hreported)⟩
      exact Bool.or_eq_true_iff.2 (.inr hreported)
  · nomatch h

/-! ## What an announcement leaves behind -/

/-- The links that an applied announcement leaves behind, and the groups. -/
structure Supersedes (base : InformationBase) (now : Nat) (originator : Address) (tc : Tc)
    (validity : ValidityTime) (origin : NodeId) (base' : InformationBase) : Prop where
  originator : base'.registry.lookup? originator = some origin
  /-- Whoever is listed has a link that lives for as long as the announcement is valid. -/
  announced : ∀ a ∈ tc.advertised, ∃ target, base'.registry.lookup? a = some target
    ∧ base'.topology.link? now ⟨origin, target⟩ = some ⟨tc.ansn, now + validity.millis⟩
  /-- Of the other links of the originator, those under the same number stay as they were. -/
  kept : ∀ target, (∀ a ∈ tc.advertised, base'.registry.lookup? a ≠ some target) →
    base'.topology.link? now ⟨origin, target⟩ =
      (base.topology.link? now ⟨origin, target⟩).filter (·.value = tc.ansn)
  groups : base'.groups.joined origin = tc.groups
  links_of_other : ∀ arc : Arc, arc.source ≠ origin →
    base'.topology.table.slots[arc]? = base.topology.table.slots[arc]?
  groups_of_other : ∀ id, id ≠ origin → base'.groups.rows[id]? = base.groups.rows[id]?

theorem TcApplied.kept (h : TcApplied base now originator tc validity origin base')
    {target : NodeId} (hnone : ∀ a ∈ tc.advertised, base'.registry.lookup? a ≠ some target) :
    base'.topology.link? now ⟨origin, target⟩ =
      (base.topology.link? now ⟨origin, target⟩).filter (·.value = tc.ansn) := by
  have hslots := h.others ⟨origin, target⟩ fun ⟨_, a, ha, hid⟩ => hnone a ha hid
  ext slot
  rw [Topology.link?_eq_some_iff, hslots, Option.filter_eq_some_iff, Option.filter_eq_some_iff,
    Topology.link?_eq_some_iff, and_right_comm]
  refine and_congr_right fun ⟨hslot, hlive⟩ => ?_
  -- a live link that is neither newer nor older has the number of the announcement
  have hnewer : slot.value.isNewerThan tc.ansn = false :=
    Topology.knowsNewer_eq_false_iff.1 h.notNewer ⟨origin, target⟩ slot.value
      (ExpiringTable.get?_eq_some_iff.2 ⟨slot, hslot, hlive, rfl⟩) rfl
  rw [decide_eq_true_eq]
  constructor
  · intro hkept
    exact SeqNum.eq_of_age hnewer (by simpa [hlive] using hkept)
  · rintro heq
    simp [heq, SeqNum.age_self]

theorem TcApplied.supersedes (h : TcApplied base now originator tc validity origin base') :
    Supersedes base now originator tc validity origin base' where
  originator := h.originator
  announced a ha := by
    obtain ⟨target, htarget⟩ := h.advertised a ha
    refine ⟨target, htarget, Topology.link?_eq_some_iff.2 ⟨?_, ?_⟩⟩
    · rw [h.announced ⟨origin, target⟩ rfl ⟨a, ha, htarget⟩]
      unfold deadline
      rw [validity.min_millis]
    · exact decide_eq_true (Nat.lt_add_of_pos_right validity.millis_pos)
  kept _ hnone := h.kept hnone
  groups := by
    rw [h.groups]
    exact Groups.joined_update _ _ _
  links_of_other _ hother := h.slots_of_other hother
  groups_of_other _ hother := by
    rw [h.groups]
    exact Groups.getElem?_rows_update_of_ne _ _ hother

end InformationBase

namespace Learner

/-! ## Runs -/

/-- Participants and neighbors are known, but no links and no memberships yet. -/
def fresh (now : Nat) (registry : Registry) (neighbors : Neighborhood) : Learner :=
  { now, base := { registry, neighbors } }

variable {l : Learner}

theorem coherent_step (h : l.base.topology.Coherent l.now) (e : LearnerEvent) :
    (l.step e).base.topology.Coherent (l.step e).now := by
  cases e with
  | announcement originator sender tc validity =>
    unfold step
    dsimp only
    obtain ⟨outcome, base', happly, hhandling⟩ :=
      l.base.exists_tcHandling l.now originator sender tc validity
    rw [happly]
    cases hhandling with
    | notSymmetric hsender => exact h
    | stale registry hsender hnewer hregistry => exact h
    | applied changed _ hsender hregistry happlied =>
      intro arc other slot slot' hsource hslot hslot'
      obtain ⟨hslots, hlive⟩ := Topology.link?_eq_some_iff.1 hslot
      obtain ⟨hslots', hlive'⟩ := Topology.link?_eq_some_iff.1 hslot'
      by_cases harc : arc.source = (l.base.registry.intern originator).1
      · rw [(happlied.eq_ansn harc hslots hlive).1,
          (happlied.eq_ansn (hsource ▸ harc) hslots' hlive').1]
      · rw [happlied.slots_of_other harc] at hslots
        rw [happlied.slots_of_other (hsource ▸ harc)] at hslots'
        exact h arc other slot slot' hsource (Topology.link?_eq_some_iff.2 ⟨hslots, hlive⟩)
          (Topology.link?_eq_some_iff.2 ⟨hslots', hlive'⟩)
  | sweepLinks =>
    refine h.of_subset fun arc slot hslot => ?_
    obtain ⟨hslots, hlive⟩ := Topology.link?_eq_some_iff.1 hslot
    exact Topology.link?_eq_some_iff.2
      ⟨(Topology.keeps_sweep _ _ arc.source).old arc slot rfl hslots, hlive⟩
  | advance ms =>
    exact h.of_subset fun _ _ hslot => Topology.link?_of_le hslot (Nat.le_add_right _ _)
  | _ => exact h

theorem coherent_run (h : l.base.topology.Coherent l.now) (events : List LearnerEvent) :
    (l.run events).base.topology.Coherent (l.run events).now := by
  induction events generalizing l with
  | nil => exact h
  | cons e rest ih => exact ih (coherent_step h e)

/-- **One number at a time.** Whatever has happened, the live links of an originator were announced
under one number. An announcement that does not come from a live symmetric neighbor is dropped, and
one of an originator that has a live link under a newer number is stale; neither touches a table or
a flag. Any other announcement is applied: from then on the originator has the links that it lists,
those that were announced under the same number before, and no others, and it is in the groups that
it lists; nobody else's links and memberships change. If other links are alive than before, then the
flag is up and the change is reported. -/
theorem announcements_supersede (since : Nat) (registry : Registry) (neighbors : Neighborhood)
    (events : List LearnerEvent) :
    let l := (fresh since registry neighbors).run events
    l.base.topology.Coherent l.now
      ∧ ∀ (originator sender : Address) (tc : Tc) (validity : ValidityTime),
        let origin := (l.base.registry.intern originator).1
        let result := l.base.applyTc l.now originator sender tc validity
        let newer := ∃ (arc : Arc) (slot : Slot SeqNum), arc.source = origin
          ∧ l.base.topology.link? l.now arc = some slot ∧ slot.value.isNewerThan tc.ansn = true
        (l.base.isSymmetricNeighbor l.now sender = false →
          result = (.notSymmetric, l.base))
        ∧ (l.base.isSymmetricNeighbor l.now sender = true → newer →
          result = (.stale, { l.base with registry := result.2.registry }))
        ∧ (l.base.isSymmetricNeighbor l.now sender = true → ¬newer →
          ∃ changed, result.1 = .applied changed
            ∧ l.base.Supersedes l.now originator tc validity origin result.2
            ∧ ((¬∀ arc, arc ∈ result.2.topology.arcs l.now ↔ arc ∈ l.base.topology.arcs l.now) →
              result.2.topology.changed = true ∧ changed = true)) := by
  intro l
  refine ⟨coherent_run (fun _ _ _ _ _ hnone => by nomatch hnone) events, ?_⟩
  intro originator sender tc validity origin result newer
  have hnewer : newer ↔ l.base.topology.knowsNewer l.now origin tc.ansn = true := by
    rw [Topology.knowsNewer_iff]
    simp only [newer, Topology.link?_eq_some_iff, and_assoc]
  obtain ⟨outcome, base', happly, hhandling⟩ :=
    l.base.exists_tcHandling l.now originator sender tc validity
  have hresult : result = (outcome, base') := happly
  rw [hresult, hnewer]
  cases hhandling with
  | notSymmetric hsender =>
    rw [hsender]
    exact ⟨fun _ => rfl, nofun, nofun⟩
  | stale registry hsender hknown hregistry =>
    rw [hsender]
    exact ⟨nofun, fun _ _ => rfl, fun _ hnone => absurd hknown hnone⟩
  | applied changed _ hsender hregistry happlied =>
    refine ⟨fun hnone => ?_, fun _ hknown => ?_, fun _ _ => ?_⟩
    · rw [hsender] at hnone
      nomatch hnone
    · rw [happlied.notNewer] at hknown
      nomatch hknown
    · exact ⟨changed, rfl, happlied.supersedes, InformationBase.reported_of_applied happly⟩

/-- The ninth participant has announced a link to the eighth one a second ago. -/
def informed : Learner :=
  (fresh 0 linked.base.registry linked.base.neighbors).run
    [.announcement (participant 9) (participant 2)
      { ansn := ⟨5⟩, advertised := .ofList [participant 8] } ⟨0xe7⟩, .advance 1000]

/-- Under the same number it announces a link to the seventh one. Both links live, each for its own
fifteen seconds. -/
theorem announcements_supersede_informed :
    let tc : Tc := { ansn := ⟨5⟩, advertised := .ofList [participant 7] }
    let result := informed.base.applyTc informed.now (participant 9) (participant 2) tc ⟨0xe7⟩
    informed.base.topology.Coherent informed.now ∧ result.1 = .applied true
      ∧ informed.base.Supersedes informed.now (participant 9) tc ⟨0xe7⟩ ⟨2⟩ result.2
      ∧ result.2.topology.link? informed.now ⟨⟨2⟩, ⟨3⟩⟩ = some ⟨⟨5⟩, 15000⟩
      ∧ result.2.topology.link? informed.now ⟨⟨2⟩, ⟨4⟩⟩ = some ⟨⟨5⟩, 16000⟩
      ∧ result.2.topology.changed = true := by
  intro tc result
  obtain ⟨hcoherent, houtcomes⟩ :
      informed.base.topology.Coherent informed.now ∧ _ :=
    announcements_supersede 0 linked.base.registry linked.base.neighbors _
  obtain ⟨-, -, happlied⟩ := houtcomes (participant 9) (participant 2) tc ⟨0xe7⟩
  have hnone : informed.base.topology.knowsNewer informed.now
      (informed.base.registry.intern (participant 9)).1 tc.ansn = false := by decide +kernel
  obtain ⟨changed, houtcome, hsupersedes, hreported⟩ := happlied (by decide +kernel) (by
    rintro ⟨arc, slot, harc, hslot, hnewer⟩
    obtain ⟨hslot, hlive⟩ := Topology.link?_eq_some_iff.1 hslot
    have hknown := Topology.knowsNewer_iff.2 ⟨arc, slot, harc, hslot, hlive, hnewer⟩
    exact absurd (hnone.symm.trans hknown) Bool.false_ne_true)
  obtain ⟨hflag, rfl⟩ := hreported fun hsame =>
    absurd ((hsame ⟨⟨2⟩, ⟨4⟩⟩).1 (by decide +kernel)) (by decide +kernel)
  exact ⟨hcoherent, houtcome, hsupersedes, by decide +kernel, by decide +kernel, hflag⟩

end Learner

end Meshcast
