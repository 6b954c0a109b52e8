import Meshcast.Proofs.Learners

/-!
# Meshcast — newer announcements take precedence

An announcement is refused if a newer one of its originator is known, and what is known of an
originator are its live links, with the number under which they were announced. So a newer
announcement keeps older ones out for as long as one of its links lives.

* **`Learner.knowsNewer_run_iff`** — which links keep an older announcement out.
* **`Learner.no_rollback`** — the result; **`Learner.withdrawal_forgotten`** — an announcement
  of no links leaves nothing that could keep an older one out.
-/

namespace Meshcast

theorem Topology.knowsNewer_iff {t : Topology} {now : Nat} {origin : NodeId} {ansn : SeqNum} :
    t.knowsNewer now origin ansn = true ↔ ∃ (arc : Arc) (slot : Slot SeqNum), arc.source = origin
      ∧ t.table.slots[arc]? = some slot ∧ slot.isLive now = true
      ∧ slot.value.isNewerThan ansn = true := by
  rw [← Bool.not_eq_false, knowsNewer_eq_false_iff]
  constructor
  · intro h
    by_contra hnone
    refine h fun arc known hknown hsource => ?_
    rw [← Bool.not_eq_true]
    intro hnewer
    obtain ⟨slot, hslot, hlive, rfl⟩ := ExpiringTable.get?_eq_some_iff.1 hknown
    exact hnone ⟨arc, slot, hsource, hslot, hlive, hnewer⟩
  · rintro ⟨arc, slot, hsource, hslot, hlive, hnewer⟩ h
    have hold := h arc slot.value (ExpiringTable.get?_eq_some_iff.2 ⟨slot, hslot, hlive, rfl⟩)
      hsource
    rw [hnewer] at hold
    nomatch hold

namespace InformationBase

variable {base : InformationBase} {now : Nat} {originator sender : Address} {tc : Tc}
  {validity : ValidityTime}

theorem applyTc_notSymmetric_iff :
    (base.applyTc now originator sender tc validity).1 = .notSymmetric ↔
      base.isSymmetricNeighbor now sender = false := by
  obtain ⟨outcome, base', happly, hhandling⟩ :=
    base.exists_tcHandling now originator sender tc validity
  rw [happly]
  cases hhandling with
  | notSymmetric hsender => exact iff_of_true rfl hsender
  | stale registry hsender hnewer hregistry => exact iff_of_false nofun (by rw [hsender]; nofun)
  | applied changed _ hsender hregistry happlied =>
    exact iff_of_false nofun (by rw [hsender]; nofun)

theorem applyTc_stale_iff :
    (base.applyTc now originator sender tc validity).1 = .stale ↔
      base.isSymmetricNeighbor now sender = true
        ∧ base.topology.knowsNewer now (base.registry.intern originator).1 tc.ansn = true := by
  obtain ⟨outcome, base', happly, hhandling⟩ :=
    base.exists_tcHandling now originator sender tc validity
  rw [happly]
  cases hhandling with
  | notSymmetric hsender => exact iff_of_false nofun (by rw [hsender]; nofun)
  | stale registry hsender hnewer hregistry => exact iff_of_true rfl ⟨hsender, hnewer⟩
  | applied changed _ hsender hregistry happlied =>
    exact iff_of_false nofun (by rw [happlied.notNewer]; nofun)

/-- What is refused changes neither links nor memberships. -/
theorem announced_of_refused
    (h : (base.applyTc now originator sender tc validity).1 = .stale
      ∨ (base.applyTc now originator sender tc validity).1 = .notSymmetric) :
    (base.applyTc now originator sender tc validity).2.topology = base.topology
      ∧ (base.applyTc now originator sender tc validity).2.groups = base.groups := by
  obtain ⟨outcome, base', happly, hhandling⟩ :=
    base.exists_tcHandling now originator sender tc validity
  rw [happly] at h ⊢
  cases hhandling with
  | notSymmetric hsender => exact ⟨rfl, rfl⟩
  | stale registry hsender hnewer hregistry => exact ⟨rfl, rfl⟩
  | applied changed _ hsender hregistry happlied => exact absurd h (by simp)

end InformationBase

namespace Learner

variable {l : Learner} {originator sender : Address} {tc : Tc} {validity : ValidityTime}

/-- An announcement that is applied has all it says recorded. -/
theorem tcApplied_of_applied?
    (h : l.applied? (.announcement originator sender tc validity) = some originator) :
    l.base.TcApplied l.now originator tc validity (l.base.registry.intern originator).1
      (l.step (.announcement originator sender tc validity)).base := by
  unfold applied? at h
  unfold step
  dsimp only at h ⊢
  obtain ⟨outcome, base', happly, hhandling⟩ :=
    l.base.exists_tcHandling l.now originator sender tc validity
  rw [happly] at h ⊢
  cases hhandling with
  | notSymmetric hsender => nomatch h
  | stale registry hsender hnewer hregistry => nomatch h
  | applied changed _ hsender hregistry happlied => exact happlied

section Later

variable (happlied : l.applied? (.announcement originator sender tc validity) = some originator)
  {events : List LearnerEvent}
  (hnone : ∀ v ∈ visits step (l.step (.announcement originator sender tc validity)) events,
    v.1.applied? v.2 ≠ some originator)

include happlied hnone

/-- An older announcement is kept out by the live links of the originator. These are links of the
newer announcement, or they were announced under the same number before. -/
theorem knowsNewer_run_iff {ansn : SeqNum} (holder : ansn.isOlderThan tc.ansn = true) :
    let applied := l.step (.announcement originator sender tc validity)
    let later := applied.run events
    (later.base.topology.knowsNewer later.now (later.base.registry.intern originator).1 ansn = true ↔
        ∃ (arc : Arc) (slot : Slot SeqNum), arc.source = (l.base.registry.intern originator).1
          ∧ applied.base.topology.table.slots[arc]? = some slot
          ∧ slot.isLive later.now = true)
      ∧ ∀ (arc : Arc) (slot : Slot SeqNum), arc.source = (l.base.registry.intern originator).1 →
        applied.base.topology.table.slots[arc]? = some slot → slot.isLive later.now = true →
          slot.value = tc.ansn
            ∧ ((∃ a ∈ tc.advertised, applied.base.registry.lookup? a = some arc.target)
              ∨ l.base.topology.table.slots[arc]? = some slot) := by
  intro applied later
  have htc := tcApplied_of_applied? happlied
  obtain ⟨hle, hknown, hkeeps⟩ := keeps_run htc.originator hnone
  have hintern : later.base.registry.intern originator
      = ((l.base.registry.intern originator).1, later.base.registry) :=
    Registry.intern_of_lookup? hknown
  have hunder : ∀ (arc : Arc) (slot : Slot SeqNum),
      arc.source = (l.base.registry.intern originator).1 →
        applied.base.topology.table.slots[arc]? = some slot → slot.isLive later.now = true →
          slot.value = tc.ansn
            ∧ ((∃ a ∈ tc.advertised, applied.base.registry.lookup? a = some arc.target)
              ∨ l.base.topology.table.slots[arc]? = some slot) := by
    intro arc slot harc hslot hlive
    have hlive' : slot.isLive l.now = true := by
      simp only [Slot.isLive, decide_eq_true_eq] at hlive ⊢
      exact Nat.lt_of_le_of_lt hle hlive
    exact htc.eq_ansn harc hslot hlive'
  refine ⟨?_, hunder⟩
  rw [Topology.knowsNewer_iff, hintern]
  constructor
  · rintro ⟨arc, slot, harc, hslot, hlive, -⟩
    exact ⟨arc, slot, harc, hkeeps.old arc slot harc hslot, hlive⟩
  · rintro ⟨arc, slot, harc, hslot, hlive⟩
    refine ⟨arc, slot, harc, hkeeps.kept arc slot harc hslot hlive, hlive, ?_⟩
    rw [(hunder arc slot harc hslot hlive).1, ← SeqNum.isOlderThan_eq]
    exact holder

/-- **No rollback.** Once an announcement was applied, and for as long as no other one of its
originator is, an older one of that originator is refused within the validity of the newer one, if
that lists anybody. If it lists nobody, then an older one from a symmetric neighbor is refused
exactly as long as a link lives that was announced under the same number before. Whatever is refused
leaves links and memberships as they are. -/
theorem no_rollback {sender' : Address} {tc' : Tc} {validity' : ValidityTime}
    (holder : tc'.ansn.isOlderThan tc.ansn = true) :
    let later := (l.step (.announcement originator sender tc validity)).run events
    let result := later.base.applyTc later.now originator sender' tc' validity'
    (result.1 = .stale ∨ result.1 = .notSymmetric →
        result.2.topology = later.base.topology ∧ result.2.groups = later.base.groups)
      ∧ (tc.advertised ≠ ∅ → later.now < l.now + validity.millis →
        result.1 = .stale ∨ result.1 = .notSymmetric)
      ∧ (tc.advertised = ∅ → (result.1 = .stale ∨ result.1 = .notSymmetric ↔
        later.base.isSymmetricNeighbor later.now sender' = true →
          ∃ (arc : Arc) (slot : Slot SeqNum), arc.source = (l.base.registry.intern originator).1
            ∧ l.base.topology.table.slots[arc]? = some slot ∧ slot.value = tc.ansn
            ∧ later.now < slot.expiresAt)) := by
  intro later result
  have htc := tcApplied_of_applied? happlied
  obtain ⟨hnewer, hunder⟩ := knowsNewer_run_iff happlied hnone holder
  have hrefused : result.1 = .stale ∨ result.1 = .notSymmetric ↔
      (later.base.isSymmetricNeighbor later.now sender' = true →
        later.base.topology.knowsNewer later.now (later.base.registry.intern originator).1
          tc'.ansn = true) := by
    rw [InformationBase.applyTc_stale_iff, InformationBase.applyTc_notSymmetric_iff]
    cases later.base.isSymmetricNeighbor later.now sender' <;> simp
  refine ⟨InformationBase.announced_of_refused, ?_, ?_⟩
  · intro hsome hvalid
    rw [hrefused]
    intro _
    rw [Ne, Std.ExtTreeSet.eq_empty_iff_forall_not_mem, not_forall_not] at hsome
    obtain ⟨a, ha⟩ := hsome
    obtain ⟨target, htarget⟩ := htc.advertised a ha
    refine hnewer.2 ⟨⟨_, target⟩, _, rfl, htc.announced _ rfl ⟨a, ha, htarget⟩, ?_⟩
    apply decide_eq_true
    show later.now < l.now + min validity.millis maxLifetime
    rwa [validity.min_millis]
  · intro hnobody
    have hnotListed : ∀ target, ¬∃ a ∈ tc.advertised,
        (l.step (.announcement originator sender tc validity)).base.registry.lookup? a
          = some target := by
      rintro target ⟨a, ha, -⟩
      rw [hnobody] at ha
      exact Std.ExtTreeSet.not_mem_empty ha
    rw [hrefused]
    refine imp_congr_right fun _ => hnewer.trans ?_
    constructor
    · rintro ⟨arc, slot, harc, hslot, hlive⟩
      obtain ⟨hvalue, hlisted | hold⟩ := hunder arc slot harc hslot hlive
      · exact absurd hlisted (hnotListed _)
      · exact ⟨arc, slot, harc, hold, hvalue, of_decide_eq_true hlive⟩
    · rintro ⟨arc, slot, harc, hslot, hvalue, hlive⟩
      refine ⟨arc, slot, harc, ?_, decide_eq_true hlive⟩
      rw [htc.others arc fun hboth => hnotListed _ hboth.2, hslot]
      exact Option.filter_some_pos (by simp [hvalue, SeqNum.age_self])

end Later

/-- The number 5 of the ninth participant keeps out the number 4 after fourteen seconds of its
fifteen. -/
theorem no_rollback_linked :
    let newer : Tc := { ansn := ⟨5⟩, advertised := .ofList [participant 8] }
    let older : Tc := { ansn := ⟨4⟩, groups := .ofList [participant 0] }
    let later := (linked.step (.announcement (participant 9) (participant 2) newer ⟨0xe7⟩)).run
      [.sweepLinks, .advance 14000]
    (later.base.applyTc later.now (participant 9) (participant 2) older ⟨0xe7⟩).1 = .stale := by
  intro newer older later
  have happlied : linked.applied? (.announcement (participant 9) (participant 2) newer ⟨0xe7⟩)
      = some (participant 9) := by decide +kernel
  have hnone : ∀ v ∈ visits step
      (linked.step (.announcement (participant 9) (participant 2) newer ⟨0xe7⟩))
      [.sweepLinks, .advance 14000], v.1.applied? v.2 ≠ some (participant 9) := by decide +kernel
  have holder : older.ansn.isOlderThan newer.ansn = true := by decide
  obtain ⟨-, hrefused, -⟩ := no_rollback happlied hnone holder
  refine (hrefused (by decide +kernel) (by decide +kernel)).resolve_right ?_
  decide +kernel

/-- The ninth participant joins a group and has no links to announce any more. What it announced
before, coming in late, brings back a link and takes the membership away. -/
theorem withdrawal_forgotten :
    let withdrawal : Tc := { ansn := ⟨2⟩, groups := .ofList [participant 0] }
    let older : Tc := { ansn := ⟨1⟩, advertised := .ofList [participant 8] }
    let later := linked.step (.announcement (participant 9) (participant 2) withdrawal ⟨0xe8⟩)
    let result := later.base.applyTc later.now (participant 9) (participant 2) older ⟨0xe8⟩
    linked.applied? (.announcement (participant 9) (participant 2) withdrawal ⟨0xe8⟩)
        = some (participant 9)
      ∧ older.ansn.isOlderThan withdrawal.ansn = true
      ∧ later.now < linked.now + (⟨0xe8⟩ : ValidityTime).millis
      ∧ result.1 = .applied true
      ∧ (result.2.topology.arcs later.now).length ≠ (later.base.topology.arcs later.now).length
      ∧ result.2.groups ≠ later.base.groups := by
  decide +kernel

end Learner

end Meshcast
