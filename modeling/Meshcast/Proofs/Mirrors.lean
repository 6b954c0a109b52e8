import Mathlib.Data.List.Chain
import Meshcast.Proofs.Advertisers
import Meshcast.Proofs.Learners

/-!
# Meshcast — a receiver mirrors the advertiser

Links that are announced again under the number that they have are kept without being compared, and
all others of their originator are dropped. This comes to taking over what is announced, provided
that equal numbers announce equal sets and that no number is taken for an older one.

* **`InformationBase.Mirrors`** — an information base says of somebody what an announcement says.
* **`Learner.Follows`** — the invariant: live links are those of the last announcement that was
  heard; **`follows_step`** — everything but an announcement preserves it.
* **`Learner.mirrors_step`** — an announcement that is not older is applied and mirrored.
* **`mirrors_of_announcements`** — the result.
-/

namespace Meshcast

/-- What is known of the participant `a` is what an announcement says: exactly the announced links
live, and it is in exactly the announced groups. -/
structure InformationBase.Mirrors (base : InformationBase) (now : Nat) (a : Address) (tc : Tc) :
    Prop where
  advertised : ∀ b ∈ tc.advertised, ∃ id, base.registry.lookup? b = some id
  links : ∀ arc : Arc, base.registry.lookup? a = some arc.source →
    ((base.topology.get? now arc).isSome = true ↔
      ∃ b ∈ tc.advertised, base.registry.lookup? b = some arc.target)
  groups : ∃ id, base.registry.lookup? a = some id ∧ base.groups.joined id = tc.groups

namespace Learner

/-- The announcement of a participant that comes in, if it comes from a symmetric neighbor. -/
def heard? (l : Learner) (a : Address) : LearnerEvent → Option Tc
  | .announcement originator sender tc _ =>
    if originator = a ∧ l.base.isSymmetricNeighbor l.now sender = true then some tc else none
  | _ => none

theorem exists_of_heard? {l : Learner} {a : Address} {e : LearnerEvent} {tc : Tc}
    (h : l.heard? a e = some tc) :
    ∃ sender validity, e = .announcement a sender tc validity
      ∧ l.base.isSymmetricNeighbor l.now sender = true := by
  cases e with
  | announcement originator sender tc' validity =>
    unfold heard? at h
    dsimp only at h
    split at h
    · rename_i hheard
      obtain rfl := Option.some.inj h
      exact ⟨sender, validity, by rw [hheard.1], hheard.2⟩
    · nomatch h
  | _ => nomatch h

/-! ## Live links are those that were heard of last -/

/-- Whoever announced a link is known, and every live link of `a` has the number of the last
announcement of `a` that was heard and is in it. -/
structure Follows (l : Learner) (a : Address) (last : Option Tc) : Prop where
  sources : ∀ (arc : Arc) (slot : Slot SeqNum), l.base.topology.table.slots[arc]? = some slot →
    ∃ b, l.base.registry.address? arc.source = some b
  links : ∀ (arc : Arc) (slot : Slot SeqNum), l.base.topology.table.slots[arc]? = some slot →
    slot.isLive l.now = true → l.base.registry.lookup? a = some arc.source →
      ∃ tc, last = some tc ∧ slot.value = tc.ansn
        ∧ ∃ b ∈ tc.advertised, l.base.registry.lookup? b = some arc.target

variable {l l' : Learner} {a : Address} {last : Option Tc} {e : LearnerEvent} {tc : Tc}

theorem follows_of_empty (h : l.base.topology.table.slots = ∅) : l.Follows a none := by
  constructor
  · intro arc slot hslot
    simp [h] at hslot
  · intro arc slot hslot
    simp [h] at hslot

/-- Who is known as `a` was known as `a` before, if it had announced a link by then. -/
theorem Follows.lookup?_eq (h : l.Follows a last) {registry : Registry}
    (hregistry : l.base.registry.Extends registry) {arc : Arc} {slot : Slot SeqNum}
    (hslot : l.base.topology.table.slots[arc]? = some slot)
    (ha : registry.lookup? a = some arc.source) :
    l.base.registry.lookup? a = some arc.source := by
  obtain ⟨b, hb⟩ := h.sources arc slot hslot
  rw [← Registry.lookup?_eq_some_iff] at hb
  rwa [Registry.lookup?_injective ha (hregistry _ _ hb)]

/-- It is not forgotten as long as new links are those of others. -/
theorem Follows.keep (h : l.Follows a last)
    (hregistry : l.base.registry.Extends l'.base.registry) (hnow : l.now ≤ l'.now)
    (hslots : ∀ (arc : Arc) (slot : Slot SeqNum), l'.base.topology.table.slots[arc]? = some slot →
      l.base.topology.table.slots[arc]? = some slot
        ∨ ∃ b, b ≠ a ∧ l'.base.registry.lookup? b = some arc.source) :
    l'.Follows a last where
  sources arc slot hslot := by
    rcases hslots arc slot hslot with hold | ⟨b, -, hb⟩
    · obtain ⟨b, hb⟩ := h.sources arc slot hold
      exact ⟨b, hregistry.address? hb⟩
    · exact ⟨b, (Registry.lookup?_eq_some_iff _ _ _).1 hb⟩
  links arc slot hslot hlive ha := by
    rcases hslots arc slot hslot with hold | ⟨b, hne, hb⟩
    · have hlive' : slot.isLive l.now = true := by
        simp only [Slot.isLive, decide_eq_true_eq] at hlive ⊢
        omega
      obtain ⟨tc, hlast, hansn, b, hb, htarget⟩ :=
        h.links arc slot hold hlive' (h.lookup?_eq hregistry hold ha)
      exact ⟨tc, hlast, hansn, b, hb, hregistry _ _ htarget⟩
    · exact absurd (Registry.lookup?_injective hb ha) hne

/-- Whatever happens, unless an announcement of `a` is heard. -/
theorem follows_step (h : l.Follows a last) (hnone : l.heard? a e = none) :
    (l.step e).Follows a last := by
  refine h.keep (l.extends_step e) (l.now_le_step e) ?_
  intro arc slot hslot
  cases e with
  | announcement originator sender tc validity =>
    unfold step at hslot ⊢
    dsimp only at hslot ⊢
    obtain ⟨outcome, base', happly, hhandling⟩ :=
      l.base.exists_tcHandling l.now originator sender tc validity
    rw [happly] at hslot ⊢
    cases hhandling with
    | notSymmetric hsender => exact .inl hslot
    | stale registry hsender hnewer hregistry => exact .inl hslot
    | applied changed _ hsender hregistry happlied =>
      have hother : originator ≠ a := by
        rintro rfl
        simp [heard?, hsender] at hnone
      by_cases hsource : arc.source = (l.base.registry.intern originator).1
      · exact .inr ⟨originator, hother, hsource ▸ happlied.originator⟩
      · exact .inl ((happlied.slots_of_other hsource).symm.trans hslot)
  | sweepLinks => exact .inl ((Topology.keeps_sweep _ _ arc.source).old arc slot rfl hslot)
  | _ => exact .inl hslot

/-! ## Announcements that are heard -/

/-- Between two announcements there is no going back, and if they have the same number then they
announce the same. -/
def Succeeds (prior tc : Tc) : Prop :=
  prior.ansn.isNewerThan tc.ansn = false
    ∧ (prior.ansn = tc.ansn → prior.advertised = tc.advertised)

/-- What is known of `a` is the last announcement, which is not newer. -/
theorem Follows.knowsNewer_eq_false (h : l.Follows a last)
    (hsucceeds : ∀ prior, last = some prior → Succeeds prior tc) :
    l.base.topology.knowsNewer l.now (l.base.registry.intern a).1 tc.ansn = false := by
  rw [Topology.knowsNewer_eq_false_iff]
  intro arc known hknown hsource
  obtain ⟨slot, hslot, hlive, rfl⟩ := ExpiringTable.get?_eq_some_iff.1 hknown
  have ha : (l.base.registry.intern a).2.lookup? a = some arc.source := by
    rw [Registry.lookup?_intern, if_pos rfl, hsource]
  obtain ⟨prior, hlast, hansn, -⟩ := h.links arc slot hslot hlive
    (h.lookup?_eq (l.base.registry.extends_intern a) hslot ha)
  rw [hansn]
  exact (hsucceeds prior hlast).1

section Applied

variable {base' : InformationBase} {validity : ValidityTime} {origin : NodeId}
  (hregistry : l.base.registry.Extends base'.registry)
  (happlied : l.base.TcApplied l.now a tc validity origin base')

include hregistry happlied

/-- Links that are still there were announced under the same number, so they are announced again. -/
theorem Follows.announced_of_applied (h : l.Follows a last)
    (hsucceeds : ∀ prior, last = some prior → Succeeds prior tc) {arc : Arc} {slot : Slot SeqNum}
    (hsource : arc.source = origin) (hslot : base'.topology.table.slots[arc]? = some slot)
    (hlive : slot.isLive l.now = true) :
    slot.value = tc.ansn ∧ ∃ b ∈ tc.advertised, base'.registry.lookup? b = some arc.target := by
  obtain ⟨hvalue, hannounced | hold⟩ := happlied.eq_ansn hsource hslot hlive
  · exact ⟨hvalue, hannounced⟩
  · have ha := h.lookup?_eq hregistry hold (hsource ▸ happlied.originator)
    obtain ⟨prior, hlast, hansn, b, hb, htarget⟩ := h.links arc slot hold hlive ha
    rw [(hsucceeds prior hlast).2 (hansn.symm.trans hvalue)] at hb
    exact ⟨hvalue, b, hb, hregistry _ _ htarget⟩

theorem Follows.mirrors_of_applied (h : l.Follows a last)
    (hsucceeds : ∀ prior, last = some prior → Succeeds prior tc) :
    base'.Mirrors l.now a tc where
  advertised := happlied.advertised
  links arc ha := by
    have hsource : arc.source = origin := by
      rw [happlied.originator] at ha
      exact (Option.some.inj ha).symm
    rw [Option.isSome_iff_exists]
    constructor
    · rintro ⟨known, hknown⟩
      obtain ⟨slot, hslot, hlive, -⟩ := ExpiringTable.get?_eq_some_iff.1 hknown
      exact (h.announced_of_applied hregistry happlied hsucceeds hsource hslot hlive).2
    · intro hannounced
      exact ⟨tc.ansn, ExpiringTable.get?_eq_some_iff.2 ⟨_, happlied.announced arc hsource
        hannounced, Slot.isLive_deadline _ _ validity.millis_pos, rfl⟩⟩
  groups := by
    refine ⟨origin, happlied.originator, ?_⟩
    rw [happlied.groups]
    exact Groups.joined_update _ _ _

theorem Follows.follows_of_applied (h : l.Follows a last)
    (hsucceeds : ∀ prior, last = some prior → Succeeds prior tc) :
    ({ now := l.now, base := base' } : Learner).Follows a (some tc) where
  sources arc slot hslot := by
    by_cases hsource : arc.source = origin
    · exact ⟨a, hsource ▸ (Registry.lookup?_eq_some_iff _ _ _).1 happlied.originator⟩
    · obtain ⟨b, hb⟩ := h.sources arc slot ((happlied.slots_of_other hsource).symm.trans hslot)
      exact ⟨b, hregistry.address? hb⟩
  links arc slot hslot hlive ha := by
    have hsource : arc.source = origin := by
      rw [happlied.originator] at ha
      exact (Option.some.inj ha).symm
    exact ⟨tc, rfl, h.announced_of_applied hregistry happlied hsucceeds hsource hslot hlive⟩

end Applied

/-- An announcement that succeeds the last one is applied, and then it is mirrored. -/
theorem mirrors_step (h : l.Follows a last) (hheard : l.heard? a e = some tc)
    (hsucceeds : ∀ prior, last = some prior → Succeeds prior tc) :
    l.applied? e = some a ∧ (l.step e).base.Mirrors (l.step e).now a tc
      ∧ (l.step e).Follows a (some tc) := by
  obtain ⟨sender, validity, rfl, hsender⟩ := exists_of_heard? hheard
  obtain ⟨outcome, base', happly, hhandling⟩ :=
    l.base.exists_tcHandling l.now a sender tc validity
  unfold step applied?
  dsimp only
  rw [happly]
  cases hhandling with
  | notSymmetric hnot =>
    rw [hsender] at hnot
    nomatch hnot
  | stale registry _ hnewer hregistry =>
    rw [h.knowsNewer_eq_false hsucceeds] at hnewer
    nomatch hnewer
  | applied changed _ _ hregistry happlied =>
    exact ⟨rfl, h.mirrors_of_applied hregistry happlied hsucceeds,
      h.follows_of_applied hregistry happlied hsucceeds⟩

/-- Announcements of `a` that succeed each other are all applied, and each is mirrored. -/
theorem mirrors_visits (h : l.Follows a last) {events : List LearnerEvent}
    (hchain : (last.toList ++ (visits step l events).filterMap fun v => v.1.heard? a v.2).IsChain
      Succeeds) :
    ∀ v ∈ visits step l events, ∀ tc, v.1.heard? a v.2 = some tc →
      v.1.applied? v.2 = some a ∧ (v.1.step v.2).base.Mirrors (v.1.step v.2).now a tc := by
  induction events generalizing l last with
  | nil => exact fun _ hv => absurd hv List.not_mem_nil
  | cons e rest ih =>
    unfold visits at hchain
    rw [List.filterMap_cons] at hchain
    dsimp only at hchain
    intro v hv tc htc
    cases hheard : l.heard? a e with
    | none =>
      rw [hheard] at hchain
      rcases List.mem_cons.1 hv with rfl | hv
      · rw [hheard] at htc
        nomatch htc
      · exact ih (follows_step h hheard) hchain v hv tc htc
    | some first =>
      rw [hheard] at hchain
      have hsucceeds : ∀ prior, last = some prior → Succeeds prior first := by
        rintro prior rfl
        exact (List.isChain_cons_cons.1 hchain).1
      obtain ⟨happlied, hmirrors, hfollows⟩ := mirrors_step h hheard hsucceeds
      rcases List.mem_cons.1 hv with rfl | hv
      · rw [hheard, Option.some.injEq] at htc
        subst htc
        exact ⟨happlied, hmirrors⟩
      · exact ih hfollows hchain.right_of_append v hv tc htc

end Learner

/-! ## An advertiser and a receiver -/

/-- **A receiver mirrors the advertiser.** Take any run of a node, in which its selectors may also
become whatever else, and let some of its announcements, in the order in which they were made and
with fewer than half a round of numbers between one and the next, be those of its announcements that
a receiver hears from symmetric neighbors. Whatever else happens to the receiver in between, it
applies each of them, and right after that what it knows of the node is what the announcement says.
And two announcements with equal numbers announce the same selectors, if the number did not move on
half a round between them. -/
theorem mirrors_of_announcements (address : Address) (config : Config) (since : Nat)
    (changes : List AdvertiserEvent) {l : Learner} (hempty : l.base.topology.table.slots = ∅)
    {events : List LearnerEvent} {delivered : List (Nat × Tc)}
    (hdelivered : delivered.Sublist ((Moment.start address config since).announcements 0 changes))
    (hnear : delivered.IsChain fun x y => y.1 < x.1 + 32768)
    (hheard : (visits Learner.step l events).filterMap (fun v => v.1.heard? address v.2)
      = delivered.map Prod.snd) :
    (∀ v ∈ visits Learner.step l events, ∀ tc, v.1.heard? address v.2 = some tc →
        v.1.applied? v.2 = some address
          ∧ (v.1.step v.2).base.Mirrors (v.1.step v.2).now address tc)
      ∧ ((Moment.start address config since).announcements 0 changes).Pairwise fun x y =>
        y.1 < x.1 + 32768 → x.2.ansn = y.2.ansn → x.2.advertised = y.2.advertised := by
  have hagree := Moment.announcements_agree (m := Moment.start address config since)
    (Node.advertises_start address config) changes
  refine ⟨Learner.mirrors_visits (Learner.follows_of_empty hempty) ?_,
    hagree.imp fun h hnear => (h hnear).2⟩
  rw [hheard]
  show (delivered.map Prod.snd).IsChain Learner.Succeeds
  rw [List.isChain_map]
  have hpairwise := hagree.sublist hdelivered
  clear hdelivered hheard
  induction hnear with
  | nil => exact .nil
  | singleton x => exact .singleton x
  | cons_cons hfirst _ ih =>
    rw [List.pairwise_cons] at hpairwise
    exact .cons_cons (hpairwise.1 _ List.mem_cons_self hfirst) (ih hpairwise.2)

open Learner in
/-- The ninth participant loses one selector, wins another one and joins a group. -/
theorem mirrors_linked :
    let first : Tc := { ansn := ⟨1⟩, advertised := .ofList [participant 8] }
    let second : Tc :=
      { ansn := ⟨2⟩, advertised := .ofList [participant 7], groups := .ofList [participant 0] }
    let before : List LearnerEvent :=
      [.announcement (participant 9) (participant 2) first ⟨0xe8⟩, .sweepLinks, .advance 5000]
    let l := (linked.run before).step (.announcement (participant 9) (participant 2) second ⟨0xe8⟩)
    l.base.Mirrors l.now (participant 9) second := by
  intro first second before l
  have hdelivered : [(1, first), (2, second)].Sublist
      ((Moment.start (participant 9) {} 0).announcements 0
        [.select [participant 8], .operation .makeTc, .select [participant 7],
          .operation (.join (participant 0)), .operation .makeTc]) := by
    decide +kernel
  have hheard : (visits step linked
        (before ++ [.announcement (participant 9) (participant 2) second ⟨0xe8⟩])).filterMap
      (fun v => v.1.heard? (participant 9) v.2) = [(1, first), (2, second)].map Prod.snd := by
    decide +kernel
  have hnear : [(1, first), (2, second)].IsChain fun x y => y.1 < x.1 + 32768 :=
    .cons_cons (by decide) (.singleton _)
  have hempty : linked.base.topology.table.slots = ∅ := rfl
  obtain ⟨hmirrors, -⟩ :=
    mirrors_of_announcements (participant 9) {} 0 _ hempty hdelivered hnear hheard
  refine (hmirrors (linked.run before, _) ?_ second (by decide +kernel)).2
  exact .tail _ (.tail _ (.tail _ (.head _)))

end Meshcast
