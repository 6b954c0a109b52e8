import Meshcast.Proofs.Handling

/-!
# Meshcast — what a node announces in the course of time

A node announces its selectors under a number, and the number moves on when it makes an announcement
after a change, not when the change happens. What counts is that two announcements between which the
number did not move on announce the same selectors.

* **`AdvertiserEvent`**, **`Moment.occur`** — what can happen to a node that makes announcements.
* **`Moment.announcements`** — the announcements it makes, each with how often the number has moved
  on.
* **`Node.Advertises`**, **`advertises_occur`** — selectors are known, and the number is counted.
* **`Moment.announcements_spec`**, **`Moment.announcements_agree`** — the result.
-/

namespace Meshcast

/-! ## Announcements -/

/-- What can happen to a node that makes announcements. Its operations change the selectors in ways
of their own; here they may also become whatever else. -/
inductive AdvertiserEvent
  | operation (op : Operation)
  /-- Exactly these participants become selectors. -/
  | select (selectors : List Address)

namespace Node

/-- Have exactly the given participants be the selectors. -/
def select (node : Node) (selectors : List Address) : Node :=
  let (ids, registry) := node.registry.internAll selectors
  { node with registry, selectors := (node.selectors.update fun _ => .ofList ids).2 }

theorem selectors_select (node : Node) (selectors : List Address) :
    (node.select selectors).selectors =
      (node.selectors.update fun _ => .ofList (node.registry.internAll selectors).1).2 := rfl

/-- The addresses of the selectors. -/
def selectorAddresses (node : Node) : AddressSet :=
  .ofList (node.registry.addresses node.selectors.members.toList)

end Node

namespace Moment

/-- The moment after an event. -/
def occur (m : Moment) : AdvertiserEvent → Moment
  | .operation op => m.step op
  | .select selectors => { m with node := m.node.select selectors }

/-- The announcement that is made in an event. -/
def announced? (m : Moment) : AdvertiserEvent → Option Tc
  | .operation .makeTc =>
    match m.node.makeTc.1.body with
    | .tc tc => some tc
    | .hello _ => none
  | _ => none

/-- How often the number has moved on after an event, if it was `moves` times before. -/
def movesAfter (m : Moment) (moves : Nat) (e : AdvertiserEvent) : Nat :=
  if (m.occur e).node.selectors.ansn = m.node.selectors.ansn then moves else moves + 1

/-- The announcements that are made in a sequence of events. Each comes with how often the number
has moved on by then, which was `moves` times before. -/
def announcements (m : Moment) (moves : Nat) : List AdvertiserEvent → List (Nat × Tc)
  | [] => []
  | e :: rest =>
    ((m.announced? e).map (m.movesAfter moves e, ·)).toList
      ++ (m.occur e).announcements (m.movesAfter moves e) rest

theorem le_movesAfter (m : Moment) (moves : Nat) (e : AdvertiserEvent) :
    moves ≤ m.movesAfter moves e := by
  unfold movesAfter
  split <;> omega

theorem movesAfter_eq_iff {m : Moment} {moves : Nat} {e : AdvertiserEvent} :
    m.movesAfter moves e = moves ↔
      (m.occur e).node.selectors.ansn = m.node.selectors.ansn := by
  unfold movesAfter
  split
  · exact iff_of_true rfl ‹_›
  · exact iff_of_false (by omega) ‹_›

end Moment

/-! ## Selectors are known -/

namespace Node

variable {node node' : Node} {now moves : Nat}

theorem mem_selectorAddresses {a : Address} :
    a ∈ node.selectorAddresses ↔
      ∃ id ∈ node.selectors.members, node.registry.address? id = some a := by
  unfold selectorAddresses Registry.addresses
  rw [mem_ofList, List.mem_filterMap]
  simp only [Std.ExtTreeSet.mem_toList]

/-- A node knows itself and its selectors, and the number of its announcements was counted up so
many times. -/
structure Advertises (node : Node) (moves : Nat) : Prop where
  self_known : node.registry.lookup? node.address = some node.self
  selectors_known : ∀ id ∈ node.selectors.members, ∃ a, node.registry.address? id = some a
  ansn_eq : node.selectors.ansn = .count moves

theorem advertises_start (address : Address) (config : Config) :
    (Node.start address config).Advertises 0 where
  self_known := (recalls_start address config 0).self_known
  selectors_known _ hid := absurd hid Std.ExtTreeSet.not_mem_empty
  ansn_eq := rfl

/-- Whoever becomes a selector is known. -/
theorem mem_selectors_perform (hself : node.registry.lookup? node.address = some node.self)
    {op : Operation} {id : NodeId} (h : id ∈ (node.perform now op).selectors.members) :
    id ∈ node.selectors.members ∨ ∃ a, (node.perform now op).registry.address? id = some a := by
  cases hgreeting : node.greetingOf? now op with
  | none => exact .inl ((retains_perform hgreeting).selectors id h)
  | some heard =>
    obtain ⟨packet, hheard, hperform⟩ := exists_of_greetingOf? hgreeting
    obtain ⟨source, slot, htaken⟩ := helloTaken_receivePacket hself hheard
    rw [hperform] at h ⊢
    obtain ⟨hmem, -⟩ := (htaken.mem_selectors id).1 h
    split at hmem
    · rename_i heq
      exact .inr ⟨heard.1, heq ▸ (Registry.lookup?_eq_some_iff _ _ _).1 htaken.lookup?_source⟩
    · exact .inl hmem

/-- Only an announcement moves the number on, and no change of the selectors escapes the flag. -/
theorem noted_perform {op : Operation} (h : op ≠ .makeTc) :
    node.selectors.Noted (node.perform now op).selectors := by
  cases op with
  | receiveControl bytes neighbor =>
    unfold perform receiveControl
    dsimp only
    split
    · exact (node.keepsOwn_receivePacket now _ neighbor).selectors
    · exact .refl _
  | receivePacket packet neighbor =>
    exact (node.keepsOwn_receivePacket now packet neighbor).selectors
  | makeTc => exact absurd rfl h
  | sweep => exact (node.keepsOwn_sweep now).selectors
  | recompute => exact (node.keepsOwn_recompute now).selectors
  | receiveData bytes =>
    unfold perform
    dsimp only
    split <;> exact .refl _
  | _ => exact .refl _

/-- The same selectors are known under the same addresses. -/
theorem selectorAddresses_eq (h : node.Advertises moves)
    (hregistry : node.registry.Extends node'.registry)
    (hmembers : node'.selectors.members = node.selectors.members) :
    node'.selectorAddresses = node.selectorAddresses := by
  refine Std.ExtTreeSet.ext_mem fun a => ?_
  rw [mem_selectorAddresses, mem_selectorAddresses, hmembers]
  refine exists_congr fun id => and_congr_right fun hid => ?_
  obtain ⟨b, hb⟩ := h.selectors_known id hid
  rw [hb, hregistry.address? hb]

end Node

/-! ## Events -/

namespace Moment

variable {m : Moment} {moves : Nat}

theorem extends_occur (m : Moment) (e : AdvertiserEvent) :
    m.node.registry.Extends (m.occur e).node.registry := by
  cases e with
  | operation op => exact (Node.grows_perform m.node m.now op).base.registry
  | select selectors => exact Registry.extends_internAll _ _

/-- Whatever happens but an announcement is noted; an announcement moves the number on if there was
anything to note. -/
theorem selectors_occur (m : Moment) (e : AdvertiserEvent) :
    (m.announced? e = none ∧ m.node.selectors.Noted (m.occur e).node.selectors)
      ∨ m.announced? e = some
          { ansn := (m.occur e).node.selectors.ansn
            advertised := m.node.selectorAddresses
            groups := m.node.groups.joined m.node.self }
        ∧ (m.occur e).node.selectors = m.node.selectors.advertise.2
        ∧ (m.occur e).node.registry = m.node.registry := by
  cases e with
  | operation op =>
    by_cases hop : op = .makeTc
    · subst hop
      exact .inr ⟨rfl, rfl, rfl⟩
    · refine .inl ⟨?_, Node.noted_perform hop⟩
      unfold announced?
      split
      · exact absurd ‹_› (fun h => hop (AdvertiserEvent.operation.inj h))
      · rfl
  | select selectors =>
    refine .inl ⟨rfl, ?_⟩
    show m.node.selectors.Noted (m.node.select selectors).selectors
    rw [Node.selectors_select]
    exact Selectors.noted_update _ _

/-- Every event preserves that selectors are known and that the number is counted. -/
theorem advertises_occur (h : m.node.Advertises moves) (e : AdvertiserEvent) :
    (m.occur e).node.Advertises (m.movesAfter moves e) where
  self_known := by
    cases e with
    | operation op =>
      have hgrows := Node.grows_perform m.node m.now op
      show (m.node.perform m.now op).registry.lookup? (m.node.perform m.now op).address = _
      rw [hgrows.address_eq, show (m.occur (.operation op)).node.self = _ from hgrows.base.self_eq]
      exact hgrows.base.registry _ _ h.self_known
    | select selectors => exact Registry.extends_internAll _ _ _ _ h.self_known
  selectors_known id hid := by
    have hkept : id ∈ m.node.selectors.members →
        ∃ a, (m.occur e).node.registry.address? id = some a := by
      intro hold
      obtain ⟨a, ha⟩ := h.selectors_known id hold
      exact ⟨a, (m.extends_occur e).address? ha⟩
    cases e with
    | operation op =>
      rcases Node.mem_selectors_perform h.self_known hid with hold | hknown
      · exact hkept hold
      · exact hknown
    | select selectors =>
      have hmem : id ∈ (m.node.select selectors).selectors.members := hid
      rw [Node.selectors_select, Selectors.members_update] at hmem
      obtain ⟨a, -, ha⟩ := Registry.exists_address?_of_mem_internAll (mem_ofList.1 hmem)
      exact ⟨a, ha⟩
  ansn_eq := by
    unfold movesAfter
    rcases m.selectors_occur e with ⟨-, hnoted⟩ | ⟨-, hselectors, -⟩
    · rw [if_pos hnoted.ansn_eq, hnoted.ansn_eq, h.ansn_eq]
    · have hansn : (m.occur e).node.selectors.ansn = if m.node.selectors.set.changed then
          m.node.selectors.ansn.next else m.node.selectors.ansn := by
        rw [hselectors]
        rfl
      split
      · rename_i hsame
        rw [hsame, h.ansn_eq]
      · rename_i hmoved
        rw [hansn] at hmoved ⊢
        split
        · rw [h.ansn_eq, SeqNum.next_count]
        · rename_i hquiet
          rw [if_neg hquiet] at hmoved
          exact absurd rfl hmoved

/-- If the number stays and the flag is down, nothing has changed. -/
theorem selectorAddresses_occur (h : m.node.Advertises moves) {e : AdvertiserEvent}
    (hansn : (m.occur e).node.selectors.ansn = m.node.selectors.ansn)
    (hquiet : (m.occur e).node.selectors.set.changed = false) :
    m.node.selectors.set.changed = false
      ∧ (m.occur e).node.selectorAddresses = m.node.selectorAddresses := by
  rcases m.selectors_occur e with ⟨-, hnoted⟩ | ⟨-, hselectors, -⟩
  · have heq := hnoted.quiet hquiet
    exact ⟨heq ▸ hquiet, Node.selectorAddresses_eq h (m.extends_occur e) (by rw [heq])⟩
  · refine ⟨?_, Node.selectorAddresses_eq h (m.extends_occur e) (by rw [hselectors]; rfl)⟩
    -- a change would have moved the number on
    by_contra hchanged
    rw [Bool.not_eq_false] at hchanged
    rw [hselectors, h.ansn_eq] at hansn
    unfold Selectors.advertise FlaggedSet.takeChanged at hansn
    rw [hchanged] at hansn
    dsimp only at hansn
    rw [if_pos rfl, h.ansn_eq, SeqNum.next_count, SeqNum.count_eq_iff] at hansn
    omega

/-! ## Runs -/

/-- An announcement is made under the number that is counted. As long as the number has not moved on
and there is nothing new, it announces the selectors as they are. -/
structure Continues (m : Moment) (moves : Nat) (x : Nat × Tc) : Prop where
  moves_le : moves ≤ x.1
  ansn_eq : x.2.ansn = .count x.1
  current : x.1 = moves → m.node.selectors.set.changed = false
    ∧ x.2.advertised = m.node.selectorAddresses

/-- The announcement of an event continues the moment after it. -/
theorem continues_of_announced? (h : m.node.Advertises moves) {e : AdvertiserEvent} {tc : Tc}
    (htc : m.announced? e = some tc) :
    (m.occur e).Continues (m.movesAfter moves e) (m.movesAfter moves e, tc) := by
  rcases m.selectors_occur e with ⟨hnone, -⟩ | ⟨hsome, hselectors, hregistry⟩
  · rw [hnone] at htc
    nomatch htc
  · rw [hsome, Option.some.injEq] at htc
    subst htc
    refine ⟨Nat.le_refl _, (advertises_occur h e).ansn_eq, fun _ => ⟨?_, ?_⟩⟩
    · rw [hselectors]
      rfl
    · show m.node.selectorAddresses = (m.occur e).node.selectorAddresses
      unfold Node.selectorAddresses
      rw [hselectors, hregistry]
      rfl

/-- What continues the moment after an event continues the moment before it. -/
theorem Continues.of_occur (h : m.node.Advertises moves) {e : AdvertiserEvent} {x : Nat × Tc}
    (hx : (m.occur e).Continues (m.movesAfter moves e) x) : m.Continues moves x where
  moves_le := Nat.le_trans (m.le_movesAfter moves e) hx.moves_le
  ansn_eq := hx.ansn_eq
  current heq := by
    have hstays : m.movesAfter moves e = moves :=
      Nat.le_antisymm (heq ▸ hx.moves_le) (m.le_movesAfter moves e)
    obtain ⟨hquiet, hadvertised⟩ := hx.current (heq.trans hstays.symm)
    obtain ⟨hquiet', haddresses⟩ := selectorAddresses_occur h (movesAfter_eq_iff.1 hstays) hquiet
    exact ⟨hquiet', hadvertised.trans haddresses⟩

/-- Announcements are made under numbers that are counted up, and two of them between which the
number has not moved on announce the same selectors. -/
theorem announcements_spec (h : m.node.Advertises moves) (events : List AdvertiserEvent) :
    (∀ x ∈ m.announcements moves events, m.Continues moves x)
      ∧ (m.announcements moves events).Pairwise fun x y =>
        x.1 ≤ y.1 ∧ (x.1 = y.1 → x.2.advertised = y.2.advertised) := by
  induction events generalizing m moves with
  | nil => exact ⟨fun _ hx => absurd hx List.not_mem_nil, .nil⟩
  | cons e rest ih =>
    obtain ⟨hrest, hpairwise⟩ := ih (advertises_occur h e)
    unfold announcements
    cases hannounced : m.announced? e with
    | none => exact ⟨fun x hx => .of_occur h (hrest x hx), hpairwise⟩
    | some tc =>
      have hfirst := continues_of_announced? h hannounced
      refine ⟨?_, .cons ?_ hpairwise⟩
      · intro x hx
        rcases List.mem_cons.1 hx with rfl | hx
        · exact .of_occur h hfirst
        · exact .of_occur h (hrest x hx)
      · intro y hy
        have hy := hrest y hy
        refine ⟨hy.moves_le, fun heq => ?_⟩
        rw [(hfirst.current rfl).2, (hy.current heq.symm).2]

/-- **Equal numbers announce equal sets.** Two announcements with the same number announce the same
selectors, unless the number has moved on half its way round between them. -/
theorem announcements_agree (h : m.node.Advertises moves) (events : List AdvertiserEvent) :
    (m.announcements moves events).Pairwise fun x y => y.1 < x.1 + 32768 →
      x.2.ansn.isNewerThan y.2.ansn = false
        ∧ (x.2.ansn = y.2.ansn → x.2.advertised = y.2.advertised) := by
  obtain ⟨hcontinues, hpairwise⟩ := announcements_spec h events
  refine hpairwise.imp_of_mem ?_
  rintro x y hx hy ⟨hle, hagree⟩ hnear
  rw [(hcontinues x hx).ansn_eq, (hcontinues y hy).ansn_eq]
  refine ⟨SeqNum.not_isNewerThan_count hle hnear, fun hansn => hagree ?_⟩
  rw [SeqNum.count_eq_iff] at hansn
  omega

end Moment

end Meshcast
